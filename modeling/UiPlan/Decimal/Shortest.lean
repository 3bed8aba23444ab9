/-! The shortest decimal that reads back as a given double. A positive double is
`significand * 2 ^ exponent`; the reals that round to it form an interval around
it, closed when the significand is even. For one digit, two digits and so on the
two neighbours of the double on that decimal grid are tried, and the first grid
with a neighbour in the interval wins. Everything is exact arithmetic on natural
numbers over one common denominator.
-/
namespace UiPlan.Decimal

inductive Tie where
  | toEven
  | upward
  deriving DecidableEq, Repr

/-- The decimal `0.d₁d₂…dₙ * 10 ^ point`, with no zero at the end of the digits. -/
structure Digits where
  digits : List Char
  point : Int
  deriving DecidableEq, Repr

structure Binary where
  significand : Nat
  exponent : Int
  narrow : Bool  -- the next smaller double is only half as far away as the next larger one
  deriving DecidableEq, Repr

namespace Binary

def fractionCount : Nat := Nat.pow 2 52

def fractionPart (bits : Nat) : Nat := bits % fractionCount

def exponentPart (bits : Nat) : Nat := bits / fractionCount % 2048

def ofBits (bits : Nat) : Binary :=
  let fraction := fractionPart bits
  let biased := exponentPart bits
  if biased = 0 then ⟨fraction, -1074, false⟩
  else ⟨fractionCount + fraction, (biased : Int) - 1075, fraction = 0 && biased > 1⟩

def scale (x : Binary) : Nat := Nat.pow 2 x.exponent.toNat

def denominator (x : Binary) : Nat := 4 * Nat.pow 2 (-x.exponent).toNat

def numerator (x : Binary) : Nat := 4 * x.significand * x.scale

def low (x : Binary) : Nat := x.numerator - (if x.narrow then 1 else 2) * x.scale

def high (x : Binary) : Nat := x.numerator + 2 * x.scale

def admits (x : Binary) (low value high : Nat) : Bool :=
  if x.significand % 2 = 0 then low ≤ value && value ≤ high else low < value && value < high

/-- The exponent of ten just above the double: the double is less than
`10 ^ magnitude` and at least a tenth of it. -/
def magnitude (x : Binary) : Int :=
  ((Nat.toDigits 10 (x.numerator * Nat.pow 10 400 / x.denominator)).length : Int) - 400

/-- The better of the two neighbours on the grid of `10 ^ unit`, if one of them
rounds to the double. -/
def onGrid (x : Binary) (tie : Tie) (unit : Int) : Option Nat :=
  let grow := Nat.pow 10 unit.toNat
  let shrink := Nat.pow 10 (-unit).toNat
  let step := x.denominator * grow
  let target := x.numerator * shrink
  let below := target / step
  let fits (n : Nat) : Bool := x.admits (x.low * shrink) (n * step) (x.high * shrink)
  let under := target - below * step
  let above := (below + 1) * step - target
  let belowFirst := if under = above then (match tie with
    | .toEven => below % 2 = 0
    | .upward => false) else decide (under < above)
  match fits below && below ≠ 0, fits (below + 1) with
  | true, true => some (if belowFirst then below else below + 1)
  | true, false => some below
  | false, true => some (below + 1)
  | false, false => none

end Binary

def Digits.ofCoefficient (coefficient : Nat) (unit : Int) : Digits :=
  let all := Nat.toDigits 10 coefficient
  ⟨(all.reverse.dropWhile (· == '0')).reverse, all.length + unit⟩

def shortestFrom (x : Binary) (tie : Tie) (magnitude : Int) : (grids count : Nat) → Digits
  | 0, _ => ⟨[], 0⟩
  | grids + 1, count =>
    let unit := magnitude - count
    match x.onGrid tie unit with
    | some coefficient => .ofCoefficient coefficient unit
    | none => shortestFrom x tie magnitude grids (count + 1)

def shortest (tie : Tie) (x : Binary) : Digits := shortestFrom x tie x.magnitude 17 1

end UiPlan.Decimal
