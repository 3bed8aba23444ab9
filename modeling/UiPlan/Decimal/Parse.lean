import UiPlan.Text.Blank
import UiPlan.Text.Lowercase

/-! Reading a double from display text: an optional sign, then `inf`, `infinity` or
`nan` in any case, or digits with an optional point on either side of which digits may
be missing but not on both, and an optional exponent. The value is rounded once, to
the nearest double.
-/
namespace UiPlan.Decimal

def infinity : Float := 1 / 0

def notANumber : Float := 0 / 0

/-- The double nearest to `coefficient * 10 ^ exponent`. Exponents that are sure to lead
to zero or beyond all doubles are not worked out. -/
def nearest (coefficient : Nat) (exponent : Int) : Float :=
  let magnitude := (Nat.toDigits 10 coefficient).length + exponent
  if coefficient = 0 then 0
  else if 310 < magnitude then infinity
  else if magnitude < -330 then 0
  else if 0 ≤ exponent then .ofScientific (coefficient * Nat.pow 10 exponent.toNat) false 0
  else .ofScientific coefficient true (-exponent).toNat

def exponent? : List Char → Option Int
  | [] => some 0
  | mark :: rest =>
    if mark = 'e' || mark = 'E' then
      let (below, digits) := match rest with
        | '+' :: digits => (false, digits)
        | '-' :: digits => (true, digits)
        | digits => (false, digits)
      if digits.isEmpty || !digits.all Char.isDigit then none
      else
        let value : Int := Nat.ofDigitChars 10 digits 0
        some (if below then -value else value)
    else none

def magnitude? (cs : List Char) : Option Float :=
  let whole := cs.takeWhile Char.isDigit
  let (fraction, after) := match cs.dropWhile Char.isDigit with
    | '.' :: rest => (rest.takeWhile Char.isDigit, rest.dropWhile Char.isDigit)
    | rest => ([], rest)
  if whole.isEmpty && fraction.isEmpty then none
  else (exponent? after).map fun exponent =>
    nearest (Nat.ofDigitChars 10 (whole ++ fraction) 0) (exponent - fraction.length)

def unsigned? (cs : List Char) : Option Float :=
  let word := String.ofList (Text.lowerAscii cs)
  if word = "inf" || word = "infinity" then some infinity
  else if word = "nan" then some notANumber
  else magnitude? cs

def parse? : List Char → Option Float
  | '-' :: rest => (unsigned? rest).map fun x => -x
  | '+' :: rest => unsigned? rest
  | cs => unsigned? cs

end UiPlan.Decimal
