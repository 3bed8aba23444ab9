import UiPlan.Decimal.Rounding

/-! A double from a 64-bit significand and a power of ten, rounded at each step: the
significand is rounded to a double first and then multiplied or divided by powers
of ten that are doubles themselves. The result can be a unit off the nearest
double. A product beyond the largest double has no result; whether it is beyond is
decided in exact arithmetic.
-/
namespace UiPlan.Decimal

def powerOfTen (n : Nat) : Float := .ofScientific 1 false n

def beyond : Nat := Nat.pow 2 1024 - Nat.pow 2 970

def overflows (significand exponent : Nat) : Bool :=
  beyond ≤ roundWhole significand * roundWhole (Nat.pow 10 exponent)

def shrink : (steps : Nat) → Float → Nat → Float
  | 0, x, _ => x
  | steps + 1, x, exponent =>
    if exponent ≤ 308 then x / powerOfTen exponent
    else if x == 0 then x
    else shrink steps (x / powerOfTen 308) (exponent - 308)

def approximate? (significand : Nat) (exponent : Int) : Option Float :=
  if exponent < 0 then some (shrink 4 (.ofNat significand) exponent.natAbs)
  else if significand = 0 then some 0
  else if 308 < exponent || overflows significand exponent.toNat then none
  else some (.ofNat significand * powerOfTen exponent.toNat)

/-- Takes digits into a significand below `2 ^ 64` and returns it with the number of
digits that no longer fitted. -/
def absorb (significand : Nat) : List Char → Nat × Nat
  | [] => (significand, 0)
  | c :: rest =>
    let next := 10 * significand + (c.toNat - '0'.toNat)
    if next < 18446744073709551616 then absorb next rest else (significand, rest.length + 1)

end UiPlan.Decimal
