/-! Rounding whole numbers to doubles, in exact arithmetic. A double has 53 significant bits,
so up to `2 ^ 53` nothing is rounded.
-/
namespace UiPlan.Decimal

/-- The number nearest to `n` among those with 53 significant bits; of two equally near ones
the one whose bits end in zero. -/
def roundWhole (n : Nat) : Nat :=
  let unit := Nat.pow 2 (n.log2 - 52)
  let below := n / unit
  let left := n % unit
  let up := unit < 2 * left || (unit = 2 * left && below % 2 = 1)
  (if up then below + 1 else below) * unit

def roundInt (n : Int) : Int := n.sign * roundWhole n.natAbs

end UiPlan.Decimal
