import Mathlib.Tactic.Ring
import UiPlan.Decimal.Approximate

/-! Rounding to 53 bits keeps the order of whole numbers. Between two neighbouring powers of
two the grid is the same for all numbers, and a power of two bounds the numbers below it
even after they are rounded.
-/
namespace UiPlan.Decimal

def gridOf (n : Nat) : Nat := 2 ^ (n.log2 - 52)

def roundsUp (n : Nat) : Bool :=
  gridOf n < 2 * (n % gridOf n) || (gridOf n = 2 * (n % gridOf n) && n / gridOf n % 2 = 1)

theorem roundWhole_eq (n : Nat) :
    roundWhole n = (n / gridOf n + (roundsUp n).toNat) * gridOf n := by
  have same : roundWhole n = (if roundsUp n then n / gridOf n + 1 else n / gridOf n) * gridOf n := rfl
  rw [same]
  cases roundsUp n <;> rfl

theorem gridOf_pos (n : Nat) : 0 < gridOf n := Nat.two_pow_pos _

private theorem roundWhole_le_two_pow (n : Nat) : roundWhole n ≤ 2 ^ (n.log2 + 1) := by
  have split : 2 ^ (n.log2 + 1) = 2 ^ (n.log2 + 1 - (n.log2 - 52)) * gridOf n := by
    rw [gridOf, ← Nat.pow_add]
    congr 1
    omega
  have below : n / gridOf n < 2 ^ (n.log2 + 1 - (n.log2 - 52)) := by
    rw [Nat.div_lt_iff_lt_mul (gridOf_pos n), ← split]
    exact Nat.lt_log2_self
  have step : (roundsUp n).toNat ≤ 1 := Bool.toNat_le _
  rw [roundWhole_eq, split]
  apply Nat.mul_le_mul_right
  omega

private theorem two_pow_le_roundWhole {n : Nat} (positive : n ≠ 0) : 2 ^ n.log2 ≤ roundWhole n := by
  have split : 2 ^ n.log2 = 2 ^ (n.log2 - (n.log2 - 52)) * gridOf n := by
    rw [gridOf, ← Nat.pow_add]
    congr 1
    omega
  have below : 2 ^ (n.log2 - (n.log2 - 52)) ≤ n / gridOf n := by
    rw [Nat.le_div_iff_mul_le (gridOf_pos n), ← split]
    exact Nat.log2_self_le positive
  rw [roundWhole_eq, split]
  apply Nat.mul_le_mul_right
  omega

/-- On one grid the larger number is rounded up if the smaller one of the same cell is. -/
theorem roundWhole_le_of_log2_eq {n m : Nat} (le : n ≤ m) (same : n.log2 = m.log2) :
    roundWhole n ≤ roundWhole m := by
  have grid : gridOf m = gridOf n := by rw [gridOf, gridOf, same]
  rw [roundWhole_eq, roundWhole_eq, grid]
  apply Nat.mul_le_mul_right
  have cells : n / gridOf n ≤ m / gridOf n := Nat.div_le_div_right le
  have step : (roundsUp n).toNat ≤ 1 := Bool.toNat_le _
  rcases Nat.lt_or_eq_of_le cells with apart | cell
  · omega
  · have left := Nat.div_add_mod n (gridOf n)
    have right := Nat.div_add_mod m (gridOf n)
    rw [← cell] at right
    have raised : roundsUp n = true → roundsUp m = true := by
      simp only [roundsUp, grid, ← cell, Bool.or_eq_true, Bool.and_eq_true, decide_eq_true_eq]
      omega
    rw [← cell]
    cases up : roundsUp n with
    | false => simp
    | true => simp [raised up]

theorem roundWhole_mono {n m : Nat} (le : n ≤ m) : roundWhole n ≤ roundWhole m := by
  rcases Nat.eq_zero_or_pos n with rfl | positive
  · rw [show roundWhole 0 = 0 from rfl]
    exact Nat.zero_le _
  have nonzero : n ≠ 0 := Nat.ne_of_gt positive
  have powers : n.log2 ≤ m.log2 := by
    rw [Nat.le_log2 (by omega)]
    exact Nat.le_trans (Nat.log2_self_le nonzero) le
  rcases Nat.lt_or_eq_of_le powers with lower | same
  · calc roundWhole n ≤ 2 ^ (n.log2 + 1) := roundWhole_le_two_pow n
      _ ≤ 2 ^ m.log2 := Nat.pow_le_pow_right (by omega) lower
      _ ≤ roundWhole m := two_pow_le_roundWhole (by omega)
  · exact roundWhole_le_of_log2_eq le same

theorem overflows_mono {small large low high : Nat} (factors : small ≤ large) (powers : low ≤ high)
    (fits : overflows large high = false) : overflows small low = false := by
  have tens : roundWhole (Nat.pow 10 low) ≤ roundWhole (Nat.pow 10 high) :=
    roundWhole_mono (Nat.pow_le_pow_right (by decide) powers)
  have product := Nat.mul_le_mul (roundWhole_mono factors) tens
  simp only [overflows, decide_eq_false_iff_not, Nat.not_le] at fits ⊢
  exact Nat.lt_of_le_of_lt product fits

/-- The upper end of the interval of the reals that round to the second largest double. -/
def secondHigh : Nat := Nat.pow 2 1024 - 3 * Nat.pow 2 970

private theorem secondHigh_fits : ∀ more < 18,
    overflows (secondHigh / Nat.pow 10 (291 + more)) (291 + more) = false := by decide +kernel

/-- A product that is not beyond the second largest double does not come beyond the largest by
rounding its factors. -/
theorem overflows_of_le_secondHigh {significand exponent : Nat} (positive : 0 < significand)
    (few : significand ≤ 10 ^ 17) (below : significand * 10 ^ exponent ≤ secondHigh) :
    exponent ≤ 308 ∧ overflows significand exponent = false := by
  have power : 10 ^ exponent ≤ secondHigh := Nat.le_trans (Nat.le_mul_of_pos_left _ positive) below
  have bounded : ∀ top, secondHigh < Nat.pow 10 top → exponent < top := by
    intro top bound
    apply (Nat.pow_lt_pow_iff_right (a := 10) (by decide)).mp
    exact Nat.lt_of_le_of_lt power bound
  have least : exponent < 309 := bounded 309 (by decide +kernel)
  refine ⟨Nat.le_of_lt_succ least, ?_⟩
  -- Seventeen digits never overflow below this exponent; the few above it are tried one by one.
  rcases Nat.lt_or_ge exponent 291 with small | large
  · have fits : overflows (10 ^ 17) 291 = false := by decide +kernel
    exact overflows_mono few (Nat.le_of_lt small) fits
  · obtain ⟨more, rfl⟩ := Nat.exists_eq_add_of_le large
    have quotient : significand ≤ secondHigh / Nat.pow 10 (291 + more) :=
      (Nat.le_div_iff_mul_le (Nat.pow_pos (by decide))).mpr below
    exact overflows_mono quotient (Nat.le_refl _) (secondHigh_fits more (by omega))

end UiPlan.Decimal
