import Mathlib.Tactic.Ring
import UiPlan.Decimal.Approximate
import UiPlan.Decimal.Shortest

/-! Digits and the number they stand for. The digits of a positive number do not begin with
a zero, and the zeros at their end are a power of ten.
-/
namespace UiPlan.Decimal

theorem le_ofDigitChars (cs : List Char) (value : Nat) : value ≤ Nat.ofDigitChars 10 cs value := by
  rw [Nat.ofDigitChars_eq_ofDigitChars_zero]
  have product : value ≤ 10 ^ cs.length * value :=
    Nat.le_mul_of_pos_left value (Nat.pow_pos (by omega))
  exact Nat.le_add_right_of_le product

theorem ofDigitChars_lt {cs : List Char} (digit : ∀ c ∈ cs, c.isDigit = true) (value : Nat) :
    Nat.ofDigitChars 10 cs value < (value + 1) * 10 ^ cs.length := by
  induction cs generalizing value with
  | nil => simp
  | cons c cs step =>
    have here : c.toNat ≤ 57 := by
      have bounds := digit c (by simp)
      simp only [Char.isDigit, Bool.and_eq_true, decide_eq_true_eq] at bounds
      exact bounds.2
    have zero : '0'.toNat = 48 := rfl
    have next : 10 * value + (c.toNat - '0'.toNat) + 1 ≤ (value + 1) * 10 := by omega
    rw [Nat.ofDigitChars_cons, List.length_cons, Nat.pow_succ']
    calc
      _ < (10 * value + (c.toNat - '0'.toNat) + 1) * 10 ^ cs.length :=
        step (fun d inside => digit d (by simp [inside])) _
      _ ≤ (value + 1) * 10 * 10 ^ cs.length := Nat.mul_le_mul_right _ next
      _ = (value + 1) * (10 * 10 ^ cs.length) := Nat.mul_assoc ..

/-- Digits of a number below `2 ^ 64` all fit into the significand. -/
theorem absorb_eq {cs : List Char} {value : Nat}
    (fits : Nat.ofDigitChars 10 cs value < 18446744073709551616) :
    absorb value cs = (Nat.ofDigitChars 10 cs value, 0) := by
  induction cs generalizing value with
  | nil => simp [absorb]
  | cons c cs step =>
    rw [Nat.ofDigitChars_cons] at fits ⊢
    have next := le_ofDigitChars cs (10 * value + (c.toNat - '0'.toNat))
    rw [absorb, if_pos (by omega), step fits]

theorem toDigits_of_pos {n : Nat} (positive : 0 < n) :
    ∃ c digits, Nat.toDigits 10 n = c :: digits ∧ c ≠ '0' := by
  induction n using Nat.strongRecOn with
  | ind n step =>
    by_cases small : n < 10
    · refine ⟨n.digitChar, [], Nat.toDigits_of_lt_base small, ?_⟩
      simpa using Nat.ne_of_gt positive
    · obtain ⟨c, digits, shape, notZero⟩ := step (n / 10) (by omega) (by omega)
      refine ⟨c, digits ++ [(n % 10).digitChar], ?_, notZero⟩
      rw [Nat.toDigits_of_base_le (by omega) (by omega), shape, List.cons_append]

theorem isDigit_of_mem_toDigits {n : Nat} {c : Char} (inside : c ∈ Nat.toDigits 10 n) :
    c.isDigit = true := Nat.isDigit_of_mem_toDigits (by omega) (by omega) inside

theorem toDigits_cons (n : Nat) :
    ∃ c digits, Nat.toDigits 10 n = c :: digits ∧ c.isDigit = true := by
  obtain ⟨c, digits, shape⟩ := List.exists_cons_of_ne_nil (Nat.toDigits_ne_nil (n := n) (b := 10))
  exact ⟨c, digits, shape, isDigit_of_mem_toDigits (n := n) (by simp [shape])⟩

/-- A positive number lies between two powers of ten next to each other. -/
theorem length_toDigits_spec {value : Nat} (positive : 1 ≤ value) :
    ∃ count, (Nat.toDigits 10 value).length = count + 1 ∧ 10 ^ count ≤ value ∧ value < 10 ^ (count + 1) := by
  obtain ⟨count, length⟩ := Nat.exists_eq_succ_of_ne_zero
    (Nat.ne_of_gt (Nat.length_toDigits_pos (b := 10) (n := value)))
  refine ⟨count, length, ?_, ?_⟩
  · rcases Nat.eq_zero_or_pos count with rfl | more
    · exact positive
    · rw [← Nat.not_lt, ← Nat.length_toDigits_le_iff (by decide) more, length]
      omega
  · apply (Nat.length_toDigits_le_iff (by decide) (by omega)).mp
    exact Nat.le_of_eq length

private theorem eq_append_zeros (cs : List Char) :
    ∃ zeros, cs = (cs.reverse.dropWhile (· == '0')).reverse ++ List.replicate zeros '0' := by
  have split := List.takeWhile_append_dropWhile (p := (· == '0')) (l := cs.reverse)
  have same : cs.reverse.takeWhile (· == '0') =
      List.replicate (cs.reverse.takeWhile (· == '0')).length '0' := by
    rw [List.eq_replicate_iff]
    exact ⟨rfl, fun c inside => by simpa using List.all_eq_true.mp List.all_takeWhile c inside⟩
  refine ⟨(cs.reverse.takeWhile (· == '0')).length, ?_⟩
  rw [← List.reverse_replicate, ← same, ← List.reverse_append, split, List.reverse_reverse]

namespace Digits

def value (x : Digits) : Nat := Nat.ofDigitChars 10 x.digits 0

/-- What goes from a coefficient are the zeros at its end, and the point knows of them. -/
theorem ofCoefficient_spec (coefficient : Nat) (unit : Int) :
    ∃ zeros, Nat.toDigits 10 coefficient =
        (ofCoefficient coefficient unit).digits ++ List.replicate zeros '0' ∧
      (ofCoefficient coefficient unit).point =
        (ofCoefficient coefficient unit).digits.length + zeros + unit ∧
      coefficient = (ofCoefficient coefficient unit).value * 10 ^ zeros := by
  obtain ⟨zeros, split⟩ := eq_append_zeros (Nat.toDigits 10 coefficient)
  have digits : (ofCoefficient coefficient unit).digits =
      ((Nat.toDigits 10 coefficient).reverse.dropWhile (· == '0')).reverse := rfl
  have point : (ofCoefficient coefficient unit).point = (Nat.toDigits 10 coefficient).length + unit := rfl
  rw [← digits] at split
  refine ⟨zeros, split, ?_, ?_⟩
  · rw [point, split, List.length_append, List.length_replicate, Int.natCast_add]
  · have whole := Nat.ofDigitChars_ten_toDigits (n := coefficient)
    rw [split, Nat.ofDigitChars_append, Nat.ofDigitChars_replicate_zero, Nat.mul_comm] at whole
    exact whole.symm

end Digits

end UiPlan.Decimal
