import UiPlan.Proofs.Decimal.Digits
import UiPlan.Proofs.Decimal.Rounding

/-! What the shortest decimal of a double is good for. Some grid always has a neighbour that
rounds to the double: with seventeen digits a step of the grid is shorter than the
interval of the reals that round to it. The decimal found stays below the upper end of
that interval, so even after both of its factors are rounded to doubles their product is
not beyond all doubles.
-/
namespace UiPlan.Decimal

namespace Binary

structure Positive (x : Binary) : Prop where
  some : 0 < x.significand
  few : x.significand < 2 ^ 53
  least : -1074 ≤ x.exponent
  most : x.exponent ≤ 971
  alone : x.narrow = true → x.significand = 2 ^ 52

/-- The bits of a finite double other than zero give a positive number. -/
theorem positive_ofBits {bits : Nat} (nonzero : bits % 2 ^ 63 ≠ 0) (finite : exponentPart bits ≠ 2047) :
    (ofBits bits).Positive := by
  have parts : bits % 2 ^ 63 = fractionPart bits + 2 ^ 52 * exponentPart bits :=
    Nat.mod_mul (a := 2 ^ 52) (b := 2048)
  have fraction : fractionPart bits < 2 ^ 52 := Nat.mod_lt _ (by decide)
  have biased : exponentPart bits < 2048 := Nat.mod_lt _ (by decide)
  have count : fractionCount = 2 ^ 52 := rfl
  unfold ofBits
  dsimp only
  split
  · rename_i zero
    refine ⟨?_, ?_, ?_, ?_, ?_⟩
    · dsimp only
      rw [zero] at parts
      omega
    · dsimp only
      omega
    · exact Int.le_refl _
    · exact Int.le_trans (Int.negSucc_le_zero 1073) (Int.natCast_nonneg 971)
    · nofun
  · rename_i zero
    refine ⟨?_, ?_, ?_, ?_, ?_⟩
    · dsimp only
      omega
    · dsimp only
      omega
    · dsimp only
      omega
    · dsimp only
      omega
    · intro narrow
      simp only [Bool.and_eq_true, decide_eq_true_eq] at narrow
      dsimp only
      omega

variable {x : Binary}

theorem scale_pos (x : Binary) : 0 < x.scale := Nat.two_pow_pos _

theorem denominator_pos (x : Binary) : 0 < x.denominator :=
  Nat.mul_pos (by decide) (Nat.two_pow_pos _)

private theorem denominator_le (positive : x.Positive) : x.denominator ≤ x.numerator * Nat.pow 10 400 := by
  have below := positive.least
  have bound : Nat.pow 2 1074 ≤ Nat.pow 10 400 := by decide +kernel
  have power : 2 ^ (-x.exponent).toNat ≤ Nat.pow 10 400 := by
    apply Nat.le_trans ?_ bound
    apply Nat.pow_le_pow_right (by decide)
    omega
  have large : 4 ≤ x.numerator := by
    have product := Nat.mul_le_mul positive.some (scale_pos x)
    rw [numerator, Nat.mul_assoc]
    omega
  exact Nat.mul_le_mul large power

theorem magnitude_spec (positive : x.Positive) : ∃ count : Nat, x.magnitude = count + 1 - 400 ∧
    10 ^ count * x.denominator ≤ x.numerator * Nat.pow 10 400 ∧
      x.numerator * Nat.pow 10 400 < 10 ^ (count + 1) * x.denominator := by
  have atLeastOne : 1 ≤ x.numerator * Nat.pow 10 400 / x.denominator := by
    rw [Nat.le_div_iff_mul_le (denominator_pos x), Nat.one_mul]
    exact denominator_le positive
  obtain ⟨count, length, lower, upper⟩ := length_toDigits_spec atLeastOne
  rw [Nat.le_div_iff_mul_le (denominator_pos x)] at lower
  rw [Nat.div_lt_iff_lt_mul (denominator_pos x)] at upper
  refine ⟨count, ?_, lower, upper⟩
  rw [magnitude, length]
  rfl

def step (x : Binary) (unit : Int) : Nat := x.denominator * 10 ^ unit.toNat

def target (x : Binary) (unit : Int) : Nat := x.numerator * 10 ^ (-unit).toNat

/-- A quarter of the distance to the next larger double, measured like the steps. -/
def width (x : Binary) (unit : Int) : Nat := x.scale * 10 ^ (-unit).toNat

variable {unit : Int} {left right power count : Nat}

/-- An inequality may be moved from one power of ten to another. -/
theorem lt_of_shifted (upper : x.numerator * Nat.pow 10 power < 10 ^ left * x.denominator)
    (shift : left + (-unit).toNat = unit.toNat + count + power) :
    x.target unit < x.step unit * 10 ^ count := by
  have grown := Nat.mul_lt_mul_of_pos_right upper (Nat.pow_pos (n := (-unit).toNat) (by decide : 0 < 10))
  refine Nat.lt_of_mul_lt_mul_right (a := 10 ^ power) ?_
  calc
    x.target unit * 10 ^ power = x.numerator * Nat.pow 10 power * 10 ^ (-unit).toNat :=
      Nat.mul_right_comm ..
    _ < 10 ^ left * x.denominator * 10 ^ (-unit).toNat := grown
    _ = x.denominator * 10 ^ (left + (-unit).toNat) := by
      rw [Nat.mul_comm (10 ^ left), Nat.mul_assoc, ← Nat.pow_add]
    _ = x.step unit * 10 ^ count * 10 ^ power := by
      rw [shift, Nat.pow_add, Nat.pow_add, step, ← Nat.mul_assoc, ← Nat.mul_assoc]

private theorem le_of_shifted (lower : 10 ^ left * x.denominator ≤ x.numerator * Nat.pow 10 power)
    (shift : left + (-unit).toNat = unit.toNat + count + power) :
    x.step unit * 10 ^ count ≤ x.target unit := by
  have grown := Nat.mul_le_mul_right (10 ^ (-unit).toNat) lower
  refine Nat.le_of_mul_le_mul_right (c := 10 ^ power) ?_ (Nat.pow_pos (by decide))
  calc
    x.step unit * 10 ^ count * 10 ^ power = x.denominator * 10 ^ (left + (-unit).toNat) := by
      rw [shift, Nat.pow_add, Nat.pow_add, step, ← Nat.mul_assoc, ← Nat.mul_assoc]
    _ = 10 ^ left * x.denominator * 10 ^ (-unit).toNat := by
      rw [Nat.mul_comm (10 ^ left), Nat.mul_assoc, ← Nat.pow_add]
    _ ≤ x.numerator * Nat.pow 10 power * 10 ^ (-unit).toNat := grown
    _ = x.target unit * 10 ^ power := Nat.mul_right_comm ..

theorem step_pos (x : Binary) (unit : Int) : 0 < x.step unit :=
  Nat.mul_pos (denominator_pos x) (Nat.pow_pos (by decide))

private theorem target_eq (x : Binary) (unit : Int) : x.target unit = 4 * x.significand * x.width unit := by
  rw [target, width, numerator, Nat.mul_assoc]

private theorem target_lt_step (positive : x.Positive) (count : Nat) :
    x.target (x.magnitude - count) < x.step (x.magnitude - count) * 10 ^ count := by
  obtain ⟨digits, same, -, upper⟩ := magnitude_spec positive
  generalize unit_eq : x.magnitude - count = unit
  refine lt_of_shifted upper ?_
  omega

private theorem step_le_target (positive : x.Positive) :
    x.step (x.magnitude - 17) * 10 ^ 16 ≤ x.target (x.magnitude - 17) := by
  obtain ⟨digits, same, lower, -⟩ := magnitude_spec positive
  generalize unit_eq : x.magnitude - 17 = unit
  refine le_of_shifted lower ?_
  omega

private theorem high_eq (x : Binary) (unit : Int) :
    x.high * 10 ^ (-unit).toNat = x.target unit + 2 * x.width unit := by
  rw [high, Nat.add_mul, target, width, Nat.mul_assoc]

private theorem low_eq (x : Binary) (unit : Int) :
    x.low * 10 ^ (-unit).toNat = x.target unit - (if x.narrow then 1 else 2) * x.width unit := by
  rw [low, Nat.sub_mul, target, width, Nat.mul_assoc]

def fits (x : Binary) (unit : Int) (n : Nat) : Bool :=
  x.admits (x.low * 10 ^ (-unit).toNat) (n * x.step unit) (x.high * 10 ^ (-unit).toNat)

private theorem le_of_fits {n : Nat} (fit : x.fits unit n = true) :
    n * x.step unit ≤ x.high * 10 ^ (-unit).toNat := by
  unfold fits admits at fit
  split at fit <;> simp only [Bool.and_eq_true, decide_eq_true_eq] at fit <;> omega

theorem fits_of_lt {n : Nat} (lower : x.target unit < n * x.step unit + (if x.narrow then 1 else 2) * x.width unit)
    (positive : 0 < n * x.step unit) (upper : n * x.step unit < x.target unit + 2 * x.width unit) :
    x.fits unit n = true := by
  have above := high_eq x unit
  have below := low_eq x unit
  unfold fits admits
  split <;> simp only [Bool.and_eq_true, decide_eq_true_eq] <;> omega

def below (x : Binary) (unit : Int) : Nat := x.target unit / x.step unit

theorem onGrid_eq (x : Binary) (tie : Tie) (unit : Int) : ∃ belowFirst : Bool,
    x.onGrid tie unit = match x.fits unit (x.below unit) && x.below unit ≠ 0,
        x.fits unit (x.below unit + 1) with
      | true, true => some (if belowFirst then x.below unit else x.below unit + 1)
      | true, false => some (x.below unit)
      | false, true => some (x.below unit + 1)
      | false, false => none := ⟨_, rfl⟩

theorem onGrid_eq_some {tie : Tie} {n : Nat} (found : x.onGrid tie unit = some n) :
    0 < n ∧ n ≤ x.below unit + 1 ∧ x.fits unit n = true := by
  obtain ⟨belowFirst, same⟩ := onGrid_eq x tie unit
  rw [same] at found
  split at found
  · rename_i under above
    simp only [Bool.and_eq_true, decide_eq_true_eq] at under
    cases belowFirst
    · obtain rfl := Option.some.inj found
      exact ⟨Nat.succ_pos _, Nat.le_refl _, above⟩
    · obtain rfl := Option.some.inj found
      exact ⟨Nat.pos_of_ne_zero under.2, Nat.le_succ _, under.1⟩
  · rename_i under _
    simp only [Bool.and_eq_true, decide_eq_true_eq] at under
    obtain rfl := Option.some.inj found
    exact ⟨Nat.pos_of_ne_zero under.2, Nat.le_succ _, under.1⟩
  · rename_i above
    obtain rfl := Option.some.inj found
    exact ⟨Nat.succ_pos _, Nat.le_refl _, above⟩
  · cases found

private theorem onGrid_ne_none {tie : Tie} (belowPositive : 0 < x.below unit)
    (near : x.fits unit (x.below unit) = true ∨ x.fits unit (x.below unit + 1) = true) :
    x.onGrid tie unit ≠ none := by
  obtain ⟨belowFirst, same⟩ := onGrid_eq x tie unit
  intro missed
  rw [same] at missed
  split at missed
  · cases missed
  · cases missed
  · cases missed
  · rename_i under above
    simp only [Bool.and_eq_false_imp, decide_eq_false_iff_not] at under
    rcases near with fit | fit
    · exact under fit (Nat.ne_of_gt belowPositive)
    · rw [fit] at above
      cases above

/-- The step is so short that the nearer point of the grid rounds to the double. -/
theorem onGrid_seventeen (positive : x.Positive) (tie : Tie) :
    x.onGrid tie (x.magnitude - 17) ≠ none := by
  have short := step_le_target positive
  generalize x.magnitude - 17 = unit at short
  have wide := target_eq x unit
  have stepped := step_pos x unit
  have room : 0 < x.width unit := Nat.mul_pos (scale_pos x) (Nat.pow_pos (by decide))
  have split : x.below unit * x.step unit + x.target unit % x.step unit = x.target unit :=
    Nat.div_add_mod' ..
  have rest : x.target unit % x.step unit < x.step unit := Nat.mod_lt _ stepped
  have belowPositive : 0 < x.below unit := by
    apply Nat.div_pos _ stepped
    omega
  have next : (x.below unit + 1) * x.step unit = x.below unit * x.step unit + x.step unit :=
    Nat.succ_mul ..
  have one : x.step unit ≤ x.below unit * x.step unit := Nat.le_mul_of_pos_left _ belowPositive
  -- Half a step is shorter than the interval on either side.
  have half : x.step unit < 2 * ((if x.narrow then 1 else 2) * x.width unit) := by
    cases narrow : x.narrow with
    | true =>
      rw [positive.alone narrow] at wide
      simp only [if_true]
      omega
    | false =>
      have product : x.significand * x.width unit < 2 ^ 53 * x.width unit :=
        Nat.mul_lt_mul_of_pos_right positive.few room
      rw [Nat.mul_assoc] at wide
      simp only [Bool.false_eq_true, if_false]
      omega
  have side : (if x.narrow then 1 else 2) * x.width unit ≤ 2 * x.width unit := by
    apply Nat.mul_le_mul_right
    split <;> decide
  apply onGrid_ne_none belowPositive
  by_cases nearer : 2 * (x.target unit % x.step unit) ≤ x.step unit
  · left
    apply fits_of_lt <;> omega
  · right
    apply fits_of_lt <;> omega

private theorem le_ten_pow_of_onGrid (positive : x.Positive) {tie : Tie} {count n : Nat}
    (found : x.onGrid tie (x.magnitude - count) = some n) : n ≤ 10 ^ count := by
  obtain ⟨_, le, _⟩ := onGrid_eq_some found
  have small : x.below (x.magnitude - count) < 10 ^ count := by
    rw [below, Nat.div_lt_iff_lt_mul (step_pos x _), Nat.mul_comm]
    exact target_lt_step positive count
  omega

private theorem shortestFrom_spec {tie : Tie} {magnitude : Int} {grids count : Nat}
    (hit : x.onGrid tie (magnitude - (count + grids : Nat)) ≠ none) :
    ∃ used ≤ count + grids, ∃ n, x.onGrid tie (magnitude - used) = some n ∧
      shortestFrom x tie magnitude (grids + 1) count = .ofCoefficient n (magnitude - used) := by
  induction grids generalizing count with
  | zero =>
    obtain ⟨n, found⟩ := Option.ne_none_iff_exists'.mp hit
    refine ⟨count, Nat.le_refl _, n, found, ?_⟩
    rw [Nat.add_zero] at found
    simp only [shortestFrom, found]
  | succ grids step =>
    cases found : x.onGrid tie (magnitude - count) with
    | some n => exact ⟨count, by omega, n, found, by rw [shortestFrom]; simp only [found]⟩
    | none =>
      rw [show count + (grids + 1) = count + 1 + grids by omega] at hit ⊢
      obtain ⟨used, within, n, hit, same⟩ := step hit
      refine ⟨used, within, n, hit, ?_⟩
      rw [shortestFrom]
      simp only [found]
      exact same

/-- The digits that are found are at most seventeen, and they do not go beyond the upper end of the
interval that rounds to the double. -/
theorem shortest_spec (positive : x.Positive) (tie : Tie) :
    ∃ n unit, shortest tie x = .ofCoefficient n unit ∧ 0 < n ∧ n ≤ 10 ^ 17 ∧ -416 ≤ unit ∧
      n * x.step unit ≤ x.high * 10 ^ (-unit).toNat := by
  have hit : x.onGrid tie (x.magnitude - ((1 + 16 : Nat) : Int)) ≠ none := onGrid_seventeen positive tie
  obtain ⟨used, within, n, found, same⟩ := shortestFrom_spec hit
  obtain ⟨nonzero, _, fit⟩ := onGrid_eq_some found
  obtain ⟨count, magnitude, _⟩ := magnitude_spec positive
  refine ⟨n, x.magnitude - used, same, nonzero, ?_, by omega, le_of_fits fit⟩
  exact Nat.le_trans (le_ten_pow_of_onGrid positive found) (Nat.pow_le_pow_right (by decide) within)

def largest : Binary := ⟨2 ^ 53 - 1, 971, false⟩

private theorem largest_of_bounds (positive : x.Positive) (top : x.exponent = 971)
    (full : 2 ^ 53 - 1 ≤ x.significand) : x = largest := by
  have few := positive.few
  have same : x.significand = 2 ^ 53 - 1 := by omega
  have wide : x.narrow = false := by
    cases narrow : x.narrow with
    | false => rfl
    | true =>
      have alone := positive.alone narrow
      omega
  cases x
  simp_all [largest]

private theorem high_le (positive : x.Positive) (other : x ≠ largest) : x.high ≤ secondHigh * x.denominator := by
  have few := positive.few
  have most := positive.most
  have high : x.high = (4 * x.significand + 2) * x.scale := by rw [high, numerator, Nat.add_mul]
  have four : secondHigh * 4 ≤ secondHigh * x.denominator := by
    apply Nat.mul_le_mul_left
    exact Nat.le_mul_of_pos_right 4 (Nat.two_pow_pos _)
  apply Nat.le_trans ?_ four
  rw [high]
  rcases Int.lt_or_eq_of_le most with lower | top
  · have bound : 36028797018963966 * Nat.pow 2 970 ≤ secondHigh * 4 := by decide +kernel
    apply Nat.le_trans ?_ bound
    apply Nat.mul_le_mul (by omega)
    apply Nat.pow_le_pow_right (by decide)
    omega
  · have bound : 36028797018963962 * Nat.pow 2 971 ≤ secondHigh * 4 := by decide +kernel
    have significand : x.significand < 2 ^ 53 - 1 := by
      rw [← Nat.not_le]
      exact fun full => other (largest_of_bounds positive top full)
    apply Nat.le_trans ?_ bound
    apply Nat.mul_le_mul (by omega)
    apply Nat.pow_le_pow_right (by decide)
    omega

private theorem shortest_largest : shortest .toEven largest = ⟨"17976931348623157".toList, 309⟩ := by
  decide +kernel

end Binary

/-- Digits that stand for a double, however a layout writes them. -/
structure Digits.Legible (x : Digits) : Prop where
  digit : ∀ c ∈ x.digits, c.isDigit = true
  leads : ∃ c rest, x.digits = c :: rest ∧ c ≠ '0'
  few : x.value ≤ 10 ^ 17
  least : -500 ≤ x.point
  most : x.point ≤ 500
  fits : ∀ zeros : Nat, x.point = x.digits.length + zeros →
    zeros ≤ 308 ∧ overflows x.value zeros = false

private theorem legible_largest : (shortest .toEven Binary.largest).Legible := by
  rw [Binary.shortest_largest]
  refine ⟨List.all_eq_true.mp rfl, ⟨'1', _, rfl, by decide⟩, by decide, by decide, by decide,
    fun zeros point => ?_⟩
  have length : (309 : Int) = 17 + zeros := point
  obtain rfl : zeros = 292 := by omega
  exact ⟨by decide, by decide +kernel⟩

private theorem legible_ofCoefficient {coefficient : Nat} {unit : Int} (positive : 0 < coefficient)
    (few : coefficient ≤ 10 ^ 17) (least : -416 ≤ unit)
    (below : ∀ significand zeros exponent : Nat, coefficient = significand * 10 ^ zeros →
      (exponent : Int) = zeros + unit → significand * 10 ^ exponent ≤ secondHigh) :
    (Digits.ofCoefficient coefficient unit).Legible := by
  obtain ⟨zeros, split, point, value⟩ := Digits.ofCoefficient_spec coefficient unit
  generalize Digits.ofCoefficient coefficient unit = x at split point value
  obtain ⟨c, rest, shape, notZero⟩ := toDigits_of_pos positive
  have valuePositive : 0 < x.value := by
    apply Nat.pos_of_ne_zero
    intro zero
    rw [zero, Nat.zero_mul] at value
    omega
  have less : x.value ≤ 10 ^ 17 := by
    apply Nat.le_trans _ few
    rw [value]
    exact Nat.le_mul_of_pos_right _ (Nat.pow_pos (by decide))
  -- The zeros that were dropped count among the digits of the coefficient.
  have short : x.digits.length + zeros ≤ 18 := by
    rw [← List.length_replicate (n := zeros) (a := '0'), ← List.length_append, ← split,
      Nat.length_toDigits_le_iff (by decide) (by decide)]
    omega
  have fits : ∀ exponent : Nat, x.point = x.digits.length + exponent →
      exponent ≤ 308 ∧ overflows x.value exponent = false := by
    intro exponent same
    exact overflows_of_le_secondHigh valuePositive less (below _ zeros exponent value (by omega))
  refine ⟨?_, ?_, less, by omega, ?_, fits⟩
  · intro c inside
    exact isDigit_of_mem_toDigits (n := coefficient) (by simp [split, inside])
  · cases digits : x.digits with
    | nil =>
      have vanishes : x.value = 0 := by rw [Digits.value, digits, Nat.ofDigitChars_nil]
      omega
    | cons d others =>
      rw [shape, digits, List.cons_append] at split
      obtain ⟨rfl, _⟩ := List.cons.inj split
      exact ⟨c, others, rfl, notZero⟩
  · rcases Int.lt_or_le x.point x.digits.length with inside | behind
    · omega
    · obtain ⟨exponent, same⟩ := Int.le.dest behind
      have small := (fits exponent same.symm).1
      omega

/-- The shortest digits of every positive double can be read. -/
theorem legible_shortest {x : Binary} (positive : x.Positive) : (shortest .toEven x).Legible := by
  by_cases top : x = .largest
  · rw [top]
    exact legible_largest
  obtain ⟨coefficient, unit, same, nonzero, few, least, within⟩ := Binary.shortest_spec positive .toEven
  rw [same]
  refine legible_ofCoefficient nonzero few least fun significand zeros exponent value shift => ?_
  have high := Nat.mul_le_mul_right (10 ^ (-unit).toNat) (Binary.high_le positive top)
  refine Nat.le_of_mul_le_mul_right (c := x.denominator * 10 ^ (-unit).toNat) ?_
    (Nat.mul_pos (Binary.denominator_pos x) (Nat.pow_pos (by decide)))
  calc
    significand * 10 ^ exponent * (x.denominator * 10 ^ (-unit).toNat) =
        significand * x.denominator * 10 ^ (exponent + (-unit).toNat) := by
      rw [Nat.pow_add]
      ring
    _ = significand * x.denominator * 10 ^ (zeros + unit.toNat) := by
      rw [show exponent + (-unit).toNat = zeros + unit.toNat by omega]
    _ = coefficient * x.step unit := by
      rw [value, Nat.pow_add, Binary.step]
      ring
    _ ≤ x.high * 10 ^ (-unit).toNat := within
    _ ≤ secondHigh * (x.denominator * 10 ^ (-unit).toNat) := by
      rw [← Nat.mul_assoc]
      exact high

end UiPlan.Decimal
