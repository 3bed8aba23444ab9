import UiPlan.Json.Reader
import UiPlan.Json.Writer
import UiPlan.Proofs.Decimal.Shortest

/-! The text of a number reads back. An integer comes back as it is. What comes back for a
double need not be the double, since the reader rounds more than once, but something
always does: the digits fit into the significand, and the number they stand for is not
beyond all doubles.
-/
namespace UiPlan.Json

def endsDigits : List Char → Bool
  | [] => true
  | c :: _ => !c.isDigit

def endsNumber : List Char → Bool
  | [] => true
  | c :: _ => !c.isDigit && c ≠ '.' && c ≠ 'e' && c ≠ 'E'

theorem endsDigits_of_endsNumber {rest : List Char} (ends : endsNumber rest = true) :
    endsDigits rest = true := by
  cases rest with
  | nil => rfl
  | cons c rest =>
    simp only [endsNumber, Bool.and_eq_true] at ends
    exact ends.1.1.1

theorem takeWhile_digits {digits rest : List Char} (all : ∀ c ∈ digits, c.isDigit = true)
    (ends : endsDigits rest = true) :
    (digits ++ rest).takeWhile Char.isDigit = digits ∧
      (digits ++ rest).dropWhile Char.isDigit = rest := by
  rw [List.takeWhile_append_of_pos all, List.dropWhile_append_of_pos all]
  cases rest with
  | nil => simp
  | cons c rest =>
    have stop : c.isDigit = false := by simpa [endsDigits] using ends
    simp [stop]

structure Leading (digits : List Char) : Prop where
  digit : ∀ c ∈ digits, c.isDigit = true
  shape : digits = ['0'] ∨ ∃ c rest, digits = c :: rest ∧ c ≠ '0'
  fits : Nat.ofDigitChars 10 digits 0 < 18446744073709551616

theorem leading_toDigits {n : Nat} (fits : n < 18446744073709551616) : Leading (Nat.toDigits 10 n) := by
  refine ⟨fun c inside => Decimal.isDigit_of_mem_toDigits inside, ?_, ?_⟩
  · rcases Nat.eq_zero_or_pos n with rfl | positive
    · exact .inl rfl
    · exact .inr (Decimal.toDigits_of_pos positive)
  · rw [Nat.ofDigitChars_ten_toDigits]
    exact fits

variable {negative : Bool} {whole fraction rest : List Char}

theorem readMagnitude_leading (leading : Leading whole) (ends : endsDigits rest = true) :
    readMagnitude negative (whole ++ rest) =
      readFraction negative (Nat.ofDigitChars 10 whole 0) 0 rest := by
  rcases leading.shape with rfl | ⟨c, digits, rfl, notZero⟩
  · have plain : (rest.head?.map Char.isDigit).getD false = false := by
      cases rest with
      | nil => rfl
      | cons c rest => simpa [endsDigits] using ends
    simp only [List.singleton_append, readMagnitude, plain, Bool.false_eq_true, if_false]
    rfl
  · have digit : c.isDigit = true := leading.digit c (by simp)
    have split := takeWhile_digits leading.digit ends
    have absorbed := Decimal.absorb_eq leading.fits
    simp only [List.cons_append] at split ⊢
    unfold readMagnitude
    split
    · contradiction
    · exact absurd (List.cons.inj ‹_›).1 notZero
    · rename_i same
      obtain ⟨rfl, rfl⟩ := List.cons.inj same
      simp only [digit, if_true, split, absorbed]

theorem readFraction_ends (negative : Bool) (significand : Nat) (ends : endsNumber rest = true) :
    readFraction negative significand 0 rest = .ok (wholeNumber negative significand, rest) := by
  cases rest with
  | nil => rfl
  | cons c rest =>
    simp only [endsNumber, Bool.and_eq_true, decide_eq_true_eq] at ends
    unfold readFraction
    split
    · exact absurd (List.cons.inj ‹_›).1 ends.1.1.2
    · simp [ends.1.2, ends.2]

/-- What is read behind the digits of a number whose point is `places` digits from their end. -/
def readPlaced (negative : Bool) (significand places : Nat) : Reader Number
  | [] => readScaled negative significand (-places) []
  | c :: rest =>
    if c = 'e' || c = 'E' then readExponent negative significand (-places) rest
    else readScaled negative significand (-places) (c :: rest)

theorem readFraction_point {significand : Nat} (digit : ∀ c ∈ fraction, c.isDigit = true)
    (nonempty : fraction ≠ []) (fits : Nat.ofDigitChars 10 fraction significand < 18446744073709551616)
    (ends : endsDigits rest = true) :
    readFraction negative significand 0 ('.' :: (fraction ++ rest)) =
      readPlaced negative (Nat.ofDigitChars 10 fraction significand) fraction.length rest := by
  obtain ⟨taken, dropped⟩ := takeWhile_digits digit ends
  have full : fraction.isEmpty = false := by simpa using nonempty
  have exponent : ((0 : Nat) : Int) - ((fraction.length - 0 : Nat) : Int) = -(fraction.length : Int) := by
    omega
  simp only [readFraction, taken, dropped, full, Bool.false_eq_true, if_false,
    Decimal.absorb_eq fits, exponent]
  cases rest <;> rfl

private theorem readFraction_mark (negative : Bool) (significand : Nat) (rest : List Char) :
    readFraction negative significand 0 ('e' :: rest) = readExponent negative significand 0 rest := rfl

private theorem readExponentDigits_digits {digits : List Char} (digit : ∀ c ∈ digits, c.isDigit = true)
    (ends : endsDigits rest = true) {value : Nat} (fits : Nat.ofDigitChars 10 digits value < 2147483648) :
    readExponentDigits value (digits ++ rest) = (some (Nat.ofDigitChars 10 digits value), rest) := by
  induction digits generalizing value with
  | nil =>
    cases rest with
    | nil => rfl
    | cons c rest =>
      have stop : c.isDigit = false := by simpa [endsDigits] using ends
      simp [readExponentDigits, stop]
  | cons c digits step =>
    rw [Nat.ofDigitChars_cons] at fits ⊢
    have here : c.isDigit = true := digit c (by simp)
    have next := Decimal.le_ofDigitChars digits (10 * value + (c.toNat - '0'.toNat))
    rw [List.cons_append, readExponentDigits, if_pos here]
    simp only
    rw [if_pos (by omega)]
    exact step (fun d inside => digit d (by simp [inside])) fits

theorem readExponent_text {significand : Nat} (shift exponent : Int)
    (small : exponent.natAbs < 2147483648) (ends : endsDigits rest = true) :
    readExponent negative significand shift (Decimal.Layout.exponentText exponent ++ rest) =
      readScaled negative significand (shift + exponent) rest := by
  obtain ⟨c, digits, shape, digit⟩ := Decimal.toDigits_cons exponent.natAbs
  have value := Nat.ofDigitChars_ten_toDigits (n := exponent.natAbs)
  have read := readExponentDigits_digits (fun _ => Decimal.isDigit_of_mem_toDigits) ends
    (Nat.lt_of_le_of_lt (Nat.le_of_eq value) small)
  rw [value] at read
  rw [Decimal.Layout.exponentText, List.cons_append]
  rw [shape, List.cons_append] at read ⊢
  by_cases below : exponent < 0
  · have same : shift - (exponent.natAbs : Int) = shift + exponent := by omega
    simp only [below, if_true, readExponent, digit, read, same]
  · have same : shift + (exponent.natAbs : Int) = shift + exponent := by omega
    simp only [below, if_false, readExponent, digit, if_true, read, Bool.false_eq_true, same]

def isNumeric (c : Char) : Bool := c.isDigit || c = '-' || c = '+' || c = '.' || c = 'e'

structure Numeral (negative : Bool) (text : List Char) : Prop where
  front : ∃ c tail, text = c :: tail ∧ c.isDigit = true
  plain : ∀ c ∈ text, isNumeric c = true
  read : ∃ number, ∀ rest, endsNumber rest = true →
    readMagnitude negative (text ++ rest) = .ok (number, rest)

theorem isNumeric_of_isDigit {c : Char} (digit : c.isDigit = true) : isNumeric c = true := by
  simp [isNumeric, digit]

theorem Leading.front (leading : Leading whole) (more : List Char) :
    ∃ c tail, whole ++ more = c :: tail ∧ c.isDigit = true := by
  rcases leading.shape with rfl | ⟨c, digits, rfl, _⟩
  · exact ⟨'0', more, rfl, rfl⟩
  · exact ⟨c, digits ++ more, rfl, leading.digit c (by simp)⟩

theorem readScaled_of_ne_none {significand : Nat} {exponent : Int} (negative : Bool)
    (found : Decimal.approximate? significand exponent ≠ none) :
    ∃ number, ∀ rest, readScaled negative significand exponent rest = .ok (number, rest) := by
  obtain ⟨x, same⟩ := Option.ne_none_iff_exists'.mp found
  refine ⟨real negative x, fun rest => ?_⟩
  simp only [readScaled, same]

theorem approximate?_of_neg (significand : Nat) {exponent : Int} (negative : exponent < 0) :
    Decimal.approximate? significand exponent ≠ none := by
  rw [Decimal.approximate?, if_pos negative]
  nofun

private theorem approximate?_of_fits {significand exponent : Nat} (small : exponent ≤ 308)
    (fits : Decimal.overflows significand exponent = false) :
    Decimal.approximate? significand exponent ≠ none := by
  have least : ¬308 < (exponent : Int) := by omega
  rw [Decimal.approximate?, if_neg (by omega)]
  split
  · nofun
  · simp [least, fits]

private theorem isNumeric_exponentText (exponent : Int) :
    ∀ c ∈ Decimal.Layout.exponentText exponent, isNumeric c = true := by
  intro c inside
  rw [Decimal.Layout.exponentText, List.mem_cons] at inside
  rcases inside with rfl | digit
  · split <;> rfl
  · exact isNumeric_of_isDigit (Decimal.isDigit_of_mem_toDigits digit)

theorem numeral_leading (negative : Bool) (leading : Leading whole) : Numeral negative whole := by
  refine ⟨by simpa using leading.front [], fun c inside => isNumeric_of_isDigit (leading.digit c inside),
    wholeNumber negative (Nat.ofDigitChars 10 whole 0), fun rest ends => ?_⟩
  rw [readMagnitude_leading leading (endsDigits_of_endsNumber ends), readFraction_ends _ _ ends]

theorem numeral_point (negative : Bool) (leading : Leading whole)
    (digit : ∀ c ∈ fraction, c.isDigit = true) (nonempty : fraction ≠ [])
    (fits : Nat.ofDigitChars 10 (whole ++ fraction) 0 < 18446744073709551616) :
    Numeral negative (whole ++ '.' :: fraction) := by
  have places : -(fraction.length : Int) < 0 := by
    have length := List.length_pos_iff.mpr nonempty
    omega
  rw [Nat.ofDigitChars_append] at fits
  obtain ⟨number, read⟩ := readScaled_of_ne_none negative
    (approximate?_of_neg (Nat.ofDigitChars 10 fraction (Nat.ofDigitChars 10 whole 0)) places)
  refine ⟨leading.front _, ?_, number, fun rest ends => ?_⟩
  · intro c inside
    rcases List.mem_append.mp inside with front | back
    · exact isNumeric_of_isDigit (leading.digit c front)
    · rcases List.mem_cons.mp back with rfl | behind
      · rfl
      · exact isNumeric_of_isDigit (digit c behind)
  · rw [List.append_assoc, List.cons_append, readMagnitude_leading leading rfl,
      readFraction_point digit nonempty fits (endsDigits_of_endsNumber ends), ← read]
    cases rest with
    | nil => rfl
    | cons c rest =>
      simp only [endsNumber, Bool.and_eq_true, decide_eq_true_eq] at ends
      simp [readPlaced, ends.1.2, ends.2]

/-- Digits with a point behind the first ones, and an exponent. -/
theorem numeral_exponent (negative : Bool) (leading : Leading whole)
    (digit : ∀ c ∈ fraction, c.isDigit = true)
    (fits : Nat.ofDigitChars 10 (whole ++ fraction) 0 < 18446744073709551616) (exponent : Int)
    (small : exponent.natAbs < 2147483648)
    (found : Decimal.approximate? (Nat.ofDigitChars 10 (whole ++ fraction) 0)
      (-fraction.length + exponent) ≠ none) :
    Numeral negative (whole ++ ((if fraction = [] then [] else '.' :: fraction) ++
      'e' :: Decimal.Layout.exponentText exponent)) := by
  have written := isNumeric_exponentText exponent
  obtain ⟨number, read⟩ := readScaled_of_ne_none negative found
  rw [Nat.ofDigitChars_append] at fits read
  refine ⟨leading.front _, ?_, number, fun rest ends => ?_⟩
  · intro c inside
    simp only [List.mem_append, List.mem_cons] at inside
    rcases inside with front | point | rfl | power
    · exact isNumeric_of_isDigit (leading.digit c front)
    · split at point
      · cases point
      · rcases List.mem_cons.mp point with rfl | behind
        · rfl
        · exact isNumeric_of_isDigit (digit c behind)
    · rfl
    · exact written c power
  · have stop := endsDigits_of_endsNumber ends
    rw [List.append_assoc]
    by_cases none : fraction = []
    · subst none
      rw [if_pos rfl, List.nil_append, List.cons_append, readMagnitude_leading leading rfl,
        readFraction_mark, readExponent_text _ _ small stop, ← read]
      rfl
    · rw [if_neg none, List.cons_append, List.cons_append, readMagnitude_leading leading rfl,
        List.append_assoc, readFraction_point digit none fits rfl, ← read]
      exact readExponent_text _ _ small stop

theorem leading_of_fits (digit : ∀ c ∈ whole, c.isDigit = true)
    (shape : whole = ['0'] ∨ ∃ c rest, whole = c :: rest ∧ c ≠ '0')
    (fits : Nat.ofDigitChars 10 (whole ++ fraction) 0 < 18446744073709551616) : Leading whole := by
  rw [Nat.ofDigitChars_append] at fits
  exact ⟨digit, shape, Nat.lt_of_le_of_lt (Decimal.le_ofDigitChars fraction _) fits⟩

section Layouts

open Decimal (zeros)

variable {x : Decimal.Digits}

theorem isDigit_of_mem_zeros {c : Char} {count : Int} (inside : c ∈ zeros count) : c.isDigit = true := by
  obtain rfl := List.eq_of_mem_replicate inside
  rfl

theorem ofDigitChars_lt_of_legible (legible : x.Legible) :
    Nat.ofDigitChars 10 x.digits 0 < 18446744073709551616 :=
  Nat.lt_of_le_of_lt legible.few (by decide)

/-- The digits stand behind the point. -/
theorem numeral_below (negative : Bool) (legible : x.Legible) :
    Numeral negative (['0', '.'] ++ zeros (-x.point) ++ x.digits) := by
  obtain ⟨c, rest, shape, _⟩ := legible.leads
  have digit : ∀ c ∈ zeros (-x.point) ++ x.digits, c.isDigit = true := by
    intro c inside
    exact (List.mem_append.mp inside).elim isDigit_of_mem_zeros (legible.digit c)
  have padded : Nat.ofDigitChars 10 (['0'] ++ (zeros (-x.point) ++ x.digits)) 0 <
      18446744073709551616 := by
    have zero : Nat.ofDigitChars 10 ['0'] 0 = 0 := rfl
    rw [Nat.ofDigitChars_append, Nat.ofDigitChars_append, zero, zeros,
      Nat.ofDigitChars_replicate_zero, Nat.mul_zero]
    exact ofDigitChars_lt_of_legible legible
  rw [List.append_assoc]
  exact numeral_point negative (leading_toDigits (n := 0) (by decide)) digit (by simp [shape]) padded

/-- A whole number, marked by a zero behind the point. -/
theorem numeral_whole (negative : Bool) (legible : x.Legible) (behind : (x.digits.length : Int) ≤ x.point)
    (near : x.point ≤ 16) :
    Numeral negative (x.digits ++ zeros (x.point - x.digits.length) ++ '.' :: ['0']) := by
  obtain ⟨c, rest, shape, notZero⟩ := legible.leads
  have digit : ∀ c ∈ x.digits ++ zeros (x.point - x.digits.length), c.isDigit = true := by
    intro c inside
    exact (List.mem_append.mp inside).elim (legible.digit c) isDigit_of_mem_zeros
  have mark : ∀ c ∈ ['0'], c.isDigit = true := by simp
  have length : (x.digits ++ zeros (x.point - x.digits.length) ++ ['0']).length ≤ 17 := by
    simp only [List.length_append, zeros, List.length_replicate, List.length_singleton]
    omega
  have padded : Nat.ofDigitChars 10 (x.digits ++ zeros (x.point - x.digits.length) ++ ['0']) 0 <
      18446744073709551616 := by
    have bound := Decimal.ofDigitChars_lt (List.forall_mem_append.mpr ⟨digit, mark⟩) 0
    have power := Nat.pow_le_pow_right (n := 10) (by decide) length
    omega
  have leads : ∃ c digits, x.digits ++ zeros (x.point - x.digits.length) = c :: digits ∧ c ≠ '0' :=
    ⟨c, rest ++ zeros (x.point - x.digits.length), by simp [shape], notZero⟩
  exact numeral_point negative (leading_of_fits digit (.inr leads) padded) mark (List.cons_ne_nil _ _) padded

/-- The point stands between the digits. -/
theorem numeral_within (negative : Bool) (legible : x.Legible) (above : 0 < x.point)
    (within : x.point < x.digits.length) :
    Numeral negative (x.digits.take x.point.toNat ++ ['.'] ++ x.digits.drop x.point.toNat) := by
  obtain ⟨c, rest, shape, notZero⟩ := legible.leads
  have fits := ofDigitChars_lt_of_legible legible
  have split : x.digits.take x.point.toNat ++ x.digits.drop x.point.toNat = x.digits :=
    List.take_append_drop ..
  have leads : ∃ c rest, x.digits.take x.point.toNat = c :: rest ∧ c ≠ '0' := by
    obtain ⟨place, same⟩ := Nat.exists_eq_succ_of_ne_zero (show x.point.toNat ≠ 0 by omega)
    exact ⟨c, rest.take place, by rw [same, shape, List.take_succ_cons], notZero⟩
  rw [← split] at fits
  have leading : Leading (x.digits.take x.point.toNat) :=
    leading_of_fits (fun c inside => legible.digit c (List.mem_of_mem_take inside)) (.inr leads) fits
  have behind : x.digits.drop x.point.toNat ≠ [] := by
    rw [Ne, List.drop_eq_nil_iff]
    omega
  rw [List.append_assoc]
  exact numeral_point negative leading (fun c inside => legible.digit c (List.mem_of_mem_drop inside))
    behind fits

private theorem numeral_positionalText (negative : Bool) (legible : x.Legible) (near : x.point ≤ 16) :
    Numeral negative (Decimal.Layout.jsonText.positionalText x) := by
  unfold Decimal.Layout.positionalText
  split
  · exact numeral_below negative legible
  split
  · rename_i behind
    exact numeral_whole negative legible behind near
  · apply numeral_within negative legible <;> omega

private theorem numeral_scientificText (negative : Bool) (legible : x.Legible) :
    Numeral negative (Decimal.Layout.scientificText x) := by
  have least := legible.least
  have most := legible.most
  obtain ⟨c, rest, shape, notZero⟩ := legible.leads
  have value : x.value = Nat.ofDigitChars 10 ([c] ++ rest) 0 := by rw [Decimal.Digits.value, shape]; rfl
  have digit : ∀ d ∈ c :: rest, d.isDigit = true := by
    rw [← shape]
    exact legible.digit
  have fits : Nat.ofDigitChars 10 ([c] ++ rest) 0 < 18446744073709551616 := by
    rw [← value]
    exact ofDigitChars_lt_of_legible legible
  -- With the point behind the first digit, the exponent is one less than the place of the point.
  have found : Decimal.approximate? (Nat.ofDigitChars 10 ([c] ++ rest) 0)
      (-rest.length + (x.point - 1)) ≠ none := by
    rw [← value]
    have length : x.digits.length = rest.length + 1 := by rw [shape, List.length_cons]
    rcases Int.lt_or_le x.point x.digits.length with below | above
    · apply approximate?_of_neg
      omega
    · obtain ⟨exponent, same⟩ := Int.le.dest above
      obtain ⟨small, within⟩ := legible.fits exponent same.symm
      have power : -(rest.length : Int) + (x.point - 1) = exponent := by omega
      rw [power]
      exact approximate?_of_fits small within
  have leading : Leading [c] :=
    leading_of_fits (fun d inside => digit d (by simp_all)) (.inr ⟨c, [], rfl, notZero⟩) fits
  have numeral := numeral_exponent negative leading (fun d inside => digit d (by simp [inside])) fits
    (x.point - 1) (by omega) found
  have written : Decimal.Layout.scientificText x = [c] ++
      ((if rest = [] then [] else '.' :: rest) ++ 'e' :: Decimal.Layout.exponentText (x.point - 1)) := by
    rw [Decimal.Layout.scientificText, shape]
    cases rest <;> simp
  rw [written]
  exact numeral

end Layouts

private theorem numeral_magnitudeText (negative : Bool) {bits : Nat} (nonzero : bits % 2 ^ 63 ≠ 0)
    (finite : Decimal.Binary.exponentPart bits ≠ 2047) :
    Numeral negative (Decimal.Layout.jsonText.magnitudeText bits) := by
  have legible := Decimal.legible_shortest (Decimal.Binary.positive_ofBits nonzero finite)
  have tie : Decimal.Layout.jsonText.tie = .toEven := rfl
  have positional : ∀ exponent, Decimal.Layout.jsonText.positional exponent =
    (decide (-5 ≤ exponent) && decide (exponent ≤ 15)) := fun _ => rfl
  unfold Decimal.Layout.magnitudeText
  simp only [tie, positional]
  split
  · rename_i near
    simp only [Bool.and_eq_true, decide_eq_true_eq] at near
    exact numeral_positionalText negative legible (by omega)
  · exact numeral_scientificText negative legible

def signText (negative : Bool) : List Char := if negative then ['-'] else []

/-- A double that is not finite is written as null, and every other number as a numeral, perhaps
behind a sign. -/
theorem text_cases (number : Number) : number.text = ['n', 'u', 'l', 'l'] ∨
    ∃ negative magnitude, Numeral negative magnitude ∧ number.text = signText negative ++ magnitude := by
  cases number with
  | int value fits =>
    cases value with
    | ofNat n => exact .inr ⟨false, _, numeral_leading false (leading_toDigits (Int.ofNat_lt.mp fits.2)), rfl⟩
    | negSucc n =>
      have small : n + 1 < 18446744073709551616 := by omega
      exact .inr ⟨true, _, numeral_leading true (leading_toDigits small), rfl⟩
  | real value =>
    rw [Number.text]
    split
    · exact .inl rfl
    · rename_i finite
      refine .inr ?_
      have sign : ∀ bits, (if bits / Decimal.Layout.signBit = 1 then ['-'] else []) =
        signText (bits / Decimal.Layout.signBit = 1) := by simp [signText]
      unfold Decimal.Layout.text
      simp only [sign, finite, if_false]
      split
      · refine ⟨_, ['0', '.', '0'], ?_, by rw [List.append_assoc]; rfl⟩
        exact numeral_point _ (leading_toDigits (n := 0) (by decide)) (List.all_eq_true.mp rfl)
          (List.cons_ne_nil _ _) (by decide)
      · rename_i nonzero
        exact ⟨_, _, numeral_magnitudeText _ nonzero finite, rfl⟩

theorem skipSpace_cons {c : Char} (plain : isSpace c = false) (rest : List Char) :
    skipSpace (c :: rest) = c :: rest := by
  rw [skipSpace, List.dropWhile_cons_of_neg (by simp [plain])]

private theorem isSpace_of_isDigit {c : Char} (digit : c.isDigit = true) : isSpace c = false := by
  unfold isSpace
  simp only [Bool.or_eq_false_iff, decide_eq_false_iff_not]
  refine ⟨⟨⟨?_, ?_⟩, ?_⟩, ?_⟩ <;> (rintro rfl; cases digit)

theorem readValueWith_digit (list object : Reader Json) {c : Char} (digit : c.isDigit = true)
    (rest : List Char) :
    readValueWith list object (c :: rest) =
      (readMagnitude false (c :: rest)).map fun (value, rest) => (.num value, rest) := by
  unfold readValueWith
  rw [skipSpace_cons (isSpace_of_isDigit digit)]
  split
  case h_1 => contradiction
  all_goals
    rename_i same
    obtain ⟨rfl, rfl⟩ := List.cons.inj same
  case h_9 =>
    rw [if_pos digit]
  all_goals cases digit

private theorem wholeNumber_ofNat {n : Nat}
    (fits : -9223372036854775808 ≤ (n : Int) ∧ (n : Int) < 18446744073709551616) :
    wholeNumber false n = .int n fits := by
  have kept : Number.ofInt? n = some (.int n fits) := dif_pos fits
  unfold wholeNumber
  rw [Bool.false_and, if_neg (by simp)]
  simp only [Bool.false_eq_true, if_false, kept]

private theorem wholeNumber_negSucc {n : Nat}
    (fits : -9223372036854775808 ≤ Int.negSucc n ∧ Int.negSucc n < 18446744073709551616) :
    wholeNumber true (n + 1) = .int (.negSucc n) fits := by
  have kept : Number.ofInt? (-((n + 1 : Nat) : Int)) = some (.int (.negSucc n) fits) := dif_pos fits
  unfold wholeNumber
  rw [if_neg (by simp)]
  simp only [if_true, kept]

theorem readMagnitude_toDigits (negative : Bool) {n : Nat} (fits : n < 18446744073709551616)
    (ends : endsNumber rest = true) :
    readMagnitude negative (Nat.toDigits 10 n ++ rest) = .ok (wholeNumber negative n, rest) := by
  rw [readMagnitude_leading (leading_toDigits fits) (endsDigits_of_endsNumber ends),
    readFraction_ends _ _ ends, Nat.ofDigitChars_ten_toDigits]

theorem readValueWith_numeral {magnitude : List Char} (numeral : Numeral negative magnitude)
    (list object : Reader Json) (rest : List Char) :
    readValueWith list object (signText negative ++ (magnitude ++ rest)) =
      (readMagnitude negative (magnitude ++ rest)).map fun (value, rest) => (.num value, rest) := by
  cases negative with
  | false =>
    obtain ⟨c, tail, rfl, digit⟩ := numeral.front
    exact readValueWith_digit list object digit (tail ++ rest)
  | true =>
    unfold readValueWith
    rw [signText, if_pos rfl, List.singleton_append, skipSpace_cons (by decide)]
    rfl

private theorem readValueWith_intText {value : Int}
    (fits : -9223372036854775808 ≤ value ∧ value < 18446744073709551616) (list object : Reader Json)
    (ends : endsNumber rest = true) :
    readValueWith list object (Number.intText value ++ rest) = .ok (.num (.int value fits), rest) := by
  cases value with
  | ofNat n =>
    have small : n < 18446744073709551616 := Int.ofNat_lt.mp fits.2
    have read := readValueWith_numeral (numeral_leading false (leading_toDigits small)) list object rest
    rw [readMagnitude_toDigits false small ends, wholeNumber_ofNat fits] at read
    exact read
  | negSucc n =>
    have small : n + 1 < 18446744073709551616 := by omega
    have read := readValueWith_numeral (numeral_leading true (leading_toDigits small)) list object rest
    rw [readMagnitude_toDigits true small ends, wholeNumber_negSucc fits] at read
    exact read

private theorem exists_readValueWith_text (number : Number) : ∃ value, ∀ list object rest,
    endsNumber rest = true → readValueWith list object (number.text ++ rest) = .ok (value, rest) := by
  rcases text_cases number with null | ⟨negative, magnitude, numeral, same⟩
  · rw [null]
    exact ⟨.null, fun _ _ _ _ => rfl⟩
  · obtain ⟨value, read⟩ := numeral.read
    refine ⟨.num value, fun list object rest ends => ?_⟩
    rw [same, List.append_assoc, readValueWith_numeral numeral, read rest ends]
    rfl

end UiPlan.Json

namespace UiPlan.Number

def settled : Number → Json
  | .int value fits => .num (.int value fits)
  | .real value => (Json.parse (Number.real value).text).toOption.getD .null

end UiPlan.Number

namespace UiPlan.Json

/-- A number is read from its own text, up to what cannot go on with it. -/
theorem readValueWith_number (number : Number) (list object : Reader Json) {rest : List Char}
    (ends : endsNumber rest = true) :
    readValueWith list object (number.text ++ rest) = .ok (number.settled, rest) := by
  cases number with
  | int value fits => exact readValueWith_intText fits list object ends
  | real value =>
    obtain ⟨json, read⟩ := exists_readValueWith_text (.real value)
    have parsed : parse (Number.real value).text = .ok json := by
      have whole : readValue .object depthLimit ((Number.real value).text ++ []) = .ok (json, []) :=
        read _ _ [] rfl
      rw [List.append_nil] at whole
      simp only [parse, readWhole, whole]
      rfl
    rw [read list object rest ends, Number.settled, parsed]
    rfl

end UiPlan.Json
