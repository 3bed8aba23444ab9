import UiPlan.Proofs.Json.Spelling
import UiPlan.Proofs.Json.Values

/-! What readers take off the front of a text. A reader of values takes at least one character,
and the last one it takes can end a value: a digit, a quote, a closing bracket or brace, or the
last letter of a word. This bounds the loops over items and members, and it says how a text
ends that holds a value and nothing else.
-/
namespace UiPlan.Json

def closesValue (c : Char) : Bool :=
  c.isDigit || c = '"' || c = ']' || c = '}' || c = 'e' || c = 'l'

/-- What is left of the text starts right behind a character that can end a value. -/
def Behind (cs rest : List Char) : Prop := ∃ c, closesValue c = true ∧ c :: rest <:+ cs

def Takes {α : Type} (reader : Reader α) : Prop :=
  ∀ cs value rest, reader cs = .ok (value, rest) → Behind cs rest

theorem Behind.length_lt {cs rest : List Char} (behind : Behind cs rest) : rest.length < cs.length := by
  obtain ⟨_, _, inside⟩ := behind
  exact inside.length_le

theorem Behind.suffix {cs rest : List Char} (behind : Behind cs rest) : rest <:+ cs := by
  obtain ⟨c, _, inside⟩ := behind
  exact (List.suffix_cons c rest).trans inside

theorem Behind.mono {cs more rest : List Char} (behind : Behind cs rest) (inside : cs <:+ more) :
    Behind more rest := by
  obtain ⟨c, closes, within⟩ := behind
  exact ⟨c, closes, within.trans inside⟩

theorem behind_cons {c : Char} (closes : closesValue c = true) (rest : List Char) :
    Behind (c :: rest) rest := ⟨c, closes, List.suffix_rfl⟩

theorem skipSpace_suffix (cs : List Char) : skipSpace cs <:+ cs := List.dropWhile_suffix _

theorem readWord_iff {word cs rest : List Char} :
    readWord word cs = .ok rest ↔ cs = word ++ rest := by
  induction word generalizing cs with
  | nil => simp [readWord]
  | cons w word step =>
    cases cs with
    | nil => simp [readWord]
    | cons c cs => by_cases same : c = w <;> simp [readWord, same, step]

theorem takes_readString : Takes readString := by
  intro cs value rest ok
  obtain ⟨text, _, _, rfl, _⟩ := readString_iff.mp ok
  exact ⟨'"', rfl, List.suffix_append text _⟩

def BehindDigit (cs rest : List Char) : Prop := ∃ c, c.isDigit = true ∧ c :: rest <:+ cs

def PastDigits (cs rest : List Char) : Prop := rest = cs ∨ BehindDigit cs rest

theorem BehindDigit.mono {cs more rest : List Char} (behind : BehindDigit cs rest)
    (inside : cs <:+ more) : BehindDigit more rest := by
  obtain ⟨c, digit, within⟩ := behind
  exact ⟨c, digit, within.trans inside⟩

theorem BehindDigit.behind {cs rest : List Char} (behind : BehindDigit cs rest) : Behind cs rest := by
  obtain ⟨c, digit, within⟩ := behind
  exact ⟨c, by simp [closesValue, digit], within⟩

theorem BehindDigit.trans {cs mid rest : List Char} (first : BehindDigit cs mid)
    (past : PastDigits mid rest) : BehindDigit cs rest := by
  rcases past with rfl | behind
  · exact first
  · obtain ⟨c, _, within⟩ := first
    exact behind.mono ((List.suffix_cons c mid).trans within)

theorem PastDigits.behind_cons {c : Char} {cs rest : List Char} (digit : c.isDigit = true)
    (past : PastDigits cs rest) : BehindDigit (c :: cs) rest :=
  BehindDigit.trans ⟨c, digit, List.suffix_rfl⟩ past

theorem pastDigits_dropWhile (cs : List Char) : PastDigits cs (cs.dropWhile Char.isDigit) := by
  induction cs with
  | nil => exact .inl rfl
  | cons c cs step =>
    by_cases digit : c.isDigit = true
    · rw [List.dropWhile_cons_of_pos digit]
      exact .inr (step.behind_cons digit)
    · rw [List.dropWhile_cons_of_neg digit]
      exact .inl rfl

private theorem behindDigit_dropWhile {cs : List Char} (nonempty : cs.takeWhile Char.isDigit ≠ []) :
    BehindDigit cs (cs.dropWhile Char.isDigit) := by
  cases cs with
  | nil => exact absurd rfl nonempty
  | cons c cs =>
    by_cases digit : c.isDigit = true
    · rw [List.dropWhile_cons_of_pos digit]
      exact (pastDigits_dropWhile cs).behind_cons digit
    · exact absurd (List.takeWhile_cons_of_neg digit) nonempty

private theorem pastDigits_readExponentDigits (value : Nat) (cs : List Char) :
    PastDigits cs (readExponentDigits value cs).2 := by
  induction cs generalizing value with
  | nil => exact .inl rfl
  | cons c cs step =>
    unfold readExponentDigits
    split
    · rename_i digit
      simp only
      split
      · exact .inr ((step _).behind_cons digit)
      · exact .inr ⟨c, digit, List.suffix_rfl⟩
    · exact .inl rfl

def Passes {α : Type} (reader : Reader α) : Prop :=
  ∀ cs value rest, reader cs = .ok (value, rest) → rest = cs ∧ ∀ other, reader other = .ok (value, other)

theorem passes_readScaled (negative : Bool) (significand : Nat) (exponent : Int) :
    Passes (readScaled negative significand exponent) := by
  intro cs number rest ok
  unfold readScaled at ok ⊢
  cases found : Decimal.approximate? significand exponent with
  | none =>
    rw [found] at ok
    cases ok
  | some x =>
    rw [found] at ok
    cases ok
    exact ⟨rfl, fun other => rfl⟩

def signed : List Char → Bool × List Char
  | '+' :: rest => (false, rest)
  | '-' :: rest => (true, rest)
  | cs => (false, cs)

def readUnsigned (negative : Bool) (significand : Nat) (exponent : Int) (below : Bool) : Reader Number
  | [] => .error ⟨.endInValue, [], 0⟩
  | c :: rest =>
    if c.isDigit then
      match readExponentDigits 0 (c :: rest) with
      | (some value, rest) =>
        readScaled negative significand (if below then exponent - value else exponent + value) rest
      | (none, rest) =>
        if significand ≠ 0 && !below then .error ⟨.numberOutOfRange, rest, 0⟩
        else .ok (real negative 0, rest.dropWhile Char.isDigit)
    else .error ⟨.invalidNumber, c :: rest, 1⟩

theorem readExponent_eq (negative : Bool) (significand : Nat) (exponent : Int) (cs : List Char) :
    readExponent negative significand exponent cs =
      readUnsigned negative significand exponent (signed cs).1 (signed cs).2 := by
  unfold readExponent
  split
  rename_i below tail same
  have parts : signed cs = (below, tail) := same
  rw [parts]
  unfold readUnsigned
  rfl

private theorem signed_suffix (cs : List Char) : (signed cs).2 <:+ cs := by
  unfold signed
  split
  · exact List.suffix_cons _ _
  · exact List.suffix_cons _ _
  · exact List.suffix_rfl

theorem digit_of_readUnsigned {negative below : Bool} {significand : Nat} {exponent : Int}
    {cs rest : List Char} {number : Number}
    (ok : readUnsigned negative significand exponent below cs = .ok (number, rest)) :
    ∃ c tail, cs = c :: tail ∧ c.isDigit = true := by
  cases cs with
  | nil => cases ok
  | cons c tail =>
    refine ⟨c, tail, rfl, ?_⟩
    by_cases digit : c.isDigit = true
    · exact digit
    · simp [readUnsigned, digit] at ok

private theorem behindDigit_readUnsigned {negative below : Bool} {significand : Nat} {exponent : Int}
    {cs rest : List Char} {number : Number}
    (ok : readUnsigned negative significand exponent below cs = .ok (number, rest)) :
    BehindDigit cs rest := by
  obtain ⟨c, tail, rfl, digit⟩ := digit_of_readUnsigned ok
  have taken : BehindDigit (c :: tail) (readExponentDigits 0 (c :: tail)).2 := by
    unfold readExponentDigits
    simp only [digit, if_true]
    split
    · exact (pastDigits_readExponentDigits _ tail).behind_cons digit
    · exact ⟨c, digit, List.suffix_rfl⟩
  simp only [readUnsigned, digit, if_true] at ok
  split at ok
  · rename_i found
    rw [found] at taken
    rwa [(passes_readScaled _ _ _ _ _ _ ok).1]
  · rename_i found
    rw [found] at taken
    split at ok
    · cases ok
    · cases ok
      exact taken.trans (pastDigits_dropWhile _)

private theorem behindDigit_readExponent {negative : Bool} {significand : Nat} {exponent : Int}
    {cs rest : List Char} {number : Number}
    (ok : readExponent negative significand exponent cs = .ok (number, rest)) : BehindDigit cs rest := by
  rw [readExponent_eq] at ok
  exact (behindDigit_readUnsigned ok).mono (signed_suffix cs)

def readMarked (negative : Bool) (significand : Nat) (exponent : Int) (plain : Reader Number) :
    Reader Number
  | [] => plain []
  | c :: rest =>
    if c = 'e' || c = 'E' then readExponent negative significand exponent rest else plain (c :: rest)

def readInteger (negative : Bool) (significand dropped : Nat) : Reader Number := fun cs =>
  if dropped = 0 then .ok (wholeNumber negative significand, cs)
  else readScaled negative significand dropped cs

def exponentBehind (significand dropped : Nat) (digits : List Char) : Int :=
  dropped - (digits.length - (Decimal.absorb significand digits).2 : Nat)

theorem passes_readInteger (negative : Bool) (significand dropped : Nat) :
    Passes (readInteger negative significand dropped) := by
  unfold readInteger
  split
  · intro cs number rest ok
    cases ok
    exact ⟨rfl, fun other => rfl⟩
  · exact passes_readScaled negative significand dropped

section Numbers

variable {negative : Bool} {significand dropped : Nat} {cs rest : List Char} {number : Number}

theorem readFraction_point_iff :
    readFraction negative significand dropped ('.' :: cs) = .ok (number, rest) ↔
      cs.takeWhile Char.isDigit ≠ [] ∧
        readMarked negative (Decimal.absorb significand (cs.takeWhile Char.isDigit)).1
          (exponentBehind significand dropped (cs.takeWhile Char.isDigit))
          (readScaled negative (Decimal.absorb significand (cs.takeWhile Char.isDigit)).1
            (exponentBehind significand dropped (cs.takeWhile Char.isDigit)))
          (cs.dropWhile Char.isDigit) = .ok (number, rest) := by
  simp only [readFraction]
  by_cases none : cs.takeWhile Char.isDigit = []
  · simp [none]
  · cases after : cs.dropWhile Char.isDigit <;> simp [none, readMarked, exponentBehind]

theorem readFraction_other (other : cs.head? ≠ some '.') :
    readFraction negative significand dropped cs =
      readMarked negative significand dropped (readInteger negative significand dropped) cs := by
  unfold readFraction
  split
  · exact absurd rfl other
  · cases cs <;> rfl

private theorem pastDigits_readMarked {exponent : Int} {plain : Reader Number} (passes : Passes plain)
    (ok : readMarked negative significand exponent plain cs = .ok (number, rest)) :
    PastDigits cs rest := by
  unfold readMarked at ok
  split at ok
  · exact .inl (passes _ _ _ ok).1
  · rename_i c tail
    split at ok
    · exact .inr ((behindDigit_readExponent ok).mono (List.suffix_cons c tail))
    · exact .inl (passes _ _ _ ok).1

private theorem pastDigits_readFraction
    (ok : readFraction negative significand dropped cs = .ok (number, rest)) : PastDigits cs rest := by
  by_cases point : cs.head? = some '.'
  · obtain ⟨tail, rfl⟩ := List.head?_eq_some_iff.mp point
    obtain ⟨nonempty, marked⟩ := readFraction_point_iff.mp ok
    have behind := pastDigits_readMarked (passes_readScaled _ _ _) marked
    exact .inr (((behindDigit_dropWhile nonempty).trans behind).mono (List.suffix_cons '.' tail))
  · rw [readFraction_other point] at ok
    exact pastDigits_readMarked (passes_readInteger _ _ _) ok

end Numbers

private theorem behindDigit_readMagnitude {negative : Bool} {cs rest : List Char} {number : Number}
    (ok : readMagnitude negative cs = .ok (number, rest)) : BehindDigit cs rest := by
  unfold readMagnitude at ok
  split at ok
  · cases ok
  · split at ok
    · cases ok
    · exact (pastDigits_readFraction ok).behind_cons rfl
  · rename_i c tail _
    split at ok
    · rename_i digit
      simp only [List.dropWhile_cons_of_pos digit] at ok
      exact BehindDigit.trans ((pastDigits_dropWhile tail).behind_cons digit) (pastDigits_readFraction ok)
    · cases ok

private theorem takes_readMagnitude (negative : Bool) : Takes (readMagnitude negative) :=
  fun _ _ _ ok => (behindDigit_readMagnitude ok).behind

section Lists

variable {α : Type} {item : Reader α}

theorem suffix_of_skipSpace {c : Char} {cs tail : List Char} (shape : skipSpace cs = c :: tail) :
    tail <:+ cs := by
  have spaced := skipSpace_suffix cs
  rw [shape] at spaced
  exact (List.suffix_cons c tail).trans spaced

theorem behind_of_skipSpace {c : Char} {cs rest : List Char} (shape : skipSpace cs = c :: rest)
    (closes : closesValue c = true) : Behind cs rest :=
  ⟨c, closes, shape ▸ skipSpace_suffix cs⟩

private theorem takes_readItemsFrom (each : Takes item) (budget : Nat) (read : List α) :
    Takes (readItemsFrom item budget read) := by
  induction budget generalizing read with
  | zero => exact fun _ _ _ => nofun
  | succ budget step =>
    intro cs items rest ok
    obtain ⟨value, mid, found, next⟩ := readItemsFrom_iff.mp ok
    have outer := (each _ _ _ found).suffix
    rcases next with ⟨shape, _⟩ | ⟨tail, c, next, shape, behind, _, ok⟩
    · exact (behind_of_skipSpace shape rfl).mono outer
    · have inner := behind ▸ (skipSpace_suffix tail).trans (suffix_of_skipSpace shape)
      exact (step _ _ _ _ ok).mono (inner.trans outer)

private theorem takes_readItems (each : Takes item) : Takes (readItems item) := by
  intro cs items rest ok
  rcases readItems_iff.mp ok with ⟨shape, _⟩ | ⟨c, next, shape, _, ok⟩
  · exact behind_of_skipSpace shape rfl
  · exact (takes_readItemsFrom each _ _ _ _ _ ok).mono (shape ▸ skipSpace_suffix cs)

theorem takes_readKeyed (each : Takes item) : Takes (readKeyed item) := by
  intro cs x rest ok
  obtain ⟨tail, shape, ok⟩ := readKeyed_iff.mp ok
  exact (each _ _ _ ok).mono (suffix_of_skipSpace shape)

private theorem takes_readMembersFrom (each : Takes item) (budget : Nat) (read : List (String × α)) :
    Takes (readMembersFrom (fun _ _ => .ok item) budget read) := by
  induction budget generalizing read with
  | zero => exact fun _ _ _ => nofun
  | succ budget step =>
    intro cs members rest ok
    obtain ⟨key, behindKey, x, mid, named, found, next⟩ := readMembersFrom_iff.mp ok
    have outer := (takes_readKeyed each _ _ _ found).suffix.trans (takes_readString _ _ _ named).suffix
    rcases next with ⟨shape, _⟩ | ⟨tail, next, shape, behind, ok⟩
    · exact (behind_of_skipSpace shape rfl).mono outer
    · have inner := (suffix_of_skipSpace behind).trans (suffix_of_skipSpace shape)
      exact (step _ _ _ _ ok).mono (inner.trans outer)

private theorem takes_readMembers (each : Takes item) : Takes (readMembers fun _ _ => .ok item) := by
  intro cs members rest ok
  rcases readMembers_iff.mp ok with ⟨shape, _⟩ | ⟨next, shape, ok⟩
  · exact behind_of_skipSpace shape rfl
  · exact (takes_readMembersFrom each _ _ _ _ _ ok).mono (suffix_of_skipSpace shape)

end Lists

theorem takes_map {α β : Type} {reader : Reader α} (each : Takes reader) (f : α → β) :
    Takes fun cs => (reader cs).map fun (value, rest) => (f value, rest) := by
  intro cs value rest ok
  obtain ⟨read, found, same⟩ := except_map_ok ok
  obtain ⟨_, rfl⟩ := Prod.mk.inj same
  exact each _ _ _ found

theorem behind_of_readWord (word : List Char) {cs rest : List Char} {last : Char}
    (ok : readWord (word ++ [last]) cs = .ok rest) (closes : closesValue last = true) :
    Behind cs rest := by
  rw [readWord_iff.mp ok, List.append_assoc]
  exact (behind_cons closes rest).mono (List.suffix_append word _)

private theorem takes_readValueWith {list object : Reader Json} (lists : Takes list) (objects : Takes object) :
    Takes (readValueWith list object) := by
  intro cs value rest ok
  unfold readValueWith at ok
  split at ok
  case h_1 => cases ok
  case h_2 tail shape =>
    refine Behind.mono ?_ (suffix_of_skipSpace shape)
    obtain ⟨_, found, same⟩ := except_map_ok ok
    obtain ⟨_, rfl⟩ := Prod.mk.inj same
    exact behind_of_readWord ['u', 'l'] found rfl
  case h_3 tail shape =>
    refine Behind.mono ?_ (suffix_of_skipSpace shape)
    obtain ⟨_, found, same⟩ := except_map_ok ok
    obtain ⟨_, rfl⟩ := Prod.mk.inj same
    exact behind_of_readWord ['r', 'u'] found rfl
  case h_4 tail shape =>
    refine Behind.mono ?_ (suffix_of_skipSpace shape)
    obtain ⟨_, found, same⟩ := except_map_ok ok
    obtain ⟨_, rfl⟩ := Prod.mk.inj same
    exact behind_of_readWord ['a', 'l', 's'] found rfl
  case h_5 tail shape =>
    exact (takes_map takes_readString _ _ _ _ ok).mono (suffix_of_skipSpace shape)
  case h_6 tail shape => exact (lists _ _ _ ok).mono (suffix_of_skipSpace shape)
  case h_7 tail shape => exact (objects _ _ _ ok).mono (suffix_of_skipSpace shape)
  case h_8 tail shape =>
    exact (takes_map (takes_readMagnitude true) _ _ _ _ ok).mono (suffix_of_skipSpace shape)
  case h_9 c tail _ _ _ _ _ _ _ shape =>
    split at ok
    · exact (takes_map (takes_readMagnitude false) _ _ _ _ ok).mono (shape ▸ skipSpace_suffix cs)
    · cases ok

/-- A value is taken off the front of the text and ends with a character that can end one. -/
theorem takes_readValue (close : List (String × Json) → Json) (depth : Nat) :
    Takes (readValue close depth) := by
  induction depth with
  | zero =>
    have deep : Takes tooDeep := fun _ _ _ => nofun
    exact takes_readValueWith deep deep
  | succ depth step =>
    exact takes_readValueWith (takes_map (takes_readItems step) _) (takes_map (takes_readMembers step) _)

/-- A text that is accepted ends with the value in it and space behind that. -/
theorem closes_of_parse {source : List Char} {value : Json} (ok : parse source = .ok value) :
    ∃ before c spaces, source = before ++ c :: spaces ∧ closesValue c = true ∧
      ∀ b ∈ spaces, isSpace b = true := by
  obtain ⟨rest, found, ended⟩ := parse_iff.mp ok
  obtain ⟨c, closes, before, same⟩ := takes_readValue _ _ _ _ _ found
  have whole : rest.takeWhile isSpace ++ skipSpace rest = rest := List.takeWhile_append_dropWhile
  rw [ended, List.append_nil] at whole
  exact ⟨before, c, rest, same.symm, closes, List.all_eq_true.mp (whole ▸ List.all_takeWhile)⟩

end UiPlan.Json
