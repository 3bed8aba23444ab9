import UiPlan.Program.Compile
import UiPlan.Program.Reader
import UiPlan.Proofs.Json.ReadBack
import UiPlan.Proofs.Text.Escaping

/-! Written attributes read back in their order, each with its name and with the value that
is read from the text of its own. An attribute that is true is written as its bare name, and then the reader has already
skipped the space behind it; so the lemmas speak of texts that agree once white space is
skipped.
-/
namespace UiPlan.Program

theorem skipTrivia_cons {c : Char} (slash : c ≠ '/') (rest : List Char) :
    skipTrivia (c :: rest) = if Text.isBlank c then skipTrivia rest else .ok (c :: rest) := by
  unfold skipTrivia
  conv => lhs; unfold skipTriviaFrom
  split
  case h_1 same => exact absurd (List.cons.inj same).1 slash
  case h_2 same => exact absurd (List.cons.inj same).1 slash
  case h_3 same =>
    obtain ⟨rfl, rfl⟩ := List.cons.inj same
    rfl
  all_goals contradiction

theorem skipTrivia_blank {c : Char} (blank : Text.isBlank c = true) (rest : List Char) :
    skipTrivia (c :: rest) = skipTrivia rest := by
  have slash : c ≠ '/' := by
    rintro rfl
    cases blank
  rw [skipTrivia_cons slash, if_pos blank]

theorem skipTrivia_solid {c : Char} (solid : (Text.isBlank c || c = '/') = false)
    (rest : List Char) : skipTrivia (c :: rest) = .ok (c :: rest) := by
  simp only [Bool.or_eq_false_iff, decide_eq_false_iff_not] at solid
  rw [skipTrivia_cons solid.2, if_neg (by simp [solid.1])]

theorem skipTrivia_pad (n : Nat) (rest : List Char) :
    skipTrivia (pad n ++ rest) = skipTrivia rest := by
  induction n with
  | zero => rfl
  | succ n step => rw [pad, List.replicate_succ, List.cons_append, skipTrivia_blank (by decide), ← pad, step]

def stopsAt (continues : Char → Bool) : List Char → Bool
  | [] => true
  | c :: _ => !continues c

theorem takeWhile_append_stop {continues : Char → Bool} {cs rest : List Char}
    (all : cs.all continues = true) (stop : stopsAt continues rest = true) :
    (cs ++ rest).takeWhile continues = cs ∧ (cs ++ rest).dropWhile continues = rest := by
  rw [List.takeWhile_append_of_pos (List.all_eq_true.mp all),
    List.dropWhile_append_of_pos (List.all_eq_true.mp all)]
  cases rest with
  | nil => simp
  | cons c rest =>
    have ends : continues c = false := by simpa [stopsAt] using stop
    simp [ends]

theorem readName?_append {continues : Char → Bool} {c : Char} {name rest : List Char}
    (start : isNameStart c = true) (all : name.all continues = true)
    (stop : stopsAt continues rest = true) :
    readName? continues (c :: (name ++ rest)) = some (.ofList (c :: name), rest) := by
  have split := takeWhile_append_stop all stop
  simp only [readName?, start, if_true, split]

private theorem toNat_of_isBlank {c : Char} (blank : Text.isBlank c = true) :
    c.toNat ≤ 32 ∨ 133 ≤ c.toNat := by
  simp only [Text.isBlank, Bool.or_eq_true, Bool.and_eq_true, decide_eq_true_eq, beq_iff_eq] at blank
  omega

private theorem toNat_of_isNameStart {c : Char} (start : isNameStart c = true) :
    c.toNat = 36 ∨ 65 ≤ c.toNat ∧ c.toNat ≤ 122 := by
  have letters : c.isAlpha =
    (decide (c.val ≥ 65 ∧ c.val ≤ 90) || c.val ≥ 97 && c.val ≤ 122) := rfl
  simp only [isNameStart, letters, Bool.or_eq_true, Bool.and_eq_true, decide_eq_true_eq,
    UInt32.le_iff_toNat_le, ge_iff_le] at start
  rcases start with ((⟨low, high⟩ | ⟨low, high⟩) | rfl) | rfl
  · exact .inr ⟨low, Nat.le_trans high (by decide)⟩
  · exact .inr ⟨Nat.le_trans (by decide) low, high⟩
  · exact .inr (by decide)
  · exact .inl rfl

theorem isBlank_of_isNameStart {c : Char} (start : isNameStart c = true) :
    Text.isBlank c = false := by
  cases blank : Text.isBlank c with
  | false => rfl
  | true =>
    have low := toNat_of_isBlank blank
    have high := toNat_of_isNameStart start
    omega

/-- A name does not begin like anything else in a program. -/
theorem ne_of_isNameStart {c mark : Char} (start : isNameStart c = true)
    (other : isNameStart mark = false) : c ≠ mark := by
  rintro rfl
  rw [start] at other
  contradiction

theorem skipTrivia_name {c : Char} (start : isNameStart c = true) (rest : List Char) :
    skipTrivia (c :: rest) = .ok (c :: rest) := by
  have slash : c ≠ '/' := ne_of_isNameStart start rfl
  exact skipTrivia_solid (by simp [isBlank_of_isNameStart start, slash]) rest

theorem keyword?_none {p c : Char} (other : p ≠ c) (word rest : List Char) :
    keyword? (p :: word) (c :: rest) = none := by
  simp [keyword?, Text.after?, other]

private theorem readLiteral_eq {c : Char} (null : 'n' ≠ c) (yes : 't' ≠ c) (no : 'f' ≠ c) (rest : List Char) :
    readLiteral (c :: rest) =
      if c = '-' || c.isDigit then readNumber (c :: rest)
      else if c = '"' || c = '[' || c = '{' then readJson (c :: rest)
      else .error ⟨.unsupportedExpression, c :: rest⟩ := by
  simp only [readLiteral, keyword?_none null, keyword?_none yes, keyword?_none no]

private theorem readJson_text {value : Json} (readable : value.Readable) (more : List Char) :
    readJson (value.text ++ '\x7d' :: more) = .ok (value.settled, '\x7d' :: more) := by
  have read := readable.readsBack ('\x7d' :: more) (by rfl)
  simp only [readJson, read]

private theorem isNumberChar_of_isNumeric {c : Char} (numeric : Json.isNumeric c = true) :
    isNumberChar c = true := by
  simp only [Json.isNumeric, Bool.or_eq_true, decide_eq_true_eq] at numeric
  rcases numeric with (((digit | rfl) | rfl) | rfl) | rfl
  · simp [isNumberChar, digit]
  all_goals rfl

theorem all_isNumberChar_intText (n : Int) : (Number.intText n).all isNumberChar = true := by
  have digits : ∀ n : Nat, (Nat.toDigits 10 n).all isNumberChar = true := by
    intro n
    rw [List.all_eq_true]
    exact fun c inside => isNumberChar_of_isNumeric
      (Json.isNumeric_of_isDigit (Decimal.isDigit_of_mem_toDigits inside))
  cases n with
  | ofNat n => exact digits n
  | negSucc n =>
    rw [Number.intText, List.all_cons, digits]
    rfl

/-- A number in a program stands by itself, without the reader of values around it. -/
theorem readLiteral_number (number : Number) (more : List Char) :
    readLiteral (number.text ++ '\x7d' :: more) = .ok (number.settled, '\x7d' :: more) := by
  have readable : (Json.num number).Readable := ⟨rfl, Nat.zero_le _⟩
  have parsed : Json.parse number.text = .ok number.settled := readable.parse_text
  rcases Json.text_cases number with null | ⟨negative, magnitude, numeral, same⟩
  · rw [null] at parsed ⊢
    have word : Json.parse ['n', 'u', 'l', 'l'] = .ok .null := rfl
    rw [← Except.ok.inj (word.symm.trans parsed)]
    rfl
  · obtain ⟨c, tail, rfl, digit⟩ := numeral.front
    have all : number.text.all isNumberChar = true := by
      rw [same, List.all_append, Bool.and_eq_true]
      constructor
      · cases negative <;> rfl
      · exact List.all_eq_true.mpr fun c inside => isNumberChar_of_isNumeric (numeral.plain c inside)
    have split := takeWhile_append_stop all
      (show stopsAt isNumberChar ('\x7d' :: more) = true from rfl)
    have front : ∃ d rest, number.text = d :: rest ∧ (d = '-' ∨ d.isDigit = true) := by
      rw [same]
      cases negative with
      | false => exact ⟨c, tail, rfl, .inr digit⟩
      | true => exact ⟨'-', c :: tail, rfl, .inl rfl⟩
    obtain ⟨d, rest, shape, begins⟩ := front
    have numeric : (decide (d = '-') || d.isDigit) = true := by simpa using begins
    have other : 'n' ≠ d ∧ 't' ≠ d ∧ 'f' ≠ d := by
      refine ⟨?_, ?_, ?_⟩ <;> (rintro rfl; cases numeric)
    have read : readNumber (number.text ++ '\x7d' :: more) = .ok (number.settled, '\x7d' :: more) := by
      simp only [readNumber, split, parsed]
    rw [shape, List.cons_append] at read ⊢
    rw [readLiteral_eq other.1 other.2.1 other.2.2, if_pos numeric, read]

private theorem readLiteral_text {value : Json} (readable : value.Readable) (more : List Char) :
    readLiteral (value.text ++ '\x7d' :: more) = .ok (value.settled, '\x7d' :: more) := by
  have json := readJson_text readable more
  match value with
  | .null => rfl
  | .bool true => rfl
  | .bool false => rfl
  | .num number => exact readLiteral_number number more
  | .str _ => exact json
  | .arr [] => exact json
  | .arr (_ :: _) => exact json
  | .obj [] => exact json
  | .obj ((_, _) :: _) => exact json

theorem skipTrivia_brace (rest : List Char) : skipTrivia ('\x7d' :: rest) = .ok ('\x7d' :: rest) :=
  skipTrivia_solid rfl rest

private theorem skipTrivia_text (value : Json) (rest : List Char) :
    skipTrivia (value.text ++ rest) = .ok (value.text ++ rest) := by
  obtain ⟨c, tail, shape, starts⟩ := Json.text_starts value
  have solid : (Text.isBlank c || c = '/') = false := by
    rw [Bool.or_eq_false_iff, decide_eq_false_iff_not]
    constructor
    · cases blank : Text.isBlank c with
      | false => rfl
      | true =>
        have outside := toNat_of_isBlank blank
        simp only [Json.startsValue, Char.isDigit, Bool.or_eq_true, Bool.and_eq_true,
          decide_eq_true_eq, UInt32.le_iff_toNat_le, ge_iff_le] at starts
        rcases starts with ((((((⟨low, high⟩ | rfl) | rfl) | rfl) | rfl) | rfl) | rfl) | rfl
        · have low : 48 ≤ c.toNat := low
          have high : c.toNat ≤ 57 := high
          omega
        all_goals cases blank
    · rintro rfl
      cases starts
  rw [shape, List.cons_append, skipTrivia_solid solid]

private theorem readBraced_text {value : Json} (readable : value.Readable) (more : List Char) :
    readBraced (value.text ++ '\x7d' :: more) = .ok (value.settled, more) := by
  simp only [readBraced, readLiteral_text readable, skipTrivia_brace]
  rfl

private theorem readQuoted_escape (cs more : List Char) :
    readQuoted '"' (Text.escape cs ++ '"' :: more) = .ok (.str (.ofList cs), more) := by
  have plain : (Text.escape cs).all (· ≠ '"') = true := by
    have inert := Text.all_isInert_escape cs
    simp only [List.all_eq_true] at inert ⊢
    intro c inside
    have same := inert c inside
    simp_all [Text.isInert]
  have split := takeWhile_append_stop plain (show stopsAt _ ('"' :: more) = true from rfl)
  simp only [readQuoted, split, Text.decode_escape]

def FollowsAttribute (cs : List Char) : Prop :=
  stopsAt isAttributeChar cs = true ∧
    ∃ c rest, skipTrivia cs = .ok (c :: rest) ∧ c ≠ '=' ∧ skipTrivia (c :: rest) = .ok (c :: rest)

private theorem readAssigned_text {value : Json} (readable : value.Readable) {more : List Char}
    (follows : FollowsAttribute more) :
    stopsAt isAttributeChar (valueText value ++ more) = true ∧
      ∃ rest, readAssigned (valueText value ++ more) = .ok (value.settled, rest) ∧
        skipTrivia rest = skipTrivia more := by
  have equals : ∀ rest, skipTrivia ('=' :: rest) = .ok ('=' :: rest) :=
    skipTrivia_solid rfl
  have opened : ∀ rest, skipTrivia ('\x7b' :: rest) = .ok ('\x7b' :: rest) :=
    skipTrivia_solid rfl
  have quote : ∀ rest, skipTrivia ('"' :: rest) = .ok ('"' :: rest) :=
    skipTrivia_solid rfl
  have braced : ∀ rest, readAssigned ('=' :: '\x7b' :: (value.text ++ '\x7d' :: rest)) =
      .ok (value.settled, rest) := by
    intro rest
    simp only [readAssigned, equals, opened, readAttributeValue, skipTrivia_text value,
      readBraced_text readable]
  have written : ∀ rest, '=' :: '\x7b' :: (value.text ++ ['\x7d']) ++ rest =
      '=' :: '\x7b' :: (value.text ++ '\x7d' :: rest) := by simp
  unfold valueText
  split
  · rename_i content
    refine ⟨rfl, more, ?_, rfl⟩
    have read := readQuoted_escape content.toList more
    simp only [List.cons_append, List.append_assoc, List.nil_append, readAssigned, equals, quote,
      readAttributeValue, read]
    simp [Json.settled]
  · -- A bare name: the reader skips the white space behind it to look for an equals sign.
    obtain ⟨stop, c, rest, skipped, other, still⟩ := follows
    refine ⟨stop, c :: rest, ?_, ?_⟩
    · simp only [List.nil_append, readAssigned, skipped]
      split
      · contradiction
      · rename_i same
        exact absurd (List.cons.inj (Except.ok.inj same)).1 other
      · rename_i same
        rw [Except.ok.inj same]
        rfl
    · rw [still, skipped]
  · rw [written]
    exact ⟨rfl, more, braced more, rfl⟩

def Writable (entry : String × Json) : Prop :=
  isPropName entry.1.toList = true ∧ entry.2.Readable

private theorem isAttributeChar_of_isPropName {c : Char}
    (plain : (c.isAlphanum || c = '_' || c = '-') = true) : isAttributeChar c = true := by
  simp only [isAttributeChar, isNameChar, Bool.or_eq_true, decide_eq_true_eq] at plain ⊢
  rcases plain with (plain | plain) | plain <;> simp [plain]

theorem Writable.name_parts {entry : String × Json} (writable : Writable entry) :
    ∃ c name, entry.1.toList = c :: name ∧ isNameStart c = true ∧
      name.all isAttributeChar = true := by
  have named := writable.1
  unfold isPropName at named
  split at named
  · cases named
  · rename_i c name shape
    simp only [Bool.and_eq_true, List.all_eq_true] at named
    refine ⟨c, name, shape, by simp [isNameStart, named.1], ?_⟩
    rw [List.all_eq_true]
    exact fun d inside => isAttributeChar_of_isPropName (named.2 d inside)

def tagEndText (closed : Bool) : List Char := if closed then [' ', '/', '>'] else ['>']

private theorem skipTrivia_tagEnd (closed : Bool) (rest : List Char) :
    skipTrivia (tagEndText closed ++ rest) = .ok ((if closed then ['/', '>'] else ['>']) ++ rest) := by
  cases closed <;> rfl

private theorem followsAttribute_rest {attributes : List (String × Json)}
    (writable : ∀ entry ∈ attributes, Writable entry) (closed : Bool) (rest : List Char) :
    FollowsAttribute (attributesText attributes ++ (tagEndText closed ++ rest)) := by
  cases attributes with
  | nil =>
    rw [attributesText, List.nil_append]
    cases closed with
    | false => exact ⟨rfl, '>', rest, rfl, by decide, rfl⟩
    | true => exact ⟨rfl, '/', '>' :: rest, rfl, by decide, rfl⟩
  | cons entry attributes =>
    obtain ⟨c, name, shape, start, _⟩ := (writable entry (by simp)).name_parts
    obtain ⟨name', value⟩ := entry
    simp only at shape
    simp only [attributesText, shape, List.cons_append]
    exact ⟨rfl, c, _, (skipTrivia_blank (by decide) _).trans (skipTrivia_name start _),
      ne_of_isNameStart start rfl, skipTrivia_name start _⟩

private theorem readAttributesFrom_name {c : Char} {cs tail : List Char} (start : isNameStart c = true)
    (front : skipTrivia cs = .ok (c :: tail)) (budget : Nat) (read : List (String × Json)) :
    readAttributesFrom (budget + 1) read cs =
      match readName? isAttributeChar (c :: tail) with
      | none => .error ⟨.expectedAttributeName, c :: tail⟩
      | some (name, rest) =>
        match readAssigned rest with
        | .error refusal => .error refusal
        | .ok (value, rest) => readAttributesFrom budget ((name, value) :: read) rest := by
  have begins : ∀ {mark : Char} {other : List Char}, isNameStart mark = false →
      (.ok (c :: tail) : Except Refusal (List Char)) ≠ .ok (mark :: other) := fun {_ _} other same =>
    ne_of_isNameStart start other (List.cons.inj (Except.ok.inj same)).1
  rw [readAttributesFrom, front]
  split
  case h_1 same => cases same
  case h_2 same => exact absurd same (begins rfl)
  case h_3 same => exact absurd same (begins rfl)
  case h_4 same => exact absurd same (begins rfl)
  case h_5 same =>
    cases same
    rfl

private theorem readAttributesFrom_text {attributes : List (String × Json)}
    (writable : ∀ entry ∈ attributes, Writable entry) {budget : Nat}
    (bound : attributes.length < budget) (closed : Bool) (read : List (String × Json))
    {cs rest : List Char}
    (same : skipTrivia cs = skipTrivia (attributesText attributes ++ (tagEndText closed ++ rest))) :
    readAttributesFrom budget read cs =
      .ok (⟨read.reverse ++ Json.settledMembers attributes, closed⟩, rest) := by
  induction attributes generalizing budget read cs with
  | nil =>
    obtain ⟨left, rfl⟩ := Nat.exists_eq_add_of_le' (Nat.one_le_of_lt bound)
    rw [attributesText, List.nil_append, skipTrivia_tagEnd] at same
    cases closed <;> simp [readAttributesFrom, same, Json.settledMembers]
  | cons entry attributes step =>
    obtain ⟨left, rfl⟩ := Nat.exists_eq_add_of_le' (Nat.one_le_of_lt bound)
    have here := writable entry (by simp)
    have behind : ∀ entry ∈ attributes, Writable entry := fun e inside => writable e (by simp [inside])
    obtain ⟨c, letters, shape, start, all⟩ := here.name_parts
    obtain ⟨name, value⟩ := entry
    simp only at shape
    obtain ⟨stop, after, assigned, next⟩ := readAssigned_text here.2
      (followsAttribute_rest behind closed rest)
    have named := readName?_append start all stop
    have whole : String.ofList (c :: letters) = name := by rw [← shape, String.ofList_toList]
    simp only [attributesText, shape, List.cons_append, List.append_assoc] at same
    rw [skipTrivia_blank (by decide), skipTrivia_name start] at same
    rw [readAttributesFrom_name start same, named]
    simp only [assigned, whole]
    rw [step behind (by simpa using bound) _ next]
    simp [Json.settledMembers]

/-- Attributes are read back from what is written of them, up to the end of the tag. -/
theorem readAttributes_text {attributes : List (String × Json)}
    (writable : ∀ entry ∈ attributes, Writable entry) (closed : Bool) (rest : List Char) :
    readAttributes (attributesText attributes ++ (tagEndText closed ++ rest)) =
      .ok (⟨Json.settledMembers attributes, closed⟩, rest) := by
  have bound : attributes.length ≤ (attributesText attributes).length := by
    clear writable
    induction attributes with
    | nil => exact Nat.zero_le _
    | cons entry attributes step =>
      simp only [attributesText, List.length_cons, List.length_append]
      omega
  exact readAttributesFrom_text writable (by simp only [List.length_append]; omega) closed [] rfl

end UiPlan.Program
