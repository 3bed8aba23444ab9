import UiPlan.Proofs.Json.Numbers
import UiPlan.Proofs.Json.Values

/-! The text of a value reads back, as the value itself if it holds no doubles, and otherwise
as the value with each double replaced by what is read from its text. Every lemma leaves
open what follows the text; only a number asks that it does not go on as a longer number.
Values repeat no names, and they are as shallow as the reader demands.
-/
namespace UiPlan.Json

private theorem hexValue?_hexDigit : ∀ n < 16, hexValue? (hexDigit n) = some n := by decide

private theorem readEscapedUnits_control {c : Char} (control : c.toNat < 32) (rest : List Char) :
    readEscapedUnits ('0' :: '0' :: hexDigit (c.toNat / 16) :: hexDigit (c.toNat % 16) :: rest) =
      .ok (c, rest) := by
  have high := hexValue?_hexDigit (c.toNat / 16) (by omega)
  have low := hexValue?_hexDigit (c.toNat % 16) (by omega)
  have zero : hexValue? '0' = some 0 := by decide
  have whole : ((0 * 16 + 0) * 16 + c.toNat / 16) * 16 + c.toNat % 16 = c.toNat := by omega
  have noLow : isLowSurrogate c.toNat = false := by
    simp only [isLowSurrogate, Bool.and_eq_false_imp, decide_eq_true_eq, decide_eq_false_iff_not]
    omega
  have noHigh : isHighSurrogate c.toNat = false := by
    simp only [isHighSurrogate, Bool.and_eq_false_imp, decide_eq_true_eq, decide_eq_false_iff_not]
    omega
  simp only [readEscapedUnits, readUnit, zero, high, low, whole, noLow, noHigh, Bool.false_eq_true,
    if_false, Char.ofNat_toNat]

private theorem readStringFrom_escapedChar (budget : Nat) (read : List Char) (c : Char) (rest : List Char) :
    readStringFrom (budget + 1) read (escapedChar c ++ rest) =
      readStringFrom budget (c :: read) rest := by
  unfold escapedChar
  split
  · subst c
    rfl
  split
  · subst c
    rfl
  split
  · subst c
    rfl
  split
  · subst c
    rfl
  split
  · subst c
    rfl
  split
  · rename_i code
    rw [show c = '\x08' from Char.toNat_inj.mp code]
    rfl
  split
  · rename_i code
    rw [show c = '\x0c' from Char.toNat_inj.mp code]
    rfl
  split
  · rename_i control
    simp only [List.cons_append, List.nil_append, readStringFrom, readEscape,
      readEscapedUnits_control control]
  · rename_i control
    simp_all [readStringFrom, Nat.not_lt.mpr]

private theorem readStringFrom_flatMap {budget : Nat} {cs : List Char} (bound : cs.length < budget)
    (read rest : List Char) :
    readStringFrom budget read (cs.flatMap escapedChar ++ '"' :: rest) =
      .ok (.ofList (read.reverse ++ cs), rest) := by
  induction cs generalizing budget read with
  | nil =>
    obtain ⟨left, rfl⟩ := Nat.exists_eq_add_of_le' (Nat.one_le_of_lt bound)
    simp [readStringFrom]
  | cons c cs step =>
    obtain ⟨left, rfl⟩ := Nat.exists_eq_add_of_le' (Nat.one_le_of_lt bound)
    rw [List.flatMap_cons, List.append_assoc, readStringFrom_escapedChar,
      step (by simpa using bound)]
    simp

private theorem length_le_flatMap_escapedChar (cs : List Char) :
    cs.length ≤ (cs.flatMap escapedChar).length := by
  induction cs with
  | nil => simp
  | cons c cs step =>
    have atLeastOne : 1 ≤ (escapedChar c).length := by
      unfold escapedChar
      repeat' split
      all_goals simp
    simp only [List.flatMap_cons, List.length_append, List.length_cons]
    omega

theorem readString_quoted (value : String) (rest : List Char) :
    readString (value.toList.flatMap escapedChar ++ '"' :: rest) = .ok (value, rest) := by
  have bound := length_le_flatMap_escapedChar value.toList
  rw [readString, readStringFrom_flatMap (by rw [List.length_append]; omega)]
  simp

theorem quoted_append (value : String) (rest : List Char) :
    quoted value.toList ++ rest = '"' :: (value.toList.flatMap escapedChar ++ '"' :: rest) := by
  simp [quoted]

mutual
def settled : Json → Json
  | .num number => number.settled
  | .arr items => .arr (settledItems items)
  | .obj members => .obj (settledMembers members)
  | other => other

def settledItems : List Json → List Json
  | [] => []
  | item :: rest => item.settled :: settledItems rest

def settledMembers : List (String × Json) → List (String × Json)
  | [] => []
  | (name, value) :: rest => (name, value.settled) :: settledMembers rest
end

private theorem keys_settledMembers (members : List (String × Json)) :
    Table.keys (settledMembers members) = Table.keys members := by
  induction members with
  | nil => rfl
  | cons entry rest step =>
    rw [settledMembers]
    exact congrArg (entry.1 :: ·) step

mutual
theorem settled_of_isIntegral (value : Json) (integral : value.isIntegral = true) :
    value.settled = value := by
  match value with
  | .null | .bool _ | .str _ => rfl
  | .num (.int _ _) => rfl
  | .num (.real _) => cases integral
  | .arr items =>
    rw [isIntegral, every, Bool.and_eq_true] at integral
    rw [settled, settledItems_of_everyOf items integral.2]
  | .obj members =>
    rw [isIntegral, every, Bool.and_eq_true] at integral
    rw [settled, settledMembers_of_everyIn members integral.2]

theorem settledItems_of_everyOf (items : List Json) (integral : everyOf isWhole items = true) :
    settledItems items = items := by
  match items with
  | [] => rfl
  | item :: rest =>
    rw [everyOf, Bool.and_eq_true] at integral
    rw [settledItems, settled_of_isIntegral item integral.1, settledItems_of_everyOf rest integral.2]

theorem settledMembers_of_everyIn (members : List (String × Json))
    (integral : everyIn isWhole members = true) : settledMembers members = members := by
  match members with
  | [] => rfl
  | (name, value) :: rest =>
    rw [everyIn, Bool.and_eq_true] at integral
    rw [settledMembers, settled_of_isIntegral value integral.1,
      settledMembers_of_everyIn rest integral.2]
end

def startsValue (c : Char) : Bool :=
  c.isDigit || c = '-' || c = '"' || c = '[' || c = '{' || c = 'n' || c = 't' || c = 'f'

theorem text_starts (value : Json) : ∃ c rest, value.text = c :: rest ∧ startsValue c = true := by
  match value with
  | .null => exact ⟨_, _, rfl, rfl⟩
  | .bool true => exact ⟨_, _, rfl, rfl⟩
  | .bool false => exact ⟨_, _, rfl, rfl⟩
  | .str _ => exact ⟨_, _, rfl, rfl⟩
  | .arr [] => exact ⟨_, _, rfl, rfl⟩
  | .arr (_ :: _) => exact ⟨_, _, rfl, rfl⟩
  | .obj [] => exact ⟨_, _, rfl, rfl⟩
  | .obj ((_, _) :: _) => exact ⟨_, _, rfl, rfl⟩
  | .num number =>
    rw [text]
    rcases text_cases number with null | ⟨negative, magnitude, numeral, same⟩
    · exact ⟨_, _, null, rfl⟩
    · obtain ⟨c, tail, rfl, digit⟩ := numeral.front
      cases negative with
      | false => exact ⟨c, tail, same, by simp [startsValue, digit]⟩
      | true => exact ⟨'-', c :: tail, same, rfl⟩

theorem startsValue_plain {c : Char} (starts : startsValue c = true) :
    isSpace c = false ∧ c ≠ ']' := by
  constructor
  · unfold isSpace
    simp only [Bool.or_eq_false_iff, decide_eq_false_iff_not]
    refine ⟨⟨⟨?_, ?_⟩, ?_⟩, ?_⟩ <;> (rintro rfl; cases starts)
  · rintro rfl
    cases starts

def ReadsBack (reader : Reader Json) (value : Json) : Prop :=
  ∀ rest, endsNumber rest = true → reader (value.text ++ rest) = .ok (value.settled, rest)

theorem endsNumber_itemsText (items : List Json) (rest : List Char) :
    endsNumber (itemsText items ++ rest) = true := by
  cases items <;> rfl

theorem endsNumber_membersText (members : List (String × Json)) (rest : List Char) :
    endsNumber (membersText members ++ rest) = true := by
  rcases members with _ | ⟨⟨_, _⟩, _⟩ <;> rfl

private theorem length_lt_itemsText (items : List Json) : items.length < (itemsText items).length := by
  induction items with
  | nil => simp [itemsText]
  | cons item rest step =>
    simp only [itemsText, List.length_cons, List.length_append]
    omega

private theorem length_lt_membersText (members : List (String × Json)) :
    members.length < (membersText members).length := by
  induction members with
  | nil => simp [membersText]
  | cons entry rest step =>
    obtain ⟨name, value⟩ := entry
    simp only [membersText, List.length_cons, List.length_append]
    omega

private theorem readItemsFrom_text {reader : Reader Json} {item : Json} {items : List Json}
    (each : ∀ x ∈ item :: items, ReadsBack reader x) {budget : Nat} (bound : items.length < budget)
    (read : List Json) (rest : List Char) :
    readItemsFrom reader budget read (item.text ++ (itemsText items ++ rest)) =
      .ok (read.reverse ++ settledItems (item :: items), rest) := by
  induction items generalizing item budget read with
  | nil =>
    obtain ⟨left, rfl⟩ := Nat.exists_eq_add_of_le' (Nat.one_le_of_lt bound)
    have here := each item (by simp) (itemsText [] ++ rest) (endsNumber_itemsText [] rest)
    refine readItemsFrom_iff.mpr ⟨item.settled, _, here, .inl ⟨rfl, ?_⟩⟩
    simp [settledItems]
  | cons next items step =>
    obtain ⟨left, rfl⟩ := Nat.exists_eq_add_of_le' (Nat.one_le_of_lt bound)
    have here := each item (by simp) (itemsText (next :: items) ++ rest)
      (endsNumber_itemsText (next :: items) rest)
    have fits : items.length < left := by simpa using bound
    have behind := step (fun x inside => each x (List.mem_cons_of_mem item inside)) fits
      (item.settled :: read)
    obtain ⟨c, tail, shape, starts⟩ := text_starts next
    obtain ⟨noSpace, noBracket⟩ := startsValue_plain starts
    rw [shape, List.cons_append] at behind
    have comma : skipSpace (itemsText (next :: items) ++ rest) =
        ',' :: c :: (tail ++ (itemsText items ++ rest)) := by
      simp only [itemsText, shape, List.cons_append, List.append_assoc]
      exact skipSpace_cons rfl _
    have again := skipSpace_cons noSpace (tail ++ (itemsText items ++ rest))
    refine readItemsFrom_iff.mpr ⟨item.settled, _, here, .inr ⟨_, c, _, comma, again, noBracket, ?_⟩⟩
    rw [behind]
    simp [settledItems]

private theorem readMembersFrom_text {reader : Reader Json} {name : String} {value : Json}
    {members : List (String × Json)}
    (each : ∀ entry ∈ (name, value) :: members, ReadsBack reader entry.2) {budget : Nat}
    (bound : members.length < budget) (read : List (String × Json)) (rest : List Char) :
    readMembersFrom (fun _ _ => .ok reader) budget read
      (name.toList.flatMap escapedChar ++ '"' :: ':' :: (value.text ++ (membersText members ++ rest))) =
      .ok (read.reverse ++ settledMembers ((name, value) :: members), rest) := by
  induction members generalizing name value budget read with
  | nil =>
    obtain ⟨left, rfl⟩ := Nat.exists_eq_add_of_le' (Nat.one_le_of_lt bound)
    have here := each (name, value) (by simp) (membersText [] ++ rest) (endsNumber_membersText [] rest)
    have keyed : readKeyed reader (':' :: (value.text ++ (membersText [] ++ rest))) =
        .ok (value.settled, membersText [] ++ rest) := here
    refine readMembersFrom_iff.mpr
      ⟨name, _, value.settled, _, readString_quoted name _, keyed, .inl ⟨rfl, ?_⟩⟩
    simp [settledMembers]
  | cons next members step =>
    obtain ⟨left, rfl⟩ := Nat.exists_eq_add_of_le' (Nat.one_le_of_lt bound)
    obtain ⟨key, inner⟩ := next
    have here := each (name, value) (by simp) (membersText ((key, inner) :: members) ++ rest)
      (endsNumber_membersText _ rest)
    have keyed : readKeyed reader
        (':' :: (value.text ++ (membersText ((key, inner) :: members) ++ rest))) =
        .ok (value.settled, membersText ((key, inner) :: members) ++ rest) := here
    have fits : members.length < left := by simpa using bound
    have others : ∀ entry ∈ (key, inner) :: members, ReadsBack reader entry.2 := fun entry inside =>
      each entry (List.mem_cons_of_mem (name, value) inside)
    have behind := step others fits ((name, value.settled) :: read)
    have comma : skipSpace (membersText ((key, inner) :: members) ++ rest) =
        ',' :: '"' :: (key.toList.flatMap escapedChar ++ '"' :: ':' ::
          (inner.text ++ (membersText members ++ rest))) := by
      simp only [membersText, List.cons_append, List.append_assoc, quoted_append]
      exact skipSpace_cons rfl _
    refine readMembersFrom_iff.mpr ⟨name, _, value.settled, _, readString_quoted name _, keyed,
      .inr ⟨_, _, comma, skipSpace_cons rfl _, ?_⟩⟩
    rw [behind]
    simp [settledMembers]

private theorem readItems_text {reader : Reader Json} {item : Json} {items : List Json}
    (each : ∀ x ∈ item :: items, ReadsBack reader x) (rest : List Char) :
    readItems reader (item.text ++ (itemsText items ++ rest)) =
      .ok (settledItems (item :: items), rest) := by
  have bound : items.length < (item.text ++ (itemsText items ++ rest)).length := by
    have shorter := length_lt_itemsText items
    simp only [List.length_append]
    omega
  have read := readItemsFrom_text each bound [] rest
  obtain ⟨c, tail, shape, starts⟩ := text_starts item
  obtain ⟨noSpace, noBracket⟩ := startsValue_plain starts
  rw [shape, List.cons_append] at read ⊢
  exact readItems_iff.mpr (.inr ⟨c, _, skipSpace_cons noSpace _, noBracket, read⟩)

private theorem readMembers_text {reader : Reader Json} {name : String} {value : Json}
    {members : List (String × Json)}
    (each : ∀ entry ∈ (name, value) :: members, ReadsBack reader entry.2) (rest : List Char) :
    readMembers (fun _ _ => .ok reader)
      (quoted name.toList ++ ':' :: (value.text ++ (membersText members ++ rest))) =
      .ok (settledMembers ((name, value) :: members), rest) := by
  have shorter := length_lt_membersText members
  rw [quoted_append]
  refine readMembers_iff.mpr (.inr ⟨_, skipSpace_cons rfl _, readMembersFrom_text each ?_ [] rest⟩)
  simp only [List.length_append, List.length_cons]
  omega

theorem readsBack_scalar {value : Json} (scalar : value.isScalar = true) (list object : Reader Json) :
    ReadsBack (readValueWith list object) value := by
  intro rest ends
  match value with
  | .null => rfl
  | .bool true => rfl
  | .bool false => rfl
  | .num number => exact readValueWith_number number list object ends
  | .str value =>
    have read := readString_quoted value rest
    rw [text, quoted_append]
    unfold readValueWith
    rw [skipSpace_cons (by decide)]
    simp only [read]
    rfl
  | .arr _ => cases scalar
  | .obj _ => cases scalar

theorem isDistinct_arr {items : List Json} :
    (arr items).isDistinct = true ↔ ∀ item ∈ items, item.isDistinct = true := by
  simp only [isDistinct, every, namesOnce, Bool.true_and, everyOf_iff]

theorem isDistinct_obj {members : List (String × Json)} :
    (obj members).isDistinct = true ↔
      (Table.keys members).Nodup ∧ ∀ entry ∈ members, entry.2.isDistinct = true := by
  simp only [isDistinct, every, namesOnce, Bool.and_eq_true, decide_eq_true_eq, everyIn_iff]

theorem nesting_lt_arr {items : List Json} {item : Json} (inside : item ∈ items) :
    item.nesting < (arr items).nesting := by
  have bound := nestingOf_le_iff.mp (Nat.le_refl (nestingOf items)) item inside
  rw [nesting]
  omega

theorem nesting_lt_obj {members : List (String × Json)} {name : String} {value : Json}
    (inside : (name, value) ∈ members) : value.nesting < (obj members).nesting := by
  have bound : value.nesting ≤ nestingIn members :=
    nestingIn_le_iff.mp (Nat.le_refl _) _ inside
  rw [nesting]
  omega

theorem readsBack_arr {items : List Json} {depth : Nat}
    (each : ∀ item ∈ items, ReadsBack (readValue object depth) item) :
    ReadsBack (readValue object (depth + 1)) (.arr items) := by
  intro rest _
  cases items with
  | nil => rfl
  | cons item items =>
    have read := readItems_text each rest
    rw [text, List.cons_append, List.append_assoc, readValue]
    unfold readValueWith
    rw [skipSpace_cons (by decide)]
    simp only [read]
    rfl

theorem readsBack_obj {members : List (String × Json)} {depth : Nat}
    (each : ∀ entry ∈ members, ReadsBack (readValue object depth) entry.2)
    (distinct : (Table.keys members).Nodup) :
    ReadsBack (readValue object (depth + 1)) (.obj members) := by
  intro rest _
  cases members with
  | nil => rfl
  | cons entry members =>
    have read := readMembers_text each rest
    have same : object (settledMembers (entry :: members)) = .obj (settledMembers (entry :: members)) := by
      rw [← keys_settledMembers] at distinct
      rw [object, Table.ofEntries_of_nodup distinct]
    rw [text, List.cons_append, List.append_assoc, List.cons_append, List.append_assoc, readValue]
    unfold readValueWith
    rw [skipSpace_cons (by decide)]
    simp only [read]
    exact congrArg (fun value => Except.ok (value, rest)) same

/-- A value with no more lists and objects inside one another than the reader allows, and with
distinct names, is read back from its own text. -/
theorem readValue_text {value : Json} {depth : Nat} (shallow : value.nesting ≤ depth)
    (distinct : value.isDistinct = true) :
    ReadsBack (readValue object depth) value := by
  induction depth generalizing value with
  | zero =>
    -- Without depth left no list and no object fits, not even an empty one.
    have scalar : value.isScalar = true := by
      cases value <;> first | rfl | (simp only [nesting] at shallow; omega)
    exact readsBack_scalar scalar _ _
  | succ depth step =>
    cases value with
    | arr items =>
      refine readsBack_arr fun item inside => ?_
      have lower := nesting_lt_arr inside
      exact step (by omega) (isDistinct_arr.mp distinct item inside)
    | obj members =>
      obtain ⟨once, within⟩ := isDistinct_obj.mp distinct
      refine readsBack_obj (fun entry inside => ?_) once
      have lower := nesting_lt_obj inside
      exact step (by omega) (within entry inside)
    | null | bool | num | str => exact readsBack_scalar rfl _ _

structure Readable (value : Json) : Prop where
  distinct : value.isDistinct = true
  shallow : value.nesting ≤ depthLimit

theorem Readable.readsBack {value : Json} (readable : Readable value) :
    ReadsBack (readValue object depthLimit) value :=
  readValue_text readable.shallow readable.distinct

/-- Written as a whole text, a readable value comes back. -/
theorem Readable.parse_text {value : Json} (readable : Readable value) :
    parse value.text = .ok value.settled := by
  have read := readable.readsBack [] rfl
  rw [List.append_nil] at read
  simp only [parse, readWhole, read]
  rfl

end UiPlan.Json
