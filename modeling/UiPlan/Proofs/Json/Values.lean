import UiPlan.Json.Reader
import UiPlan.Proofs.Table

/-! What is true of every value that was read. Its lists and objects do not stand deeper
inside one another than the reader allows, and no object inside it names a member twice.
-/
namespace UiPlan

/-- A result that went through a function was there before. -/
theorem except_map_ok {ε α β : Type} {result : Except ε α} {f : α → β} {b : β}
    (ok : result.map f = .ok b) : ∃ a, result = .ok a ∧ f a = b := by
  cases result with
  | error error => cases ok
  | ok a => exact ⟨a, rfl, Except.ok.inj ok⟩

theorem except_bind_ok {ε α β : Type} {first : Except ε α} {next : α → Except ε β} {b : β}
    (ok : first >>= next = .ok b) : ∃ a, first = .ok a ∧ next a = .ok b := by
  cases first with
  | error error => cases ok
  | ok a => exact ⟨a, rfl, ok⟩

namespace Json

mutual
def nesting : Json → Nat
  | .arr items => 1 + nestingOf items
  | .obj members => 1 + nestingIn members
  | _ => 0

def nestingOf : List Json → Nat
  | [] => 0
  | item :: rest => max item.nesting (nestingOf rest)

def nestingIn : List (String × Json) → Nat
  | [] => 0
  | (_, value) :: rest => max value.nesting (nestingIn rest)
end

mutual
def every (test : Json → Bool) : Json → Bool
  | .arr items => test (.arr items) && everyOf test items
  | .obj members => test (.obj members) && everyIn test members
  | other => test other

def everyOf (test : Json → Bool) : List Json → Bool
  | [] => true
  | item :: rest => item.every test && everyOf test rest

def everyIn (test : Json → Bool) : List (String × Json) → Bool
  | [] => true
  | (_, value) :: rest => value.every test && everyIn test rest
end

def isWhole : Json → Bool
  | .num (.real _) => false
  | _ => true

def namesOnce : Json → Bool
  | .obj members => decide (Table.keys members).Nodup
  | _ => true

def isIntegral (value : Json) : Bool := value.every isWhole

/-- No object in the value has two members of one name. -/
def isDistinct (value : Json) : Bool := value.every namesOnce

theorem nestingOf_le_iff {items : List Json} {bound : Nat} :
    nestingOf items ≤ bound ↔ ∀ item ∈ items, item.nesting ≤ bound := by
  induction items with
  | nil => simp [nestingOf]
  | cons item rest step => rw [nestingOf, Nat.max_le, step, List.forall_mem_cons]

theorem nestingIn_le_iff {members : List (String × Json)} {bound : Nat} :
    nestingIn members ≤ bound ↔ ∀ entry ∈ members, entry.2.nesting ≤ bound := by
  induction members with
  | nil => simp [nestingIn]
  | cons entry rest step => rw [nestingIn, Nat.max_le, step, List.forall_mem_cons]

theorem everyOf_iff {test : Json → Bool} {items : List Json} :
    everyOf test items = true ↔ ∀ item ∈ items, item.every test = true := by
  induction items with
  | nil => simp [everyOf]
  | cons item rest step => simp [everyOf, step]

theorem everyIn_iff {test : Json → Bool} {members : List (String × Json)} :
    everyIn test members = true ↔ ∀ entry ∈ members, entry.2.every test = true := by
  induction members with
  | nil => simp [everyIn]
  | cons entry rest step => simp [everyIn, step]

section Lists

variable {α : Type} {item : Reader α} {good : α → Prop} {budget : Nat} {cs rest : List Char}

/-- A round of the loop over items: an item, and then the bracket or a comma and another item. -/
theorem readItemsFrom_iff {read items : List α} :
    readItemsFrom item (budget + 1) read cs = .ok (items, rest) ↔
      ∃ value mid, item cs = .ok (value, mid) ∧
        (skipSpace mid = ']' :: rest ∧ items = (value :: read).reverse ∨
          ∃ tail c next, skipSpace mid = ',' :: tail ∧ skipSpace tail = c :: next ∧ c ≠ ']' ∧
            readItemsFrom item budget (value :: read) (c :: next) = .ok (items, rest)) := by
  constructor
  · intro ok
    unfold readItemsFrom at ok
    split at ok
    · cases ok
    · rename_i value mid found
      refine ⟨value, mid, found, ?_⟩
      split at ok
      · cases ok
      · rename_i shape
        cases ok
        exact .inl ⟨shape, rfl⟩
      · rename_i tail shape
        split at ok
        · cases ok
        · cases ok
        · rename_i next noEnd noBracket
          cases behind : skipSpace tail with
          | nil => exact absurd behind noEnd
          | cons c next =>
            rw [behind] at ok noBracket
            exact .inr ⟨tail, c, next, shape, behind, fun same => noBracket next (by rw [same]), ok⟩
      · cases ok
  · rintro ⟨value, mid, found, ⟨shape, rfl⟩ | ⟨tail, c, next, shape, behind, other, ok⟩⟩
    · simp only [readItemsFrom, found, shape]
    · simp only [readItemsFrom, found, shape, behind]
      split
      · rename_i impossible
        cases impossible
      · rename_i same
        exact absurd (List.cons.inj same).1 other
      · exact ok

theorem readItems_iff {items : List α} :
    readItems item cs = .ok (items, rest) ↔
      skipSpace cs = ']' :: rest ∧ items = [] ∨
        ∃ c next, skipSpace cs = c :: next ∧ c ≠ ']' ∧
          readItemsFrom item (c :: next).length [] (c :: next) = .ok (items, rest) := by
  unfold readItems
  constructor
  · intro ok
    split at ok
    · cases ok
    · rename_i shape
      cases ok
      exact .inl ⟨shape, rfl⟩
    · rename_i next noEnd noBracket
      cases shape : skipSpace cs with
      | nil => exact absurd shape noEnd
      | cons c next =>
        rw [shape] at ok noBracket
        exact .inr ⟨c, next, rfl, fun same => noBracket next (by rw [same]), ok⟩
  · rintro (⟨shape, rfl⟩ | ⟨c, next, shape, other, ok⟩)
    · simp only [shape]
    · simp only [shape]
      split
      · rename_i impossible
        cases impossible
      · rename_i same
        exact absurd (List.cons.inj same).1 other
      · exact ok

theorem readKeyed_iff {x : α} :
    readKeyed item cs = .ok (x, rest) ↔
      ∃ tail, skipSpace cs = ':' :: tail ∧ item tail = .ok (x, rest) := by
  unfold readKeyed
  constructor
  · intro ok
    split at ok
    · cases ok
    · rename_i tail shape
      exact ⟨tail, shape, ok⟩
    · cases ok
  · rintro ⟨tail, shape, ok⟩
    simpa only [shape] using ok

/-- A round of the loop over members: a member, and then the brace or a comma and the quote of
another key. -/
theorem readMembersFrom_iff {read members : List (String × α)} :
    readMembersFrom (fun _ _ => .ok item) (budget + 1) read cs = .ok (members, rest) ↔
      ∃ key behind x mid, readString cs = .ok (key, behind) ∧ readKeyed item behind = .ok (x, mid) ∧
        (skipSpace mid = '}' :: rest ∧ members = ((key, x) :: read).reverse ∨
          ∃ tail next, skipSpace mid = ',' :: tail ∧ skipSpace tail = '"' :: next ∧
            readMembersFrom (fun _ _ => .ok item) budget ((key, x) :: read) next =
              .ok (members, rest)) := by
  constructor
  · intro ok
    unfold readMembersFrom at ok
    split at ok
    · cases ok
    · rename_i key behind named
      simp only at ok
      split at ok
      · cases ok
      · rename_i x mid found
        refine ⟨key, behind, x, mid, named, found, ?_⟩
        split at ok
        · cases ok
        · rename_i shape
          cases ok
          exact .inl ⟨shape, rfl⟩
        · rename_i tail shape
          split at ok
          · cases ok
          · rename_i next again
            exact .inr ⟨tail, next, shape, again, ok⟩
          · cases ok
          · cases ok
        · cases ok
  · rintro ⟨key, behind, x, mid, named, found, ⟨shape, rfl⟩ | ⟨tail, next, shape, again, ok⟩⟩
    · simp only [readMembersFrom, named, found, shape]
    · simpa only [readMembersFrom, named, found, shape, again] using ok

theorem readMembers_iff {members : List (String × α)} :
    readMembers (fun _ _ => .ok item) cs = .ok (members, rest) ↔
      skipSpace cs = '}' :: rest ∧ members = [] ∨
        ∃ next, skipSpace cs = '"' :: next ∧
          readMembersFrom (fun _ _ => .ok item) (next.length + 1) [] next = .ok (members, rest) := by
  unfold readMembers
  constructor
  · intro ok
    split at ok
    · cases ok
    · rename_i shape
      cases ok
      exact .inl ⟨shape, rfl⟩
    · rename_i next shape
      exact .inr ⟨next, shape, ok⟩
    · cases ok
  · rintro (⟨shape, rfl⟩ | ⟨next, shape, ok⟩)
    · simp only [shape]
    · simpa only [shape] using ok

private theorem forall_of_readItemsFrom (each : ∀ cs value rest, item cs = .ok (value, rest) → good value)
    {read items : List α} (ok : readItemsFrom item budget read cs = .ok (items, rest))
    (before : ∀ x ∈ read, good x) : ∀ x ∈ items, good x := by
  induction budget generalizing read cs with
  | zero => cases ok
  | succ budget step =>
    obtain ⟨value, mid, found, next⟩ := readItemsFrom_iff.mp ok
    have all : ∀ x ∈ value :: read, good x := by
      simpa using ⟨each _ _ _ found, before⟩
    rcases next with ⟨_, rfl⟩ | ⟨_, _, _, _, _, _, ok⟩
    · exact fun x inside => all x (List.mem_reverse.mp inside)
    · exact step ok all

private theorem forall_of_readItems (each : ∀ cs value rest, item cs = .ok (value, rest) → good value)
    {items : List α} (ok : readItems item cs = .ok (items, rest)) : ∀ x ∈ items, good x := by
  rcases readItems_iff.mp ok with ⟨_, rfl⟩ | ⟨_, _, _, _, ok⟩
  · simp
  · exact forall_of_readItemsFrom each ok (by simp)

private theorem forall_of_readMembersFrom (each : ∀ cs x rest, item cs = .ok (x, rest) → good x)
    {read members : List (String × α)}
    (ok : readMembersFrom (fun _ _ => .ok item) budget read cs = .ok (members, rest))
    (before : ∀ entry ∈ read, good entry.2) : ∀ entry ∈ members, good entry.2 := by
  induction budget generalizing read cs with
  | zero => cases ok
  | succ budget step =>
    obtain ⟨key, behind, x, mid, _, keyed, next⟩ := readMembersFrom_iff.mp ok
    obtain ⟨_, _, found⟩ := readKeyed_iff.mp keyed
    have all : ∀ entry ∈ (key, x) :: read, good entry.2 := by
      simpa only [List.forall_mem_cons] using ⟨each _ _ _ found, before⟩
    rcases next with ⟨_, rfl⟩ | ⟨_, _, _, _, ok⟩
    · exact fun entry inside => all entry (List.mem_reverse.mp inside)
    · exact step ok all

private theorem forall_of_readMembers (each : ∀ cs x rest, item cs = .ok (x, rest) → good x)
    {members : List (String × α)}
    (ok : readMembers (fun _ _ => .ok item) cs = .ok (members, rest)) :
    ∀ entry ∈ members, good entry.2 := by
  rcases readMembers_iff.mp ok with ⟨_, rfl⟩ | ⟨_, _, ok⟩
  · simp
  · exact forall_of_readMembersFrom each ok (by simp)

end Lists

def isScalar : Json → Bool
  | .arr _ | .obj _ => false
  | _ => true

private theorem nesting_of_isScalar {value : Json} (scalar : value.isScalar = true) : value.nesting = 0 := by
  cases value <;> first | rfl | cases scalar

private theorem isDistinct_of_isScalar {value : Json} (scalar : value.isScalar = true) :
    value.isDistinct = true := by
  cases value <;> first | rfl | cases scalar

theorem readValueWith_ok {list object : Reader Json} {value : Json} {cs rest : List Char}
    (ok : readValueWith list object cs = .ok (value, rest)) :
    value.isScalar = true ∨ (∃ inner, list inner = .ok (value, rest)) ∨
      ∃ inner, object inner = .ok (value, rest) := by
  unfold readValueWith at ok
  split at ok
  case h_1 => cases ok
  case h_6 => exact .inr (.inl ⟨_, ok⟩)
  case h_7 => exact .inr (.inr ⟨_, ok⟩)
  case h_9 =>
    split at ok
    · obtain ⟨read, _, same⟩ := except_map_ok ok
      cases same
      exact .inl rfl
    · cases ok
  all_goals
    obtain ⟨read, _, same⟩ := except_map_ok ok
    cases same
    exact .inl rfl

/-- What holds of scalars and passes from the parts of a value to the value holds of every
value that is read. -/
theorem readValue_induction {close : List (String × Json) → Json} {motive : Nat → Json → Prop}
    (scalar : ∀ depth value, value.isScalar = true → motive depth value)
    (listed : ∀ depth items, (∀ item ∈ items, motive depth item) → motive (depth + 1) (.arr items))
    (named : ∀ depth members, (∀ entry ∈ members, motive depth entry.2) →
      motive (depth + 1) (close members))
    {depth : Nat} {value : Json} {cs rest : List Char}
    (ok : readValue close depth cs = .ok (value, rest)) : motive depth value := by
  induction depth generalizing value cs rest with
  | zero =>
    rcases readValueWith_ok ok with alone | ⟨_, fails⟩ | ⟨_, fails⟩
    · exact scalar 0 value alone
    · cases fails
    · cases fails
  | succ depth step =>
    rcases readValueWith_ok ok with alone | ⟨_, list⟩ | ⟨_, object⟩
    · exact scalar _ value alone
    · obtain ⟨read, found, same⟩ := except_map_ok list
      cases same
      exact listed depth _ (forall_of_readItems (fun _ _ _ => step) found)
    · obtain ⟨read, found, same⟩ := except_map_ok object
      cases same
      exact named depth _ (forall_of_readMembers (fun _ _ _ => step) found)

private theorem nesting_object_le {members : List (String × Json)} {bound : Nat}
    (inside : ∀ entry ∈ members, entry.2.nesting ≤ bound) :
    (object members).nesting ≤ bound + 1 := by
  have all : nestingIn (Table.ofEntries members) ≤ bound := by
    rw [nestingIn_le_iff]
    exact fun entry member => inside entry (Table.mem_ofEntries member)
  simp only [object, nesting]
  omega

private theorem isDistinct_object {members : List (String × Json)}
    (inside : ∀ entry ∈ members, entry.2.isDistinct = true) :
    (object members).isDistinct = true := by
  have all : everyIn namesOnce (Table.ofEntries members) = true := by
    rw [everyIn_iff]
    exact fun entry member => inside entry (Table.mem_ofEntries member)
  have once : namesOnce (.obj (Table.ofEntries members)) = true :=
    decide_eq_true (Table.nodup_keys_ofEntries members)
  rw [object, isDistinct, every, all, once, Bool.and_self]

private theorem nesting_le_of_readValue {depth : Nat} {value : Json} {cs rest : List Char}
    (ok : readValue object depth cs = .ok (value, rest)) : value.nesting ≤ depth := by
  refine readValue_induction (motive := fun depth value => value.nesting ≤ depth) ?_ ?_ ?_ ok
  · intro depth value alone
    rw [nesting_of_isScalar alone]
    exact Nat.zero_le depth
  · intro depth items inside
    have all := nestingOf_le_iff.mpr inside
    simp only [nesting]
    omega
  · intro depth members inside
    exact nesting_object_le inside

private theorem isDistinct_of_readValue {depth : Nat} {value : Json} {cs rest : List Char}
    (ok : readValue object depth cs = .ok (value, rest)) : value.isDistinct = true := by
  refine readValue_induction (motive := fun _ value => value.isDistinct = true) ?_ ?_ ?_ ok
  · intro _ value alone
    exact isDistinct_of_isScalar alone
  · intro _ items inside
    rw [isDistinct, every, everyOf_iff.mpr inside]
    rfl
  · intro _ members inside
    exact isDistinct_object inside

theorem readEnd_iff {cs : List Char} : readEnd cs = .ok () ↔ skipSpace cs = [] := by
  unfold readEnd
  split
  · rename_i shape
    simp only [shape]
  · rename_i more
    simpa using more

/-- A text is accepted if a value stands in it and nothing but space follows. -/
theorem parse_iff {source : List Char} {value : Json} :
    parse source = .ok value ↔
      ∃ rest, readValue object depthLimit source = .ok (value, rest) ∧ skipSpace rest = [] := by
  unfold parse readWhole
  constructor
  · intro ok
    split at ok
    · cases ok
    · rename_i read rest found
      split at ok
      · cases ok
      · rename_i ended
        cases ok
        exact ⟨rest, found, readEnd_iff.mp ended⟩
  · rintro ⟨rest, found, ended⟩
    simp only [found, readEnd_iff.mpr ended]

/-- A value that was read is nested no deeper than the reader allows. -/
theorem nesting_le_of_parse {source : List Char} {value : Json} (ok : parse source = .ok value) :
    value.nesting ≤ depthLimit := by
  obtain ⟨rest, found, _⟩ := parse_iff.mp ok
  exact nesting_le_of_readValue found

/-- Repeated names are merged while a value is read. -/
theorem isDistinct_of_parse {source : List Char} {value : Json} (ok : parse source = .ok value) :
    value.isDistinct = true := by
  obtain ⟨rest, found, _⟩ := parse_iff.mp ok
  exact isDistinct_of_readValue found

end Json

end UiPlan
