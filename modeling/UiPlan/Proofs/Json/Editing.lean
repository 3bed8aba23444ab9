import UiPlan.Proofs.Json.Numbers
import UiPlan.Proofs.Json.Taking
import UiPlan.Text.Blank

/-! Edits of texts that leave values in place. An edit may drop backticks and white space, it
may cut space off the end, and it may change what strings hold, but every other character
stays where it is. A text that is accepted is then still accepted when it was edited, and it
holds the same value if strings keep what they hold. The argument follows the readers from
the inside to the outside: what each of them leaves of the edited text is the edited form of
what it leaves of the text. Trimming is such an edit.
-/
namespace UiPlan.Json

def isSolid (c : Char) : Bool := c ≠ '`' && !Text.isBlank c

def Native (cs : List Char) : Prop := ∀ c ∈ cs.head?, isSolid c = true ∨ isSpace c = true

/-- An edit of texts around the values in them. If it is `exact`, strings keep what they hold. -/
structure Edit (edit : List Char → List Char) (exact : Prop) : Prop where
  nil : edit [] = []
  solid {c : Char} (solid : isSolid c = true) (cs : List Char) : edit (c :: cs) = c :: edit cs
  space {c : Char} (space : isSpace c = true) (cs : List Char) :
    edit (c :: cs) = c :: edit cs ∨ edit (c :: cs) = [] ∧ ∀ b ∈ cs, Text.isBlank b = true
  string {cs rest : List Char} {value : String} (ok : readString cs = .ok (value, rest)) :
    ∃ value', readString (edit cs) = .ok (value', edit rest) ∧ (exact → value' = value)

/-- What the reader leaves of an edited text is the edited form of what it leaves of the text. -/
def Follows {α : Type} (edit : List Char → List Char) (exact : Prop) (reader : Reader α) : Prop :=
  ∀ cs value rest, reader cs = .ok (value, rest) → Native rest →
    ∃ value', reader (edit cs) = .ok (value', edit rest) ∧ (exact → value' = value)

/-- The reader takes no text that begins with a character an edit may drop, space apart. -/
def Starts {α : Type} (reader : Reader α) : Prop :=
  ∀ c cs value rest, isSpace c = false → reader (c :: cs) = .ok (value, rest) → isSolid c = true

theorem native_nil : Native [] := nofun

theorem native_cons {c : Char} {cs : List Char} :
    Native (c :: cs) ↔ isSolid c = true ∨ isSpace c = true := by
  simp [Native]

theorem isSolid_of_isDigit {c : Char} (digit : c.isDigit = true) : isSolid c = true := by
  have bounds : 48 ≤ c.toNat ∧ c.toNat ≤ 57 := by
    simp only [Char.isDigit, Bool.and_eq_true, decide_eq_true_eq] at digit
    exact digit
  have noBlank : Text.isBlank c = false := by
    simp only [Text.isBlank, Bool.or_eq_false_iff, Bool.and_eq_false_imp, decide_eq_true_eq,
      decide_eq_false_iff_not, beq_eq_false_iff_ne]
    omega
  have noBacktick : c ≠ '`' := by
    rintro rfl
    cases digit
  simp [isSolid, noBlank, noBacktick]

theorem isBlank_of_isSpace {c : Char} (space : isSpace c = true) : Text.isBlank c = true := by
  simp only [isSpace, Bool.or_eq_true, decide_eq_true_eq] at space
  rcases space with ((rfl | rfl) | rfl) | rfl <;> rfl

theorem native_of_skipSpace {cs : List Char} (native : Native (skipSpace cs)) : Native cs := by
  cases cs with
  | nil => exact native_nil
  | cons c cs =>
    by_cases space : isSpace c = true
    · exact native_cons.mpr (.inr space)
    · rwa [skipSpace, List.dropWhile_cons_of_neg space] at native

theorem native_of_shape {c : Char} {cs tail : List Char} (shape : skipSpace cs = c :: tail)
    (solid : isSolid c = true) : Native cs :=
  native_of_skipSpace (shape ▸ native_cons.mpr (.inl solid))

private theorem native_of_end {cs : List Char} (ended : skipSpace cs = []) : Native cs :=
  native_of_skipSpace (ended ▸ native_nil)

/-- Digits are no text an edit may drop. -/
theorem native_of_dropWhile {cs : List Char} (native : Native (cs.dropWhile Char.isDigit)) :
    Native cs := by
  cases cs with
  | nil => exact native_nil
  | cons c cs =>
    by_cases digit : c.isDigit = true
    · exact native_cons.mpr (.inl (isSolid_of_isDigit digit))
    · rwa [List.dropWhile_cons_of_neg digit] at native

/-- In front of what follows the digits of a number nothing is dropped. -/
theorem native_of_readMarked {negative : Bool} {significand : Nat} {exponent : Int}
    {plain : Reader Number} {cs rest : List Char} {number : Number} (passes : Passes plain)
    (ok : readMarked negative significand exponent plain cs = .ok (number, rest))
    (native : Native rest) : Native cs := by
  cases cs with
  | nil => exact native_nil
  | cons c cs =>
    by_cases mark : (c = 'e' || c = 'E') = true
    · simp only [Bool.or_eq_true, decide_eq_true_eq] at mark
      rcases mark with rfl | rfl <;> exact native_cons.mpr (.inl rfl)
    · simp only [readMarked, mark, Bool.false_eq_true, if_false] at ok
      rwa [(passes _ _ _ ok).1] at native

theorem native_of_readFraction {negative : Bool} {significand dropped : Nat} {cs rest : List Char}
    {number : Number}
    (ok : readFraction negative significand dropped cs = .ok (number, rest)) (native : Native rest) :
    Native cs := by
  by_cases point : cs.head? = some '.'
  · obtain ⟨tail, rfl⟩ := List.head?_eq_some_iff.mp point
    exact native_cons.mpr (.inl rfl)
  · rw [readFraction_other point] at ok
    exact native_of_readMarked (passes_readInteger _ _ _) ok native

private theorem eq_nil_of_blank {cs : List Char} (blank : ∀ c ∈ cs, Text.isBlank c = true)
    (native : Native (skipSpace cs)) : skipSpace cs = [] := by
  induction cs with
  | nil => rfl
  | cons c cs step =>
    obtain ⟨here, behind⟩ := List.forall_mem_cons.mp blank
    by_cases space : isSpace c = true
    · rw [skipSpace, List.dropWhile_cons_of_pos space] at native ⊢
      exact step behind native
    · rw [skipSpace, List.dropWhile_cons_of_neg space] at native
      have solid := (native_cons.mp native).resolve_right space
      simp [isSolid, here] at solid

theorem isSpace_of_shape {c : Char} {cs tail : List Char} (shape : skipSpace cs = c :: tail) :
    isSpace c = false := by
  have front := List.head?_dropWhile_not isSpace cs
  rw [skipSpace] at shape
  simpa [shape] using front

private theorem skipSpace_skipSpace (cs : List Char) : skipSpace (skipSpace cs) = skipSpace cs := by
  cases shape : skipSpace cs with
  | nil => rfl
  | cons c tail => exact skipSpace_cons (isSpace_of_shape shape) tail

theorem readValueWith_skipSpace (list object : Reader Json) (cs : List Char) :
    readValueWith list object (skipSpace cs) = readValueWith list object cs := by
  unfold readValueWith
  rw [skipSpace_skipSpace]

theorem Starts.readItemsFrom {α : Type} {item : Reader α} (starts : Starts item) {budget : Nat}
    {read : List α} : Starts (readItemsFrom item budget read) := by
  intro c cs items rest noSpace ok
  cases budget with
  | zero => cases ok
  | succ budget =>
    obtain ⟨_, _, found, _⟩ := readItemsFrom_iff.mp ok
    exact starts _ _ _ _ noSpace found

private theorem starts_readValueWith (list object : Reader Json) : Starts (readValueWith list object) := by
  intro c cs value rest noSpace ok
  unfold readValueWith at ok
  rw [skipSpace_cons noSpace] at ok
  split at ok
  case h_1 none => cases none
  case h_9 same =>
    obtain ⟨rfl, rfl⟩ := List.cons.inj same
    split at ok
    · rename_i digit
      exact isSolid_of_isDigit digit
    · cases ok
  all_goals
    rename_i same
    obtain ⟨rfl, rfl⟩ := List.cons.inj same
    rfl

theorem starts_readValue (close : List (String × Json) → Json) (depth : Nat) :
    Starts (readValue close depth) := by
  cases depth <;> exact starts_readValueWith _ _

namespace Edit

variable {edit : List Char → List Char} {exact : Prop} (edits : Edit edit exact)
include edits

/-- A native text is empty once edited, or it keeps its first character. -/
theorem front {c : Char} {cs : List Char} (native : Native (c :: cs)) :
    edit (c :: cs) = c :: edit cs ∨ edit (c :: cs) = [] ∧ isSpace c = true := by
  rcases native_cons.mp native with solid | space
  · exact .inl (edits.solid solid cs)
  · exact (edits.space space cs).imp_right fun cut => ⟨cut.1, space⟩

theorem skipSpace {cs : List Char} (native : Native (skipSpace cs)) :
    Json.skipSpace (edit cs) = edit (Json.skipSpace cs) := by
  induction cs with
  | nil => rw [edits.nil, Json.skipSpace, List.dropWhile_nil, edits.nil]
  | cons c cs step =>
    by_cases space : isSpace c = true
    · have skipped : Json.skipSpace (c :: cs) = Json.skipSpace cs := List.dropWhile_cons_of_pos space
      rw [skipped] at native ⊢
      rcases edits.space space cs with kept | ⟨cut, blank⟩
      · rw [kept, Json.skipSpace, List.dropWhile_cons_of_pos space]
        exact step native
      · -- what is cut off is native, so it held nothing but space
        rw [cut, eq_nil_of_blank blank native, edits.nil]
        rfl
    · rw [skipSpace_cons (by simpa using space)] at native ⊢
      have solid := (native_cons.mp native).resolve_right space
      rw [edits.solid solid, skipSpace_cons (by simpa using space)]

theorem skipSpace_cons {c : Char} {cs tail : List Char} (shape : Json.skipSpace cs = c :: tail)
    (solid : isSolid c = true) : Json.skipSpace (edit cs) = c :: edit tail := by
  have native : Native (Json.skipSpace cs) := shape ▸ native_cons.mpr (.inl solid)
  rw [edits.skipSpace native, shape, edits.solid solid]

private theorem skipSpace_nil {cs : List Char} (ended : Json.skipSpace cs = []) :
    Json.skipSpace (edit cs) = [] := by
  rw [edits.skipSpace (ended ▸ native_nil), ended, edits.nil]

theorem append {word : List Char} (solid : word.all isSolid = true) (cs : List Char) :
    edit (word ++ cs) = word ++ edit cs := by
  induction word with
  | nil => rfl
  | cons c word step =>
    rw [List.all_cons, Bool.and_eq_true] at solid
    obtain ⟨here, behind⟩ := solid
    rw [List.cons_append, edits.solid here, step behind, List.cons_append]

end Edit

theorem Follows.map {α β : Type} {edit : List Char → List Char} {exact : Prop} {reader : Reader α}
    (follows : Follows edit exact reader) (f : α → β) :
    Follows edit exact fun cs => (reader cs).map fun (value, rest) => (f value, rest) := by
  intro cs value rest ok native
  obtain ⟨read, found, same⟩ := except_map_ok ok
  cases same
  obtain ⟨value', later, exactly⟩ := follows _ _ _ found native
  refine ⟨f value', ?_, fun exact => by rw [exactly exact]⟩
  simp only [later, Except.map]

section Follows

variable {α : Type} {edit : List Char → List Char} {exact : Prop} (edits : Edit edit exact)
include edits

private theorem readWord_edit {word cs rest : List Char} (ok : readWord word cs = .ok rest)
    (solid : word.all isSolid = true) : readWord word (edit cs) = .ok (edit rest) := by
  rw [readWord_iff.mp ok, edits.append solid, readWord_iff]

theorem digits_edit {cs : List Char} (native : Native (cs.dropWhile Char.isDigit)) :
    (edit cs).takeWhile Char.isDigit = cs.takeWhile Char.isDigit ∧
      (edit cs).dropWhile Char.isDigit = edit (cs.dropWhile Char.isDigit) := by
  induction cs with
  | nil => simp [edits.nil]
  | cons c cs step =>
    by_cases digit : c.isDigit = true
    · rw [List.dropWhile_cons_of_pos digit] at native ⊢
      rw [edits.solid (isSolid_of_isDigit digit), List.takeWhile_cons_of_pos digit,
        List.takeWhile_cons_of_pos digit, List.dropWhile_cons_of_pos digit]
      exact (step native).imp_left (congrArg (c :: ·))
    · rw [List.dropWhile_cons_of_neg digit] at native ⊢
      rcases edits.front native with kept | ⟨cut, _⟩
      · simp [kept, digit]
      · simp [cut, digit]

private theorem readExponentDigits_edit (value : Nat) {cs : List Char}
    (native : Native (readExponentDigits value cs).2) :
    readExponentDigits value (edit cs) =
      ((readExponentDigits value cs).1, edit (readExponentDigits value cs).2) := by
  induction cs generalizing value with
  | nil => simp [edits.nil, readExponentDigits]
  | cons c cs step =>
    by_cases digit : c.isDigit = true
    · rw [edits.solid (isSolid_of_isDigit digit)]
      simp only [readExponentDigits, digit, if_true] at native ⊢
      split
      · rename_i below
        rw [if_pos below] at native
        exact step _ native
      · rfl
    · simp only [readExponentDigits, digit] at native ⊢
      rcases edits.front native with kept | ⟨cut, _⟩
      · simp [kept, readExponentDigits, digit]
      · simp [cut, readExponentDigits]

section Magnitudes

variable {negative : Bool} {significand : Nat} {cs rest : List Char} {number : Number}

private theorem readUnsigned_edit {below : Bool} {exponent : Int}
    (ok : readUnsigned negative significand exponent below cs = .ok (number, rest))
    (native : Native rest) :
    readUnsigned negative significand exponent below (edit cs) = .ok (number, edit rest) := by
  obtain ⟨c, cs, rfl, digit⟩ := digit_of_readUnsigned ok
  have here := edits.solid (isSolid_of_isDigit digit) cs
  cases read : readExponentDigits 0 (c :: cs) with | mk value? tail =>
  simp only [readUnsigned, digit, if_true, read] at ok
  cases value? with
  | some value =>
    obtain ⟨rfl, passes⟩ := passes_readScaled _ _ _ _ _ _ ok
    have behind : Native (readExponentDigits 0 (c :: cs)).2 := by rwa [read]
    have later := readExponentDigits_edit edits 0 behind
    rw [read, here] at later
    simp only [here, readUnsigned, digit, if_true, later]
    exact passes _
  | none =>
    simp only at ok
    split at ok
    · cases ok
    · rename_i tiny
      cases ok
      have behind : Native (readExponentDigits 0 (c :: cs)).2 := by
        rw [read]
        exact native_of_dropWhile native
      have later := readExponentDigits_edit edits 0 behind
      rw [read, here] at later
      simp only [here, readUnsigned, digit, if_true, later, tiny, (digits_edit edits native).2]
      rfl

private theorem signed_edit {c : Char} {tail : List Char} (front : (signed cs).2 = c :: tail)
    (digit : c.isDigit = true) : signed (edit cs) = ((signed cs).1, edit (signed cs).2) := by
  unfold signed at front ⊢
  split at front
  · rw [edits.solid rfl]
    rfl
  · rw [edits.solid rfl]
    rfl
  · rename_i noPlus noMinus
    subst front
    rw [edits.solid (isSolid_of_isDigit digit)]
    split
    · rename_i same
      exact (noPlus tail (by rw [(List.cons.inj same).1])).elim
    · rename_i same
      exact (noMinus tail (by rw [(List.cons.inj same).1])).elim
    · rfl

private theorem readExponent_edit {exponent : Int}
    (ok : readExponent negative significand exponent cs = .ok (number, rest)) (native : Native rest) :
    readExponent negative significand exponent (edit cs) = .ok (number, edit rest) := by
  rw [readExponent_eq] at ok ⊢
  obtain ⟨c, tail, front, digit⟩ := digit_of_readUnsigned ok
  rw [signed_edit edits front digit]
  exact readUnsigned_edit edits ok native

private theorem readMarked_edit {exponent : Int} {plain : Reader Number} (passes : Passes plain)
    (ok : readMarked negative significand exponent plain cs = .ok (number, rest))
    (native : Native rest) :
    readMarked negative significand exponent plain (edit cs) = .ok (number, edit rest) := by
  cases cs with
  | nil =>
    obtain ⟨rfl, same⟩ := passes _ _ _ ok
    rw [edits.nil]
    exact same []
  | cons c cs =>
    by_cases mark : (c = 'e' || c = 'E') = true
    · have solid : isSolid c = true := by
        simp only [Bool.or_eq_true, decide_eq_true_eq] at mark
        rcases mark with rfl | rfl <;> rfl
      simp only [readMarked, mark, if_true, edits.solid solid] at ok ⊢
      exact readExponent_edit edits ok native
    · simp only [readMarked, mark, Bool.false_eq_true, if_false] at ok
      obtain ⟨rfl, same⟩ := passes _ _ _ ok
      rcases edits.front native with kept | ⟨cut, _⟩
      · simpa only [kept, readMarked, mark, Bool.false_eq_true, if_false] using same _
      · simpa only [cut, readMarked] using same _

private theorem head?_edit {c : Char} (native : Native cs) (head : (edit cs).head? = some c) :
    cs.head? = some c := by
  cases cs with
  | nil => rwa [edits.nil] at head
  | cons b cs =>
    rcases edits.front native with kept | ⟨cut, _⟩
    · rwa [kept] at head
    · rw [cut] at head
      cases head

private theorem readFraction_edit {dropped : Nat}
    (ok : readFraction negative significand dropped cs = .ok (number, rest)) (native : Native rest) :
    readFraction negative significand dropped (edit cs) = .ok (number, edit rest) := by
  by_cases point : cs.head? = some '.'
  · obtain ⟨tail, rfl⟩ := List.head?_eq_some_iff.mp point
    obtain ⟨nonempty, marked⟩ := readFraction_point_iff.mp ok
    have behind := native_of_readMarked (passes_readScaled _ _ _) marked native
    obtain ⟨digits, after⟩ := digits_edit edits behind
    rw [edits.solid rfl, readFraction_point_iff, digits, after]
    exact ⟨nonempty, readMarked_edit edits (passes_readScaled _ _ _) marked native⟩
  · have front := native_of_readFraction ok native
    rw [readFraction_other point] at ok
    rw [readFraction_other fun head => point (head?_edit edits front head)]
    exact readMarked_edit edits (passes_readInteger _ _ _) ok native

private theorem readMagnitude_edit (ok : readMagnitude negative cs = .ok (number, rest))
    (native : Native rest) : readMagnitude negative (edit cs) = .ok (number, edit rest) := by
  unfold readMagnitude at ok
  split at ok
  · cases ok
  · rename_i tail
    split at ok
    · cases ok
    · rename_i single
      have front := native_of_readFraction ok native
      have still : ¬((edit tail).head?.map Char.isDigit).getD false = true := by
        cases head : (edit tail).head? with
        | none => simp
        | some c => simpa [head?_edit edits front head] using single
      simp only [edits.solid (c := '0') rfl, readMagnitude, still]
      exact readFraction_edit edits ok native
  · rename_i c tail noZero
    split at ok
    · rename_i digit
      have front := native_of_readFraction ok native
      obtain ⟨digits, after⟩ := digits_edit edits front
      rw [edits.solid (isSolid_of_isDigit digit)] at digits after ⊢
      rw [readMagnitude]
      · simp only [digit, if_true, digits, after]
        exact readFraction_edit edits ok native
      · exact noZero
    · cases ok

end Magnitudes

/-- The edited text may be shorter, so its loop has a bound of its own. -/
theorem follows_readItemsFrom {item : Reader α} (takes : Takes item) (starts : Starts item)
    (follows : Follows edit exact item) {budget left : Nat} {read read' items : List α}
    {cs rest : List Char} (ok : readItemsFrom item budget read cs = .ok (items, rest))
    (bound : (edit cs).length ≤ left) (same : exact → read' = read) :
    ∃ items', readItemsFrom item left read' (edit cs) = .ok (items', edit rest) ∧
      (exact → items' = items) := by
  induction budget generalizing left read read' cs with
  | zero => cases ok
  | succ budget step =>
    obtain ⟨value, mid, found, next⟩ := readItemsFrom_iff.mp ok
    have behind : Native mid := by
      rcases next with ⟨shape, _⟩ | ⟨_, _, _, shape, _⟩ <;> exact native_of_shape shape rfl
    obtain ⟨value', found', kept⟩ := follows _ _ _ found behind
    have shorter := (takes _ _ _ found').length_lt
    obtain ⟨left, rfl⟩ := Nat.exists_eq_add_of_le' (Nat.one_le_of_lt (shorter.trans_le bound))
    have both : exact → value' :: read' = value :: read := fun exact => by rw [kept exact, same exact]
    rcases next with ⟨shape, rfl⟩ | ⟨tail, c, next, shape, again, other, ok⟩
    · refine ⟨(value' :: read').reverse, readItemsFrom_iff.mpr ?_, fun exact => by rw [both exact]⟩
      exact ⟨value', edit mid, found', .inl ⟨edits.skipSpace_cons shape rfl, rfl⟩⟩
    · have solid : isSolid c = true := starts.readItemsFrom _ _ _ _ (isSpace_of_shape again) ok
      have shape' := edits.skipSpace_cons shape rfl
      have again' := edits.skipSpace_cons again solid
      have fewer : (edit (c :: next)).length ≤ left := by
        have inner := (suffix_of_skipSpace shape').length_le
        have front := (again' ▸ skipSpace_suffix (edit tail)).length_le
        have short := (skipSpace_suffix (edit mid)).length_le
        rw [shape', List.length_cons] at short
        rw [edits.solid solid]
        omega
      obtain ⟨items', later, exactly⟩ := step ok fewer both
      rw [edits.solid solid] at later
      refine ⟨items', readItemsFrom_iff.mpr ?_, exactly⟩
      exact ⟨value', edit mid, found', .inr ⟨edit tail, c, edit next, shape', again', other, later⟩⟩

private theorem follows_readItems {item : Reader α} (takes : Takes item) (starts : Starts item)
    (follows : Follows edit exact item) : Follows edit exact (readItems item) := by
  intro cs items rest ok _
  rcases readItems_iff.mp ok with ⟨shape, rfl⟩ | ⟨c, next, shape, other, ok⟩
  · exact ⟨[], readItems_iff.mpr (.inl ⟨edits.skipSpace_cons shape rfl, rfl⟩), fun _ => rfl⟩
  · have solid : isSolid c = true := starts.readItemsFrom _ _ _ _ (isSpace_of_shape shape) ok
    obtain ⟨items', later, exactly⟩ :=
      follows_readItemsFrom edits takes starts follows ok (Nat.le_refl _) (fun _ => rfl)
    rw [edits.solid solid] at later
    exact ⟨items', readItems_iff.mpr (.inr ⟨c, edit next, edits.skipSpace_cons shape solid, other, later⟩),
      exactly⟩

private theorem follows_readKeyed {value : Reader α} (follows : Follows edit exact value) :
    Follows edit exact (readKeyed value) := by
  intro cs x rest ok native
  obtain ⟨tail, shape, found⟩ := readKeyed_iff.mp ok
  obtain ⟨x', later, exactly⟩ := follows _ _ _ found native
  exact ⟨x', readKeyed_iff.mpr ⟨edit tail, edits.skipSpace_cons shape rfl, later⟩, exactly⟩

private theorem follows_readMembersFrom {value : Reader α} (takes : Takes value)
    (follows : Follows edit exact value) {budget left : Nat} {read read' members : List (String × α)}
    {cs rest : List Char}
    (ok : readMembersFrom (fun _ _ => .ok value) budget read cs = .ok (members, rest))
    (bound : (edit cs).length ≤ left) (same : exact → read' = read) :
    ∃ members', readMembersFrom (fun _ _ => .ok value) left read' (edit cs) =
      .ok (members', edit rest) ∧ (exact → members' = members) := by
  induction budget generalizing left read read' cs with
  | zero => cases ok
  | succ budget step =>
    obtain ⟨key, behindKey, x, mid, named, found, next⟩ := readMembersFrom_iff.mp ok
    have behind : Native mid := by
      rcases next with ⟨shape, _⟩ | ⟨_, _, shape, _⟩ <;> exact native_of_shape shape rfl
    obtain ⟨key', named', sameKey⟩ := edits.string named
    obtain ⟨x', found', sameValue⟩ := follows_readKeyed edits follows _ _ _ found behind
    have shorter := (takes_readString _ _ _ named').length_lt
    have keyed := (takes_readKeyed takes _ _ _ found').length_lt
    obtain ⟨left, rfl⟩ := Nat.exists_eq_add_of_le' (Nat.one_le_of_lt (shorter.trans_le bound))
    have both : exact → (key', x') :: read' = (key, x) :: read := fun exact => by
      rw [sameKey exact, sameValue exact, same exact]
    rcases next with ⟨shape, rfl⟩ | ⟨tail, next, shape, again, ok⟩
    · refine ⟨((key', x') :: read').reverse, readMembersFrom_iff.mpr ?_, fun exact => by rw [both exact]⟩
      exact ⟨key', _, x', edit mid, named', found', .inl ⟨edits.skipSpace_cons shape rfl, rfl⟩⟩
    · have shape' := edits.skipSpace_cons shape rfl
      have again' := edits.skipSpace_cons again rfl
      have fewer : (edit next).length ≤ left := by
        have inner := (suffix_of_skipSpace shape').length_le
        have front := (suffix_of_skipSpace again').length_le
        omega
      obtain ⟨members', later, exactly⟩ := step ok fewer both
      refine ⟨members', readMembersFrom_iff.mpr ?_, exactly⟩
      exact ⟨key', _, x', edit mid, named', found', .inr ⟨edit tail, edit next, shape', again', later⟩⟩

private theorem follows_readMembers {value : Reader α} (takes : Takes value)
    (follows : Follows edit exact value) :
    Follows edit exact (readMembers fun _ _ => .ok value) := by
  intro cs members rest ok _
  rcases readMembers_iff.mp ok with ⟨shape, rfl⟩ | ⟨next, shape, ok⟩
  · exact ⟨[], readMembers_iff.mpr (.inl ⟨edits.skipSpace_cons shape rfl, rfl⟩), fun _ => rfl⟩
  · obtain ⟨members', later, exactly⟩ :=
      follows_readMembersFrom edits takes follows ok (Nat.le_succ _) (fun _ => rfl)
    exact ⟨members', readMembers_iff.mpr (.inr ⟨edit next, edits.skipSpace_cons shape rfl, later⟩),
      exactly⟩

private theorem follows_readString : Follows edit exact readString :=
  fun _ _ _ ok _ => edits.string ok

private theorem follows_readMagnitude (negative : Bool) : Follows edit exact (readMagnitude negative) :=
  fun _ number _ ok native => ⟨number, readMagnitude_edit edits ok native, fun _ => rfl⟩

private theorem follows_readValueWith {list object : Reader Json} (lists : Follows edit exact list)
    (objects : Follows edit exact object) : Follows edit exact (readValueWith list object) := by
  intro cs value rest ok native
  unfold readValueWith at ok
  split at ok
  case h_1 => cases ok
  case h_2 tail shape | h_3 tail shape | h_4 tail shape =>
    obtain ⟨behind, found, same⟩ := except_map_ok ok
    cases same
    have later := readWord_edit edits found rfl
    refine ⟨_, ?_, fun _ => rfl⟩
    simp only [readValueWith, edits.skipSpace_cons shape rfl, later, Except.map]
  case h_5 tail shape =>
    obtain ⟨value', later, exactly⟩ := (follows_readString edits).map _ _ _ _ ok native
    refine ⟨value', ?_, exactly⟩
    simpa only [readValueWith, edits.skipSpace_cons shape rfl] using later
  case h_6 tail shape =>
    obtain ⟨value', later, exactly⟩ := lists _ _ _ ok native
    refine ⟨value', ?_, exactly⟩
    simpa only [readValueWith, edits.skipSpace_cons shape rfl] using later
  case h_7 tail shape =>
    obtain ⟨value', later, exactly⟩ := objects _ _ _ ok native
    refine ⟨value', ?_, exactly⟩
    simpa only [readValueWith, edits.skipSpace_cons shape rfl] using later
  case h_8 tail shape =>
    obtain ⟨value', later, exactly⟩ := (follows_readMagnitude edits true).map _ _ _ _ ok native
    refine ⟨value', ?_, exactly⟩
    simpa only [readValueWith, edits.skipSpace_cons shape rfl] using later
  case h_9 c tail _ _ _ _ _ _ _ shape =>
    split at ok
    · rename_i digit
      obtain ⟨value', later, exactly⟩ := (follows_readMagnitude edits false).map _ _ _ _ ok native
      have solid := isSolid_of_isDigit digit
      have shape' := edits.skipSpace_cons shape solid
      refine ⟨value', ?_, exactly⟩
      rw [edits.solid solid] at later
      rw [← readValueWith_skipSpace, shape', readValueWith_digit _ _ digit]
      exact later
    · cases ok

private theorem follows_readValue (close : List (String × Json) → Json) (depth : Nat) :
    Follows edit exact (readValue close depth) := by
  induction depth with
  | zero =>
    have deep : Follows edit exact tooDeep := fun _ _ _ => nofun
    exact follows_readValueWith edits deep deep
  | succ depth step =>
    have takes := takes_readValue close depth
    have items := follows_readItems edits takes (starts_readValue close depth) step
    exact follows_readValueWith edits (items.map _) ((follows_readMembers edits takes step).map _)

/-- An edited text is accepted wherever the text is. -/
theorem Edit.parse {source : List Char} {value : Json} (ok : Json.parse source = .ok value) :
    ∃ value', Json.parse (edit source) = .ok value' ∧ (exact → value' = value) := by
  obtain ⟨rest, found, ended⟩ := parse_iff.mp ok
  obtain ⟨value', later, exactly⟩ := follows_readValue edits _ _ _ _ _ found (native_of_end ended)
  exact ⟨value', parse_iff.mpr ⟨edit rest, later, edits.skipSpace_nil ended⟩, exactly⟩

end Follows

private theorem edit_trimEnd : Edit Text.trimEnd True where
  nil := rfl
  solid {c} solid cs := by
    have stays : Text.isBlank c = false := by
      simp only [isSolid, Bool.and_eq_true, Bool.not_eq_true'] at solid
      exact solid.2
    exact Text.dropEndWhile_append_cons stays [] cs
  space {c} space cs := by
    have blank := isBlank_of_isSpace space
    by_cases all : ∀ b ∈ cs, Text.isBlank b = true
    · refine .inr ⟨?_, all⟩
      exact Text.dropEndWhile_append_of_all (List.forall_mem_cons.mpr ⟨blank, all⟩) []
    · obtain ⟨b, inside, stays⟩ : ∃ b ∈ cs, Text.isBlank b = false := by simpa using all
      obtain ⟨u, v, rfl⟩ := List.append_of_mem inside
      left
      rw [Text.trimEnd, Text.trimEnd, ← List.cons_append, Text.dropEndWhile_append_cons stays,
        Text.dropEndWhile_append_cons stays, List.cons_append]
  string {cs rest value} ok := by
    obtain ⟨text, content, spells, rfl, rfl⟩ := readString_iff.mp ok
    refine ⟨_, ?_, fun _ => rfl⟩
    rw [Text.trimEnd, Text.dropEndWhile_append_cons rfl]
    exact readString_iff.mpr ⟨text, content, spells, rfl, rfl⟩

/-- In front of a value stands nothing but space. -/
theorem trimStart_eq_skipSpace {cs : List Char} (solid : ∃ c tail, skipSpace cs = c :: tail ∧
    isSolid c = true) : Text.trimStart cs = skipSpace cs := by
  induction cs with
  | nil => rfl
  | cons c cs step =>
    by_cases space : isSpace c = true
    · rw [skipSpace, List.dropWhile_cons_of_pos space] at solid ⊢
      rw [Text.trimStart, List.dropWhile_cons_of_pos (isBlank_of_isSpace space)]
      exact step solid
    · rw [skipSpace, List.dropWhile_cons_of_neg space] at solid ⊢
      obtain ⟨_, _, same, stays⟩ := solid
      obtain ⟨rfl, rfl⟩ := List.cons.inj same
      simp only [isSolid, Bool.and_eq_true, Bool.not_eq_true'] at stays
      rw [Text.trimStart, List.dropWhile_cons_of_neg (by simp [stays.2])]

private theorem parse_trimStart {cs : List Char} {value : Json} (ok : parse cs = .ok value) :
    parse (Text.trimStart cs) = .ok value := by
  obtain ⟨rest, found, ended⟩ := parse_iff.mp ok
  have skipped : readValue object depthLimit (skipSpace cs) =
      .ok (value, rest) := by rwa [depthLimit, readValue, readValueWith_skipSpace]
  rw [trimStart_eq_skipSpace, parse_iff]
  · exact ⟨rest, skipped, ended⟩
  · cases shape : skipSpace cs with
    | nil =>
      rw [shape] at skipped
      cases skipped
    | cons c tail =>
      rw [shape] at skipped
      have noSpace := isSpace_of_shape shape
      exact ⟨c, tail, rfl, starts_readValue _ _ _ _ _ _ noSpace skipped⟩

theorem parse_trim {cs : List Char} {value : Json} (ok : parse cs = .ok value) :
    parse (Text.trim cs) = .ok value := by
  obtain ⟨value', found, exactly⟩ := edit_trimEnd.parse (parse_trimStart ok)
  rw [Text.trim, found, exactly trivial]

end UiPlan.Json
