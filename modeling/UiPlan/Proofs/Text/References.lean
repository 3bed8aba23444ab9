import UiPlan.Proofs.Text.Cleaning

/-! What escaped text looks like, and what it decodes to. It holds no character that means something
in markup, and no ampersand but those of the references that escaping writes, so it can stand among
other escaped texts and the decoder still takes each of them as it was. The spaces between two of
them decode to themselves.
-/
namespace UiPlan.Text

def markupReferences : List (List Char) :=
  ["&amp;", "&lt;", "&gt;", "&quot;", "&#039;", "&#123;", "&#125;", "&#10;", "&#13;"].map
    String.toList

def edgeReferences : List (List Char) := ["&#32;", "&#9;"].map String.toList

/-- Whether every ampersand of the text starts one of the references. -/
def refersOnly (references : List (List Char)) : List Char → Bool
  | [] => true
  | c :: rest =>
    (c ≠ '&' || references.any (·.isPrefixOf (c :: rest))) && refersOnly references rest

section References

variable {references : List (List Char)}

theorem refersOnly_append {front back : List Char} (before : refersOnly references front = true)
    (behind : refersOnly references back = true) : refersOnly references (front ++ back) = true := by
  induction front with
  | nil => exact behind
  | cons c rest step =>
    simp only [refersOnly, Bool.and_eq_true] at before
    obtain ⟨here, later⟩ := before
    simp only [List.cons_append, refersOnly, step later, Bool.and_true]
    -- A reference that starts here ends within the front part.
    by_cases plain : c = '&'
    · simp only [plain, ne_eq, not_true, decide_false, Bool.false_or, List.any_eq_true,
        List.isPrefixOf_iff_prefix] at here ⊢
      obtain ⟨reference, known, starts⟩ := here
      exact ⟨reference, known, starts.trans (List.prefix_append _ _)⟩
    · simp [plain]

theorem refersOnly_flatMap {write : Char → List Char} {cs : List Char}
    (each : ∀ c ∈ cs, refersOnly references (write c) = true) :
    refersOnly references (cs.flatMap write) = true := by
  induction cs with
  | nil => rfl
  | cons c cs step =>
    obtain ⟨here, later⟩ := List.forall_mem_cons.mp each
    exact refersOnly_append here (step later)

theorem refersOnly_mono {more : List (List Char)} {cs : List Char}
    (included : ∀ reference ∈ references, reference ∈ more)
    (refers : refersOnly references cs = true) : refersOnly more cs = true := by
  induction cs with
  | nil => rfl
  | cons c cs step =>
    simp only [refersOnly, Bool.and_eq_true, Bool.or_eq_true, List.any_eq_true] at refers ⊢
    obtain ⟨here, later⟩ := refers
    refine ⟨here.imp_right ?_, step later⟩
    rintro ⟨reference, known, starts⟩
    exact ⟨reference, included reference known, starts⟩

end References

private theorem refersOnly_escapeChar (c : Char) : refersOnly markupReferences (escapeChar c) = true := by
  unfold escapeChar
  split
  case h_10 plain _ _ _ _ _ _ _ _ => simpa [refersOnly] using .inl plain
  all_goals decide

private theorem refersOnly_edgeReference (c : Char) : refersOnly edgeReferences (edgeReference c) = true := by
  unfold edgeReference
  split <;> decide

theorem refersOnly_escape (cs : List Char) : refersOnly markupReferences (escape cs) = true :=
  refersOnly_flatMap fun c _ => refersOnly_escapeChar c

theorem refersOnly_edges (cs : List Char) :
    refersOnly (markupReferences ++ edgeReferences) (cs.flatMap edgeReference) = true := by
  have refers : refersOnly edgeReferences (cs.flatMap edgeReference) = true :=
    refersOnly_flatMap fun c _ => refersOnly_edgeReference c
  exact refersOnly_mono (fun _ known => List.mem_append_right _ known) refers

private theorem refersOnly_escapeContent (cs : List Char) :
    refersOnly (markupReferences ++ edgeReferences) (escapeContent cs) = true := by
  rw [escapeContent_eq]
  apply refersOnly_append
  · apply refersOnly_append (refersOnly_edges _)
    exact refersOnly_mono (fun _ known => List.mem_append_left _ known) (refersOnly_escape _)
  · exact refersOnly_edges _

def markupChars : List Char := ['<', '>', '"', '\'', '{', '}', '\n', '\r']

theorem isInert_of_mem_markupChars {c : Char} (known : c ∈ markupChars) : isInert c = false := by
  have active : markupChars.all (fun c => !isInert c) = true := by decide
  simpa using List.all_eq_true.mp active c known

theorem Fixed.head?_ne {cs : List Char} (fixed : Fixed cs) : ∀ c ∈ cs.head?, isEdge c = false := by
  intro c first
  cases cs with
  | nil => exact fixed.elim
  | cons head rest =>
    obtain rfl := Option.some.inj first
    exact fixed

private theorem isEdge_head_escapeContent (cs : List Char) :
    ∀ c ∈ (escapeContent cs).head?, isEdge c = false := by
  cases cs with
  | nil => simp [escapeContent, dropEndWhile, takeEndWhile, escape]
  | cons c rest => exact (fixed_escapeContent (by simp)).head?_ne

private theorem isEdge_getLast_escapeContent (cs : List Char) :
    ∀ c ∈ (escapeContent cs).getLast?, isEdge c = false := by
  cases cs with
  | nil => simp [escapeContent, dropEndWhile, takeEndWhile, escape]
  | cons c rest =>
    rw [← List.head?_reverse]
    exact (fixed_reverse_escapeContent (by simp)).head?_ne

private theorem escapeContent_eq_nil_iff (cs : List Char) : escapeContent cs = [] ↔ cs = [] := by
  cases cs with
  | nil => exact iff_of_true rfl rfl
  | cons c rest =>
    have fixed : Fixed (escapeContent (c :: rest)) := fixed_escapeContent (by simp)
    refine iff_of_false (fun empty => ?_) (by simp)
    rw [empty] at fixed
    exact fixed

private theorem decodeFrom_escapeContent_append (cs rest : List Char) :
    decodeFrom 0 (escapeContent cs ++ rest) = cs ++ decodeFrom 0 rest := by
  rw [escapeContent_eq, List.append_assoc, List.append_assoc,
    decodeFrom_edges fun _ inside => isEdge_of_mem_leadingEdge inside, decodeFrom_escape,
    decodeFrom_edges fun _ inside => isEdge_of_mem_trailingEdge inside]
  simp only [← List.append_assoc, parts_append]

theorem decode_intercalate_escapeContent (items : List (List Char)) :
    decode ([' '].intercalate (items.map escapeContent)) = [' '].intercalate items := by
  simp only [decode]
  induction items with
  | nil => rfl
  | cons item items step =>
    rw [List.map_cons, intercalate_cons, intercalate_cons, List.append_assoc, List.append_assoc,
      decodeFrom_escapeContent_append]
    cases items with
    | nil => rfl
    | cons next items =>
      simp only [List.map_cons, reduceCtorEq, if_false, List.singleton_append] at step ⊢
      rw [decodeFrom_cons (by decide), step]

/-- Decoding undoes both ways of escaping, also for several texts with spaces between them. Escaped
text holds nothing that means something in markup, each ampersand in it starts a reference that
escaping writes, and content text has neither a space nor a tab at its ends. -/
theorem decode_undoes_inert_escape (cs : List Char) (items : List (List Char)) :
    decode (escape cs) = cs ∧ decode (escapeContent cs) = cs ∧
      decode ([' '].intercalate (items.map escapeContent)) = [' '].intercalate items ∧
      (∀ c ∈ markupChars, c ∉ escape cs ∧ c ∉ escapeContent cs) ∧
      refersOnly markupReferences (escape cs) = true ∧
      refersOnly (markupReferences ++ edgeReferences) (escapeContent cs) = true ∧
      (∀ c ∈ [' ', '\t'], (escapeContent cs).head? ≠ some c ∧ (escapeContent cs).getLast? ≠ some c) ∧
      (escapeContent cs = [] ↔ cs = []) := by
  have alone : decode (escapeContent cs) = cs := by
    simpa using decode_intercalate_escapeContent [cs]
  refine ⟨decode_escape cs, alone, decode_intercalate_escapeContent items, ?_, refersOnly_escape cs,
    refersOnly_escapeContent cs, ?_, escapeContent_eq_nil_iff cs⟩
  · intro c known
    constructor
    · exact not_mem_of_all_isInert (isInert_of_mem_markupChars known) (all_isInert_escape cs)
    · exact not_mem_of_all_isInert (isInert_of_mem_markupChars known) (all_isInert_escapeContent cs)
  · intro c edge
    have isEdge : isEdge c = true := by simpa [Text.isEdge] using edge
    constructor
    · intro first
      rw [isEdge_head_escapeContent cs c first] at isEdge
      contradiction
    · intro last
      rw [isEdge_getLast_escapeContent cs c last] at isEdge
      contradiction

end UiPlan.Text
