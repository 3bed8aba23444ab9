import UiPlan.Text.Escape
import UiPlan.Text.Lines
import UiPlan.Text.Reference

/-! Escaped text is inert, and decoding undoes it. Every ampersand in an escaped text
starts one of the references that escaping writes, so the decoder never meets anything
else and takes the text piece by piece. All lemmas on the decoder leave open what
follows the text.
-/
namespace UiPlan.Text

def isInert (c : Char) : Bool :=
  c ≠ '<' && c ≠ '>' && c ≠ '"' && c ≠ '\'' && c ≠ '{' && c ≠ '}' && c ≠ '\n' && c ≠ '\r'

theorem reference?_append {name : List Char} (short : name.length < 10) (plain : ';' ∉ name)
    (rest : List Char) :
    reference? (name ++ ';' :: rest) = (namedChar? name).map (·, name.length + 1) := by
  have window : (name ++ ';' :: rest).take 10 = name ++ ';' :: rest.take (9 - name.length) := by
    rw [List.take_append, List.take_of_length_le (by omega)]
    obtain ⟨left, same⟩ : ∃ left, 10 - name.length = left + 1 := ⟨9 - name.length, by omega⟩
    rw [same, List.take_succ_cons, show left = 9 - name.length by omega]
  have taken : (name ++ ';' :: rest.take (9 - name.length)).takeWhile (· ≠ ';') = name := by
    rw [List.takeWhile_append_of_pos (by intro c inside; simp; rintro rfl; exact plain inside)]
    simp
  simp only [reference?, window, taken]
  rw [if_pos (by simp)]

private theorem decodeFrom_skip (read rest : List Char) :
    decodeFrom read.length (read ++ rest) = decodeFrom 0 rest := by
  induction read with
  | nil => rfl
  | cons c read step => exact step

theorem decodeFrom_reference (name : List Char) {c : Char}
    (fits : (decide (name.length < 10) && !name.contains ';') = true)
    (named : namedChar? name = some c) (rest : List Char) :
    decodeFrom 0 ('&' :: (name ++ ';' :: rest)) = c :: decodeFrom 0 rest := by
  have skipped := decodeFrom_skip (name ++ [';']) rest
  simp only [List.length_append, List.length_singleton, List.append_assoc,
    List.singleton_append] at skipped
  have window : name.length < 10 ∧ ';' ∉ name := by simpa using fits
  simp only [decodeFrom, reference?_append window.1 window.2, named, Option.map_some, if_true]
  rw [skipped]

theorem decodeFrom_cons {c : Char} (plain : c ≠ '&') (rest : List Char) :
    decodeFrom 0 (c :: rest) = c :: decodeFrom 0 rest := by
  simp [decodeFrom, plain]

theorem decodeFrom_escapeChar (c : Char) (rest : List Char) :
    decodeFrom 0 (escapeChar c ++ rest) = c :: decodeFrom 0 rest := by
  unfold escapeChar
  split
  · exact decodeFrom_reference ['a', 'm', 'p'] rfl rfl rest
  · exact decodeFrom_reference ['l', 't'] rfl rfl rest
  · exact decodeFrom_reference ['g', 't'] rfl rfl rest
  · exact decodeFrom_reference ['q', 'u', 'o', 't'] rfl rfl rest
  · exact decodeFrom_reference ['#', '0', '3', '9'] rfl rfl rest
  · exact decodeFrom_reference ['#', '1', '2', '3'] rfl rfl rest
  · exact decodeFrom_reference ['#', '1', '2', '5'] rfl rfl rest
  · exact decodeFrom_reference ['#', '1', '0'] rfl rfl rest
  · exact decodeFrom_reference ['#', '1', '3'] rfl rfl rest
  · rename_i other _ _ _ _ _ _ _ _
    exact decodeFrom_cons other rest

private theorem decodeFrom_edgeReference {c : Char} (edge : isEdge c = true) (rest : List Char) :
    decodeFrom 0 (edgeReference c ++ rest) = c :: decodeFrom 0 rest := by
  by_cases tab : c = '\t'
  · subst tab
    exact decodeFrom_reference ['#', '9'] rfl rfl rest
  · have space : c = ' ' := by simpa [isEdge, tab] using edge
    subst space
    exact decodeFrom_reference ['#', '3', '2'] rfl rfl rest

/-- If the piece that is written for each character decodes to one character, a whole
text decodes to those. -/
theorem decodeFrom_flatMap {write : Char → List Char} (read : Char → Char) (cs : List Char)
    (each : ∀ c ∈ cs, ∀ rest, decodeFrom 0 (write c ++ rest) = read c :: decodeFrom 0 rest)
    (rest : List Char) :
    decodeFrom 0 (cs.flatMap write ++ rest) = cs.map read ++ decodeFrom 0 rest := by
  induction cs with
  | nil => rfl
  | cons c cs step =>
    rw [List.flatMap_cons, List.append_assoc, each c (by simp), List.map_cons, List.cons_append,
      step fun d inside => each d (by simp [inside])]

theorem decodeFrom_escape (cs rest : List Char) :
    decodeFrom 0 (escape cs ++ rest) = cs ++ decodeFrom 0 rest := by
  have decoded := decodeFrom_flatMap id cs (fun c _ rest => decodeFrom_escapeChar c rest) rest
  simpa [escape] using decoded

theorem decodeFrom_edges {cs : List Char} (edges : ∀ c ∈ cs, isEdge c = true) (rest : List Char) :
    decodeFrom 0 (cs.flatMap edgeReference ++ rest) = cs ++ decodeFrom 0 rest := by
  have decoded := decodeFrom_flatMap id cs
    (fun c inside rest => decodeFrom_edgeReference (edges c inside) rest) rest
  simpa using decoded

/-- Decoding undoes the escaping of markup. -/
theorem decode_escape (cs : List Char) : decode (escape cs) = cs := by
  have decoded := decodeFrom_escape cs []
  simpa [decode, decodeFrom] using decoded

def leadingEdge (cs : List Char) : List Char := cs.takeWhile isEdge

def middle (cs : List Char) : List Char := dropEndWhile isEdge (cs.dropWhile isEdge)

def trailingEdge (cs : List Char) : List Char := takeEndWhile isEdge (cs.dropWhile isEdge)

theorem dropEndWhile_append_takeEndWhile (p : Char → Bool) (cs : List Char) :
    dropEndWhile p cs ++ takeEndWhile p cs = cs := by
  rw [dropEndWhile, takeEndWhile, ← List.reverse_append, List.takeWhile_append_dropWhile,
    List.reverse_reverse]

theorem parts_append (cs : List Char) : leadingEdge cs ++ middle cs ++ trailingEdge cs = cs := by
  rw [List.append_assoc, middle, trailingEdge, dropEndWhile_append_takeEndWhile, leadingEdge,
    List.takeWhile_append_dropWhile]

theorem escapeContent_eq (cs : List Char) :
    escapeContent cs = (leadingEdge cs).flatMap edgeReference ++ escape (middle cs) ++
      (trailingEdge cs).flatMap edgeReference := rfl

theorem isEdge_of_mem_leadingEdge {c : Char} {cs : List Char} (inside : c ∈ leadingEdge cs) :
    isEdge c = true := List.all_eq_true.mp List.all_takeWhile c inside

theorem isEdge_of_mem_trailingEdge {c : Char} {cs : List Char} (inside : c ∈ trailingEdge cs) :
    isEdge c = true := by
  rw [trailingEdge, takeEndWhile, List.mem_reverse] at inside
  exact List.all_eq_true.mp List.all_takeWhile c inside

/-- A text as it is shown between tags: spaces and tabs at its two ends stay, and every
other tab is a space. -/
def shown (cs : List Char) : List Char :=
  leadingEdge cs ++ (middle cs).map untab ++ trailingEdge cs

private theorem untab_escapeChar (c : Char) : (escapeChar c).map untab = escapeChar (untab c) := by
  by_cases tab : c = '\t'
  · subst tab
    rfl
  · rw [show untab c = c by simp [untab, tab]]
    unfold escapeChar
    split <;> first | rfl | simp [untab, tab]

private theorem untab_edgeReference (c : Char) : (edgeReference c).map untab = edgeReference c := by
  unfold edgeReference
  split <;> rfl

/-- What cleaning makes of escaped content is decoded to the text as it is shown. -/
theorem decodeFrom_escapeContent (cs rest : List Char) :
    decodeFrom 0 ((escapeContent cs).map untab ++ rest) = shown cs ++ decodeFrom 0 rest := by
  have inner := fun rest => decodeFrom_flatMap untab (middle cs)
    (fun c _ rest => decodeFrom_escapeChar (untab c) rest) rest
  simp only [escapeContent_eq, escape, List.map_append, List.map_flatMap, untab_edgeReference,
    untab_escapeChar, List.append_assoc]
  rw [decodeFrom_edges fun _ inside => isEdge_of_mem_leadingEdge inside, inner,
    decodeFrom_edges fun _ inside => isEdge_of_mem_trailingEdge inside]
  simp [shown]

private theorem all_isInert_escapeChar (c : Char) : (escapeChar c).all isInert = true := by
  unfold escapeChar
  split
  case h_10 less greater quote apostrophe opening closing feed carriage =>
    simp_all [isInert]
  all_goals rfl

theorem all_isInert_escape (cs : List Char) : (escape cs).all isInert = true := by
  simp [escape, List.all_flatMap, all_isInert_escapeChar]

private theorem all_isInert_edgeReferences (cs : List Char) :
    (cs.flatMap edgeReference).all isInert = true := by
  rw [List.all_flatMap, List.all_eq_true]
  intro c _
  unfold edgeReference
  split <;> rfl

theorem all_isInert_escapeContent (cs : List Char) : (escapeContent cs).all isInert = true := by
  simp only [escapeContent_eq, List.all_append, all_isInert_escape, all_isInert_edgeReferences,
    Bool.and_self]

theorem not_mem_of_all_isInert {c : Char} {cs : List Char} (marked : isInert c = false)
    (inert : cs.all isInert = true) : c ∉ cs := by
  intro inside
  rw [List.all_eq_true.mp inert c inside] at marked
  contradiction

def Fixed : List Char → Prop
  | [] => False
  | c :: _ => isEdge c = false

theorem Fixed.append {cs : List Char} (fixed : Fixed cs) (rest : List Char) : Fixed (cs ++ rest) := by
  cases cs with
  | nil => exact fixed.elim
  | cons c cs => exact fixed

theorem fixed_flatMap {write : Char → List Char} {c : Char} {cs : List Char}
    (fixed : Fixed (write c)) : Fixed ((c :: cs).flatMap write) := by
  rw [List.flatMap_cons]
  exact fixed.append _

private theorem fixed_edgeReference (c : Char) : Fixed (edgeReference c) := by
  unfold edgeReference
  split <;> rfl

theorem fixed_reverse_edgeReference (c : Char) : Fixed (edgeReference c).reverse := by
  unfold edgeReference
  split <;> rfl

private theorem fixed_escapeChar {c : Char} (inner : isEdge c = false) : Fixed (escapeChar c) := by
  unfold escapeChar
  split
  case h_10 => exact inner
  all_goals rfl

private theorem fixed_reverse_escapeChar {c : Char} (inner : isEdge c = false) :
    Fixed (escapeChar c).reverse := by
  unfold escapeChar
  split
  case h_10 => exact inner
  all_goals rfl

theorem isEdge_head_dropWhile {c : Char} {cs rest : List Char}
    (left : cs.dropWhile isEdge = c :: rest) : isEdge c = false := by
  have first := List.head?_dropWhile_not isEdge cs
  simpa [left] using first

private theorem isEdge_head_middle {c : Char} {cs rest : List Char} (left : middle cs = c :: rest) :
    isEdge c = false := by
  have whole := dropEndWhile_append_takeEndWhile isEdge (cs.dropWhile isEdge)
  rw [← middle, left, List.cons_append] at whole
  exact isEdge_head_dropWhile whole.symm

private theorem isEdge_head_reverse_middle {c : Char} {cs rest : List Char}
    (left : (middle cs).reverse = c :: rest) : isEdge c = false := by
  rw [middle, dropEndWhile, List.reverse_reverse] at left
  exact isEdge_head_dropWhile left

theorem leadingEdge_of_middle_nil {cs : List Char} (empty : middle cs = []) :
    leadingEdge cs = cs ∧ trailingEdge cs = [] := by
  have whole := parts_append cs
  cases left : cs.dropWhile isEdge with
  | nil =>
    have noTrailing : trailingEdge cs = [] := by simp [trailingEdge, left, takeEndWhile]
    rw [empty, noTrailing] at whole
    exact ⟨by simpa using whole, noTrailing⟩
  | cons c rest =>
    have all := dropEndWhile_append_takeEndWhile isEdge (cs.dropWhile isEdge)
    rw [← middle, empty, ← trailingEdge, List.nil_append, left] at all
    have edge := isEdge_of_mem_trailingEdge (show c ∈ trailingEdge cs by simp [all])
    rw [isEdge_head_dropWhile left] at edge
    contradiction

/-- Escaped content begins with a character that is no space, since spaces and tabs at its front are
written as references. -/
theorem fixed_escapeContent {cs : List Char} (nonempty : cs ≠ []) : Fixed (escapeContent cs) := by
  rw [escapeContent_eq, List.append_assoc]
  cases lead : leadingEdge cs with
  | cons c rest => exact (fixed_flatMap (fixed_edgeReference c)).append _
  | nil =>
    cases inner : middle cs with
    | nil => exact absurd ((leadingEdge_of_middle_nil inner).1.symm.trans lead) nonempty
    | cons c rest =>
      exact (fixed_flatMap (fixed_escapeChar (isEdge_head_middle inner))).append _

theorem fixed_reverse_escapeContent {cs : List Char} (nonempty : cs ≠ []) :
    Fixed (escapeContent cs).reverse := by
  simp only [escapeContent_eq, escape, List.reverse_append, List.reverse_flatMap, List.append_assoc]
  cases trail : (trailingEdge cs).reverse with
  | cons c rest => exact (fixed_flatMap (fixed_reverse_edgeReference c)).append _
  | nil =>
    cases inner : (middle cs).reverse with
    | cons c rest =>
      exact (fixed_flatMap (fixed_reverse_escapeChar (isEdge_head_reverse_middle inner))).append _
    | nil =>
      rw [(leadingEdge_of_middle_nil (List.reverse_eq_nil_iff.mp inner)).1]
      cases back : cs.reverse with
      | cons c rest => exact fixed_flatMap (fixed_reverse_edgeReference c)
      | nil => exact absurd (List.reverse_eq_nil_iff.mp back) nonempty

end UiPlan.Text
