import UiPlan.Proofs.Text.Escaping

/-! Cleaned text as a list of lines. What cleaning keeps is a list of lines, one for each
line that is not blank, and the cleaned text is these lines with single spaces between
them. For the lines that markup is written in, the kept lines are the contents without
their indentation.
-/
namespace UiPlan.Text

def isOneLine (cs : List Char) : Bool := cs.all fun c => c ≠ '\n' && c ≠ '\r'

private theorem lines_cons {c : Char} (plain : c ≠ '\n') (other : c ≠ '\r') (rest : List Char) :
    lines (c :: rest) = match lines rest with
      | line :: more => (c :: line) :: more
      | [] => [[c]] := by
  rw [lines.eq_def]
  split
  · contradiction
  · exact absurd (List.cons.inj ‹_›).1 other
  · rename_i same
    obtain ⟨rfl, rfl⟩ := List.cons.inj same
    cases lines rest <;> simp [plain, other]

theorem lines_append {cs rest first : List Char} {more : List (List Char)}
    (one : isOneLine cs = true) (behind : lines rest = first :: more) :
    lines (cs ++ rest) = (cs ++ first) :: more := by
  induction cs with
  | nil => exact behind
  | cons c cs step =>
    simp only [isOneLine, List.all_cons, Bool.and_eq_true, decide_eq_true_eq] at one step
    rw [List.cons_append, lines_cons one.1.1 one.1.2, step one.2, List.cons_append]

theorem lines_of_isOneLine {cs : List Char} (one : isOneLine cs = true) : lines cs = [cs] := by
  have nothing : lines [] = [[]] := rfl
  simpa using lines_append one nothing

theorem lines_append_feed {cs : List Char} (one : isOneLine cs = true) (rest : List Char) :
    lines (cs ++ '\n' :: rest) = cs :: lines rest := by
  have fed : lines ('\n' :: rest) = [] :: lines rest := rfl
  rw [lines_append one fed, List.append_nil]

theorem mem_dropWhile {p : Char → Bool} {c : Char} {cs : List Char} (inside : c ∈ cs)
    (stays : p c = false) : c ∈ cs.dropWhile p := by
  rw [← List.takeWhile_append_dropWhile (p := p) (l := cs), List.mem_append] at inside
  rcases inside with taken | left
  · rw [List.all_eq_true.mp List.all_takeWhile c taken] at stays
    contradiction
  · exact left

theorem mem_dropEndWhile {p : Char → Bool} {c : Char} {cs : List Char} (inside : c ∈ cs)
    (stays : p c = false) : c ∈ dropEndWhile p cs := by
  rw [dropEndWhile, List.mem_reverse]
  exact mem_dropWhile (List.mem_reverse.mpr inside) stays

private theorem dropWhile_eq_nil_of_all {p : Char → Bool} {cs : List Char} (all : cs.all p = true) :
    cs.dropWhile p = [] := by
  have whole : (cs ++ []).dropWhile p = [] := List.dropWhile_append_of_pos (List.all_eq_true.mp all)
  simpa using whole

private theorem dropEndWhile_eq_nil_of_all {p : Char → Bool} {cs : List Char} (all : cs.all p = true) :
    dropEndWhile p cs = [] := by
  rw [dropEndWhile, dropWhile_eq_nil_of_all (by simpa using all), List.reverse_nil]

private theorem cleanLine_ne_nil {first last : Bool} {line : List Char} (full : isBlankLine line = false) :
    cleanLine first last line ≠ [] := by
  obtain ⟨c, inside, plain⟩ : ∃ c ∈ line, ¬(c = ' ' ∨ c = '\t') := by
    simpa [isBlankLine] using full
  have here : c ∈ line.map untab := List.mem_map.mpr ⟨c, inside, by simp_all [untab]⟩
  have stays : isSpaceChar c = false := by simp_all [isSpaceChar]
  have left : c ∈ (if first then line.map untab else (line.map untab).dropWhile isSpaceChar) := by
    split
    · exact here
    · exact mem_dropWhile here stays
  cases last with
  | true => exact List.ne_nil_of_mem left
  | false => exact List.ne_nil_of_mem (mem_dropEndWhile left stays)

private theorem cleanLine_eq_nil {first last : Bool} {line : List Char} (blank : isBlankLine line = true)
    (inner : (first && last) = false) : cleanLine first last line = [] := by
  have spaces : (line.map untab).all isSpaceChar = true := by
    simp only [isBlankLine, List.all_eq_true, List.all_map] at blank ⊢
    intro c inside
    have either := blank c inside
    simp only [Bool.or_eq_true, decide_eq_true_eq] at either
    rcases either with rfl | rfl <;> rfl
  cases first with
  | false =>
    have dropped := dropWhile_eq_nil_of_all spaces
    cases last <;> simp [cleanLine, dropped, dropEndWhile]
  | true =>
    have last : last = false := by simpa using inner
    subst last
    simp [cleanLine, dropEndWhile_eq_nil_of_all spaces]

def keptLines (first : Bool) : List (List Char) → List (List Char)
  | [] => []
  | line :: rest =>
    if isBlankLine line then keptLines false rest
    else cleanLine first rest.isEmpty line :: keptLines false rest

theorem keptLines_eq_nil_iff (first : Bool) (all : List (List Char)) :
    keptLines first all = [] ↔ all.all isBlankLine = true := by
  induction all generalizing first with
  | nil => simp [keptLines]
  | cons line rest step =>
    cases blank : isBlankLine line
    · simp [keptLines, blank]
    · simp only [keptLines, blank, if_true, step, List.all_cons, Bool.true_and]

theorem intercalate_cons (separator first : List Char) (rest : List (List Char)) :
    separator.intercalate (first :: rest) =
      first ++ (if rest = [] then [] else separator) ++ separator.intercalate rest := by
  cases rest <;> simp

/-- Cleaning joins the kept lines, unless the only line there is happens to be blank. -/
theorem cleanLines_eq_intercalate {first : Bool} {all : List (List Char)}
    (inner : first = true → all.all isBlankLine = false) :
    cleanLines first all = [' '].intercalate (keptLines first all) := by
  induction all generalizing first with
  | nil => rfl
  | cons line rest step =>
    have behind : cleanLines false rest = [' '].intercalate (keptLines false rest) := step (by simp)
    cases blank : isBlankLine line with
    | true =>
      -- A blank line keeps its spaces only as the first and last line at once.
      have both : (first && rest.isEmpty) = false := by
        cases first with
        | false => rfl
        | true =>
          cases rest with
          | nil => simp [blank] at inner
          | cons _ _ => rfl
      simp only [cleanLines, cleanLine_eq_nil blank both, List.isEmpty_nil, if_true, keptLines, blank,
        behind]
    | false =>
      have full : (cleanLine first rest.isEmpty line).isEmpty = false := by
        simpa using cleanLine_ne_nil blank
      have same : rest.all isBlankLine = true ↔ keptLines false rest = [] :=
        (keptLines_eq_nil_iff false rest).symm
      simp only [cleanLines, full, keptLines, blank, intercalate_cons, behind, same, Bool.false_eq_true,
        if_false]

/-- Cleaning puts single spaces between the kept lines; without any there is nothing left. -/
theorem clean?_eq (raw : List Char) :
    clean? raw = match keptLines true (lines raw) with
      | [] => none
      | kept => some ([' '].intercalate kept) := by
  unfold clean?
  by_cases blank : (lines raw).all isBlankLine = true
  · rw [if_pos blank, (keptLines_eq_nil_iff true _).mpr blank]
  · have nonempty : keptLines true (lines raw) ≠ [] := fun empty => blank ((keptLines_eq_nil_iff true _).mp empty)
    rw [if_neg blank, cleanLines_eq_intercalate (by simpa using blank)]
    split
    · contradiction
    · rfl

private theorem isOneLine_of_all_isInert {cs : List Char} (inert : cs.all isInert = true) :
    isOneLine cs = true := by
  simp only [isOneLine, List.all_eq_true] at inert ⊢
  intro c inside
  have plain := inert c inside
  simp_all [isInert]

theorem isOneLine_escapeContent (cs : List Char) : isOneLine (escapeContent cs) = true :=
  isOneLine_of_all_isInert (all_isInert_escapeContent cs)

private theorem isOneLine_indented (n : Nat) (cs : List Char) :
    isOneLine (List.replicate n ' ' ++ escapeContent cs) = true := by
  have one := isOneLine_escapeContent cs
  simp only [isOneLine, List.all_append, List.all_replicate] at one ⊢
  rw [one]
  simp

private theorem Fixed.not_blank {cs : List Char} (fixed : Fixed cs) : isBlankLine cs = false := by
  cases cs with
  | nil => exact fixed.elim
  | cons c cs =>
    have plain : isEdge c = false := fixed
    rw [isEdge] at plain
    rw [isBlankLine, List.all_cons, plain, Bool.false_and]

private theorem isBlankLine_indented (n : Nat) (cs : List Char) :
    isBlankLine (List.replicate n ' ' ++ cs) = isBlankLine cs := by
  simp [isBlankLine]

theorem isBlankLine_escapeContent (cs : List Char) :
    isBlankLine (escapeContent cs) = cs.isEmpty := by
  cases cs with
  | nil => rfl
  | cons c cs => exact (fixed_escapeContent (by simp)).not_blank

theorem Fixed.dropWhile_untab {cs : List Char} (fixed : Fixed cs) :
    (cs.map untab).dropWhile isSpaceChar = cs.map untab := by
  cases cs with
  | nil => rfl
  | cons c cs =>
    have plain : isEdge c = false := fixed
    have stays : isSpaceChar (untab c) = false := by
      simp_all [isEdge, isSpaceChar, untab]
    rw [List.map_cons, List.dropWhile_cons_of_neg (by simp [stays])]

theorem cleanLine_indented {first last : Bool} (n : Nat) {cs : List Char} (nonempty : cs ≠ [])
    (inner : first = false ∨ n = 0) :
    cleanLine first last (List.replicate n ' ' ++ escapeContent cs) =
      (escapeContent cs).map untab := by
  have front := (fixed_escapeContent nonempty).dropWhile_untab
  have back : dropEndWhile isSpaceChar ((escapeContent cs).map untab) =
      (escapeContent cs).map untab := by
    rw [dropEndWhile, ← List.map_reverse, (fixed_reverse_escapeContent nonempty).dropWhile_untab,
      List.map_reverse, List.reverse_reverse]
  have spaces : (List.replicate n ' ').map untab = List.replicate n ' ' := by
    simp [untab]
  have stripped : (List.replicate n ' ' ++ (escapeContent cs).map untab).dropWhile isSpaceChar =
      (escapeContent cs).map untab := by
    rw [List.dropWhile_append_of_pos (by simp [isSpaceChar]), front]
  unfold cleanLine
  rw [List.map_append, spaces]
  rcases inner with rfl | rfl
  · cases last <;> simp [stripped, back]
  · cases first <;> cases last <;> simp [front, back]

def writtenLines (n : Nat) (items : List (List Char)) : List Char :=
  items.flatMap fun item => List.replicate n ' ' ++ (escapeContent item ++ ['\n'])

theorem lines_writtenLines (n : Nat) (items : List (List Char)) {last : List Char}
    (one : isOneLine last = true) :
    lines (writtenLines n items ++ last) =
      items.map (fun item => List.replicate n ' ' ++ escapeContent item) ++ [last] := by
  induction items with
  | nil => exact lines_of_isOneLine one
  | cons item items step =>
    have first := lines_append_feed (isOneLine_indented n item) (writtenLines n items ++ last)
    simp only [writtenLines, List.flatMap_cons, List.append_assoc, List.cons_append,
      List.nil_append] at first step ⊢
    rw [first, step, List.map_cons, List.cons_append]

/-- Every text that is not empty keeps its line, without the indentation. -/
theorem keptLines_writtenLines (n k : Nat) (items : List (List Char)) :
    keptLines false (items.map (fun item => List.replicate n ' ' ++ escapeContent item) ++
      [List.replicate k ' ']) =
      (items.filter (· ≠ [])).map fun item => (escapeContent item).map untab := by
  induction items with
  | nil =>
    have blank : isBlankLine (List.replicate k ' ') = true := by simp [isBlankLine]
    simp [keptLines, blank]
  | cons item items step =>
    have same : isBlankLine (List.replicate n ' ' ++ escapeContent item) = item.isEmpty := by
      rw [isBlankLine_indented, isBlankLine_escapeContent]
    cases item with
    | nil => simpa [keptLines, same] using step
    | cons c cs =>
      simp only [List.map_cons, List.cons_append, keptLines, same, List.isEmpty_cons,
        Bool.false_eq_true, if_false]
      rw [cleanLine_indented n (by simp) (.inl rfl), step]
      simp

def joinedTexts (items : List (List Char)) : List Char :=
  [' '].intercalate ((items.filter (· ≠ [])).map shown)

theorem decode_intercalate_untab (items : List (List Char)) :
    decode ([' '].intercalate (items.map fun item => (escapeContent item).map untab)) =
      [' '].intercalate (items.map shown) := by
  induction items with
  | nil => rfl
  | cons item items step =>
    rw [decode] at step
    cases items with
    | nil => simpa [decode, decodeFrom] using decodeFrom_escapeContent item []
    | cons next items =>
      simp only [decode, List.map_cons, List.intercalate_cons_cons, List.append_assoc] at step ⊢
      rw [decodeFrom_escapeContent, List.singleton_append, decodeFrom_cons (by decide), step]
      rfl

private theorem map_untab_eq_self_iff (cs : List Char) : cs.map untab = cs ↔ '\t' ∉ cs := by
  induction cs with
  | nil => simp
  | cons c cs step =>
    by_cases tab : c = '\t'
    · simp [tab, untab]
    · simp [tab, Ne.symm tab, untab, step]

/-- A text is shown as it is if all its tabs are at the two ends. -/
theorem shown_eq_self_iff (cs : List Char) : shown cs = cs ↔ '\t' ∉ middle cs := by
  rw [← map_untab_eq_self_iff, shown]
  constructor
  · intro same
    have whole := same.trans (parts_append cs).symm
    exact List.append_cancel_left (List.append_cancel_right whole)
  · intro same
    rw [same, parts_append]

private theorem shown_of_not_mem {cs : List Char} (plain : '\t' ∉ cs) : shown cs = cs := by
  refine (shown_eq_self_iff cs).mpr fun inside => plain ?_
  rw [← parts_append cs]
  simp [inside]

theorem joinedTexts_of_not_mem {items : List (List Char)} (plain : ∀ item ∈ items, '\t' ∉ item) :
    joinedTexts items = [' '].intercalate (items.filter (· ≠ [])) := by
  have same : (items.filter (· ≠ [])).map shown = items.filter (· ≠ []) := by
    refine (List.map_congr_left fun item inside => ?_).trans (List.map_id _)
    exact shown_of_not_mem (plain item (List.mem_filter.mp inside).1)
  rw [joinedTexts, same]

private theorem length_intercalate (separator : List Char) (parts : List (List Char)) :
    (separator.intercalate parts).length =
      parts.flatten.length + separator.length * (parts.length - 1) := by
  induction parts with
  | nil => simp
  | cons part rest step =>
    cases rest with
    | nil => simp
    | cons next rest =>
      rw [List.intercalate_cons_cons, List.length_append, List.length_append, step]
      simp only [List.flatten_cons, List.length_append, List.length_cons, Nat.add_sub_cancel]
      rw [Nat.mul_succ]
      omega

/-- Parts run together without a trace of the separator only if there is at most one. -/
theorem intercalate_eq_flatten_iff {separator : List Char} (nonempty : separator ≠ [])
    (parts : List (List Char)) : separator.intercalate parts = parts.flatten ↔ parts.length ≤ 1 := by
  constructor
  · intro same
    have long := length_intercalate separator parts
    have positive := List.length_pos_iff.mpr nonempty
    rw [same] at long
    have noSeparators : separator.length * (parts.length - 1) = 0 := by omega
    have fewer := (Nat.mul_eq_zero.mp noSeparators).resolve_left (by omega)
    omega
  · intro few
    match parts with
    | [] => rfl
    | [part] => simp
    | _ :: _ :: _ => simp at few

end UiPlan.Text
