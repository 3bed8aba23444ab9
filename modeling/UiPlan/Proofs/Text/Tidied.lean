import UiPlan.Proofs.Text.Cleaning
import Mathlib.Data.List.Forall2

/-! Cleaned text described line by line. The lines of a text and what is kept of one of them
are said here as relations, without a word on how they are found: a text is its lines with
breaks between them, and what is kept of a line is the line without some spaces around it.
Cleaning keeps, of every line that is not blank, exactly that.
-/
namespace UiPlan.Text

inductive Break : List Char → Prop
  | feed : Break ['\n']
  | back : Break ['\r']
  | both : Break ['\r', '\n']

/-- A text and its lines. A line feed right behind a carriage return is part of its break. -/
inductive Lined : List Char → List (List Char) → Prop
  | last {line : List Char} (one : isOneLine line = true) : Lined line [line]
  | next {line mark rest : List Char} {more : List (List Char)} (one : isOneLine line = true)
      (ended : Break mark) (whole : mark = ['\r'] → rest.head? ≠ some '\n')
      (behind : Lined rest more) : Lined (line ++ (mark ++ rest)) (line :: more)

theorem Lined.cons {c : Char} (plain : c ≠ '\n') (other : c ≠ '\r') {rest line : List Char}
    {more : List (List Char)} (lined : Lined rest (line :: more)) :
    Lined (c :: rest) ((c :: line) :: more) := by
  have longer (one : isOneLine line = true) : isOneLine (c :: line) = true := by
    simpa [isOneLine, plain, other] using one
  cases lined with
  | last one => exact .last (longer one)
  | next one ended whole behind => exact .next (longer one) ended whole behind

theorem Break.lines_append {mark rest : List Char} (ended : Break mark)
    (whole : mark = ['\r'] → rest.head? ≠ some '\n') : lines (mark ++ rest) = [] :: lines rest := by
  cases ended with
  | feed => rfl
  | both => rfl
  | back =>
    have alone := whole rfl
    cases rest with
    | nil => rfl
    | cons c rest =>
      have other : c ≠ '\n' := by simpa using alone
      rw [List.singleton_append, lines.eq_def]
      simp [other]

theorem Lined.after {mark rest : List Char} {more : List (List Char)} (ended : Break mark)
    (whole : mark = ['\r'] → rest.head? ≠ some '\n') (behind : Lined rest more) :
    Lined (mark ++ rest) ([] :: more) := by
  have lined : Lined ([] ++ (mark ++ rest)) ([] :: more) := .next rfl ended whole behind
  exact lined

theorem lined_lines (raw : List Char) : Lined raw (lines raw) := by
  fun_induction lines raw with
  | case1 => exact .last rfl
  | case2 rest step => exact .after .both (by simp) step
  | case3 c rest apart ends step =>
    have either : c = '\n' ∨ c = '\r' := by simpa using ends
    rcases either with rfl | rfl
    · exact .after .feed (by simp) step
    · refine .after .back (fun _ first => ?_) step
      obtain ⟨behind, rfl⟩ := List.head?_eq_some_iff.mp first
      exact apart behind rfl rfl
  | case4 c rest apart plain line more found step =>
    have other : c ≠ '\n' ∧ c ≠ '\r' := by simpa using plain
    rw [found] at step
    exact step.cons other.1 other.2
  | case5 c rest apart plain found step =>
    rw [found] at step
    nomatch step

/-- The lines of a text are determined by its breaks. -/
theorem lined_iff {raw : List Char} {all : List (List Char)} : Lined raw all ↔ lines raw = all := by
  constructor
  · intro lined
    induction lined with
    | last one => exact lines_of_isOneLine one
    | next one ended whole behind step =>
      rw [lines_append one (ended.lines_append whole), step, List.append_nil]
  · rintro rfl
    exact lined_lines raw

theorem Lined.isOneLine {raw : List Char} {all : List (List Char)} (lined : Lined raw all) :
    ∀ line ∈ all, isOneLine line = true := by
  induction lined with
  | last one => simpa using one
  | next one ended whole behind step => exact List.forall_mem_cons.mpr ⟨one, step⟩

/-- The line with tabs as spaces, less the spaces at its front, which only the first line
keeps, and those at its end, which only the last line keeps. -/
def Tidied (first last : Bool) (line kept : List Char) : Prop :=
  ∃ front back, line.map untab = front ++ kept ++ back ∧ (∀ c ∈ front ++ back, c = ' ') ∧
    (if first then front = [] else kept.head? ≠ some ' ') ∧
    (if last then back = [] else kept.getLast? ≠ some ' ')

private theorem dropWhile_isSpaceChar_iff {cs kept : List Char} : cs.dropWhile isSpaceChar = kept ↔
    ∃ front, cs = front ++ kept ∧ (∀ c ∈ front, c = ' ') ∧ kept.head? ≠ some ' ' := by
  rw [dropWhile_eq_iff]
  simp only [isSpaceChar, decide_eq_true_eq, decide_eq_false_iff_not, ne_some_iff]

private theorem dropEndWhile_isSpaceChar_iff {cs kept : List Char} : dropEndWhile isSpaceChar cs = kept ↔
    ∃ back, cs = kept ++ back ∧ (∀ c ∈ back, c = ' ') ∧ kept.getLast? ≠ some ' ' := by
  rw [dropEndWhile_eq_iff]
  simp only [isSpaceChar, decide_eq_true_eq, decide_eq_false_iff_not, ne_some_iff]

theorem tidied_iff {first last : Bool} {line kept : List Char} :
    Tidied first last line kept ↔ cleanLine first last line = kept := by
  cases first with
  | true =>
    cases last with
    | true => simp [Tidied, cleanLine]
    | false => simp [Tidied, cleanLine, dropEndWhile_isSpaceChar_iff]
  | false =>
    cases last with
    | true => simp [Tidied, cleanLine, dropWhile_isSpaceChar_iff]
    | false =>
      simp only [Tidied, cleanLine, Bool.false_eq_true, if_false, dropEndWhile_isSpaceChar_iff,
        dropWhile_isSpaceChar_iff]
      constructor
      · rintro ⟨left, right, whole, spaces, begins, ends⟩
        have both := List.forall_mem_append.mp spaces
        -- A line of nothing but spaces loses all of them at its front.
        by_cases empty : kept = []
        · subst empty
          exact ⟨[], ⟨left ++ right, by simpa using whole, spaces, by simp⟩, by simp, by simp⟩
        · refine ⟨right, ⟨left, by simpa using whole, both.1, ?_⟩, both.2, ends⟩
          rwa [List.head?_append_of_ne_nil _ empty]
      · rintro ⟨right, ⟨left, whole, before, begins⟩, behind, ends⟩
        refine ⟨left, right, by simpa using whole, List.forall_mem_append.mpr ⟨before, behind⟩, ?_,
          ends⟩
        intro first
        exact begins (by rw [List.head?_append, first, Option.some_or])

def TidiedAt (total : Nat) (entry : List Char × Nat) (kept : List Char) : Prop :=
  Tidied (entry.2 == 0) (entry.2 + 1 == total) entry.1 kept

def fullLines (start : Nat) (all : List (List Char)) : List (List Char × Nat) :=
  (all.zipIdx start).filter fun entry => !isBlankLine entry.1

private theorem keptLines_iff {start total : Nat} {all kept : List (List Char)}
    (reaches : start + all.length = total) :
    keptLines (start == 0) all = kept ↔ List.Forall₂ (TidiedAt total) (fullLines start all) kept := by
  -- Only the line at place 0 is the first, so behind it the places have moved on.
  induction all generalizing start kept with
  | nil => simp [keptLines, fullLines, eq_comm]
  | cons line rest step =>
    rw [List.length_cons] at reaches
    have behind {kept : List (List Char)} : keptLines false rest = kept ↔
        List.Forall₂ (TidiedAt total) (fullLines (start + 1) rest) kept := by
      have inner : (start + 1 == 0) = false := by simp
      rw [← inner]
      exact step (by omega)
    have here : (start + 1 == total) = rest.isEmpty := by
      rw [Bool.eq_iff_iff, beq_iff_eq, List.isEmpty_iff_length_eq_zero]
      omega
    cases blank : isBlankLine line with
    | true =>
      have skipped : fullLines start (line :: rest) = fullLines (start + 1) rest := by
        simp [fullLines, blank]
      rw [keptLines, if_pos blank, skipped, behind]
    | false =>
      have taken : fullLines start (line :: rest) = (line, start) :: fullLines (start + 1) rest := by
        simp [fullLines, blank]
      rw [keptLines, if_neg (by simp [blank]), taken, List.forall₂_cons_left_iff]
      simp only [TidiedAt, tidied_iff, here, ← behind]
      constructor
      · rintro rfl
        exact ⟨_, _, rfl, rfl, rfl⟩
      · rintro ⟨_, _, rfl, rfl, rfl⟩
        rfl

private theorem plain_of_tidiedAt {total : Nat} {entry : List Char × Nat} {kept : List Char}
    (one : isOneLine entry.1 = true) (tidied : TidiedAt total entry kept) :
    ∀ c ∈ kept, c ≠ '\n' ∧ c ≠ '\r' ∧ c ≠ '\t' := by
  obtain ⟨front, back, whole, _⟩ := tidied
  intro c inside
  have within : c ∈ entry.1.map untab := by rw [whole]; simp [inside]
  obtain ⟨d, found, rfl⟩ := List.mem_map.mp within
  have unbroken : d ≠ '\n' ∧ d ≠ '\r' := by
    simpa using List.all_eq_true.mp one d found
  by_cases tab : d = '\t'
  · simp [untab, tab]
  · simpa [untab, tab] using unbroken

private theorem forall_mem_of_forall₂ {α β : Type} {R : α → β → Prop} {P : β → Prop} {xs : List α} {ys : List β}
    (related : List.Forall₂ R xs ys) (each : ∀ x ∈ xs, ∀ y, R x y → P y) : ∀ y ∈ ys, P y := by
  induction related with
  | nil => simp
  | cons first others step =>
    obtain ⟨here, behind⟩ := List.forall_mem_cons.mp each
    exact List.forall_mem_cons.mpr ⟨here _ first, step behind⟩

private theorem forall_mem_intercalate {P : Char → Prop} {separator : List Char} {parts : List (List Char)}
    (between : ∀ c ∈ separator, P c) (each : ∀ part ∈ parts, ∀ c ∈ part, P c) :
    ∀ c ∈ separator.intercalate parts, P c := by
  induction parts with
  | nil => simp
  | cons part rest step =>
    obtain ⟨first, others⟩ := List.forall_mem_cons.mp each
    cases rest with
    | nil => simpa using first
    | cons next rest =>
      rw [List.intercalate_cons_cons]
      exact List.forall_mem_append.mpr ⟨List.forall_mem_append.mpr ⟨first, between⟩, step others⟩

theorem clean?_eq_some_iff {raw cleaned : List Char} :
    clean? raw = some cleaned ↔ ∃ kept ≠ [],
      List.Forall₂ (TidiedAt (lines raw).length) (fullLines 0 (lines raw)) kept ∧
        cleaned = [' '].intercalate kept := by
  have found (kept : List (List Char)) : keptLines true (lines raw) = kept ↔
      List.Forall₂ (TidiedAt (lines raw).length) (fullLines 0 (lines raw)) kept :=
    keptLines_iff (Nat.zero_add _)
  simp only [← found, clean?_eq]
  cases keptLines true (lines raw) with
  | nil => simp
  | cons first rest => simp [eq_comm]

/-- Nothing is left of a text exactly if it holds no more than spaces and tabs between its breaks. -/
theorem clean?_eq_none_iff {raw : List Char} :
    clean? raw = none ↔ ∀ line ∈ lines raw, ∀ c ∈ line, c = ' ' ∨ c = '\t' := by
  simp [clean?, isBlankLine, or_iff_not_imp_left]

theorem plain_of_clean? {raw cleaned : List Char} (found : clean? raw = some cleaned) :
    ∀ c ∈ cleaned, c ≠ '\n' ∧ c ≠ '\r' ∧ c ≠ '\t' := by
  obtain ⟨kept, _, tidied, rfl⟩ := clean?_eq_some_iff.mp found
  refine forall_mem_intercalate (by simp) ?_
  refine forall_mem_of_forall₂ tidied fun entry inside part => plain_of_tidiedAt ?_
  have within : entry.1 ∈ lines raw := List.fst_mem_of_mem_zipIdx (List.mem_filter.mp inside).1
  exact (lined_lines raw).isOneLine entry.1 within

/-- Cleaning gives nothing if all lines are blank. Otherwise it gives what is kept of the
other lines with single spaces between them, in which no break and no tab is left. -/
theorem clean?_joins_tidied (raw : List Char) :
    (∀ all, Lined raw all ↔ lines raw = all) ∧
    (clean? raw = none ↔ ∀ line ∈ lines raw, ∀ c ∈ line, c = ' ' ∨ c = '\t') ∧
    ∀ cleaned, (clean? raw = some cleaned ↔ ∃ kept ≠ [],
        List.Forall₂ (TidiedAt (lines raw).length) (fullLines 0 (lines raw)) kept ∧
        cleaned = [' '].intercalate kept) ∧
      (clean? raw = some cleaned → ∀ c ∈ cleaned, c ≠ '\n' ∧ c ≠ '\r' ∧ c ≠ '\t') :=
  ⟨fun _ => lined_iff, clean?_eq_none_iff, fun _ => ⟨clean?_eq_some_iff, plain_of_clean?⟩⟩

/-- Breaks of all three kinds, blank lines at the front and among others, tabs at the ends. -/
theorem clean?_joins_tidied_breaks :
    Lined "\t \r\n a\tb \r c\t\n\n d\t ".toList
      ["\t ".toList, " a\tb ".toList, " c\t".toList, [], " d\t ".toList] ∧
    clean? "\t \r\n a\tb \r c\t\n\n d\t ".toList = some "a b c d  ".toList ∧
    ∀ c ∈ "a b c d  ".toList, c ≠ '\n' ∧ c ≠ '\r' ∧ c ≠ '\t' := by
  obtain ⟨lined, _, cleaned⟩ := clean?_joins_tidied "\t \r\n a\tb \r c\t\n\n d\t ".toList
  have found : clean? "\t \r\n a\tb \r c\t\n\n d\t ".toList = some "a b c d  ".toList := by
    decide
  exact ⟨(lined _).mpr (by decide), found, (cleaned _).2 found⟩

end UiPlan.Text
