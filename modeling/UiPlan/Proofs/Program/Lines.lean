import UiPlan.Proofs.Program.RoundTrip

/-! The lines of a compiled program. Every node of the markup begins a line of its own, and
neither a text nor an attribute breaks one. So a comment stands at the beginning of a line
exactly where a component was refused, and an import only where the compiler wrote it.
-/
namespace UiPlan.Program

def linesOf (code : List Char) : List (List Char) := code.splitOn '\n'

def opensComment (line : List Char) : Bool :=
  ['\x7b', '/', '*'].isPrefixOf (line.dropWhile (· = ' '))

def beginsImport (line : List Char) : Bool := ['i', 'm', 'p', 'o', 'r', 't'].isPrefixOf line

def NoComment (cs : List Char) : Prop := ∀ line ∈ linesOf cs, opensComment line = false

theorem noComment_feed {cs rest : List Char} :
    NoComment (cs ++ '\n' :: rest) ↔ NoComment cs ∧ NoComment rest := by
  unfold NoComment linesOf
  rw [List.splitOn_append_cons_self, List.forall_mem_append]

theorem noComment_line {cs : List Char} (plain : '\n' ∉ cs) :
    NoComment cs ↔ opensComment cs = false := by
  unfold NoComment linesOf
  rw [List.splitOn_eq_singleton plain, List.forall_mem_singleton]

/-- A line that does not open a comment may be left away. -/
theorem noComment_cons {line rest : List Char} (plain : '\n' ∉ line)
    (harmless : opensComment line = false) : NoComment (line ++ '\n' :: rest) ↔ NoComment rest := by
  rw [noComment_feed, noComment_line plain, harmless]
  simp

theorem opensComment_pad (n : Nat) (cs : List Char) : opensComment (pad n ++ cs) = opensComment cs := by
  have blanks : (pad n ++ cs).dropWhile (· = ' ') = cs.dropWhile (· = ' ') := by
    apply List.dropWhile_append_of_pos
    intro c inside
    simpa using List.eq_of_mem_replicate inside
  rw [opensComment, blanks, opensComment]

private theorem opensComment_tag (cs : List Char) : opensComment ('<' :: cs) = false := rfl

private theorem opensComment_of_all_isInert {cs : List Char} (inert : cs.all Text.isInert = true) :
    opensComment cs = false := by
  unfold opensComment
  cases shape : cs.dropWhile (· = ' ') with
  | nil => rfl
  | cons c rest =>
    have inside : c ∈ cs := by
      apply (List.dropWhile_suffix (· = ' ')).subset
      simp [shape]
    have other : c ≠ '\x7b' := by
      rintro rfl
      exact Text.not_mem_of_all_isInert rfl inert inside
    simp [List.isPrefixOf, Ne.symm other]

/-- A line of escaped text is one line, and no comment. -/
theorem inertLine {cs : List Char} (inert : cs.all Text.isInert = true) (indent : Nat) :
    '\n' ∉ pad indent ++ cs ∧ opensComment (pad indent ++ cs) = false := by
  constructor
  · simp [pad, feed_not_mem_of_all_isInert inert]
  · rw [opensComment_pad]
    exact opensComment_of_all_isInert inert

private theorem opensComment_blockedText (name : String) : opensComment (blockedText name) = true := by
  rw [blockedText_eq]
  rfl

namespace Markup

mutual
def blockedNames : Markup → List String
  | .text _ => []
  | .blocked name => [name]
  | .element _ _ _ children => blockedNamesOf children

def blockedNamesOf : List Markup → List String
  | [] => []
  | markup :: rest => markup.blockedNames ++ blockedNamesOf rest
end

private theorem noComment_writtenLines (indent : Nat) (texts : List (List Char)) (rest : List Char) :
    NoComment (Text.writtenLines indent texts ++ rest) ↔ NoComment rest := by
  induction texts with
  | nil => rfl
  | cons words texts step =>
    obtain ⟨plain, harmless⟩ := inertLine (Text.all_isInert_escapeContent words) indent
    have written : Text.writtenLines indent (words :: texts) ++ rest =
        (pad indent ++ Text.escapeContent words) ++ '\n' :: (Text.writtenLines indent texts ++ rest) := by
      simp [Text.writtenLines, pad]
    rw [written, noComment_cons plain harmless, step]

private theorem noComment_emitLines {indent : Nat} {children : List Markup} {tail : List Char}
    (each : ∀ child ∈ children, NoComment (emit indent child) ↔ child.blockedNames = []) :
    NoComment (emitLines indent children ++ tail) ↔ blockedNamesOf children = [] ∧ NoComment tail := by
  induction children with
  | nil => simp [emitLines, blockedNamesOf]
  | cons child children step =>
    rw [emitLines, List.append_assoc, List.cons_append, noComment_feed, each child (by simp),
      step fun other inside => each other (by simp [inside])]
    simp [blockedNamesOf, and_assoc]

section Element

variable {tag : String} {attributes : List (String × Json)} {content : Option String}

theorem opensComment_element (indent : Nat) (cs : List Char) :
    opensComment (pad indent ++ '<' :: cs) = false := by
  rw [opensComment_pad, opensComment_tag]

theorem feed_not_mem_opening (named : isTagName tag.toList = true)
    (entries : ∀ entry ∈ attributes, Program.Writable entry) (indent : Nat) (closed : Bool) :
    '\n' ∉ pad indent ++ '<' :: (tag.toList ++ (attributesText attributes ++ tagEndText closed)) := by
  have ending : ∀ closed, '\n' ∉ tagEndText closed := by decide
  simp [pad, feed_not_mem_tag named, feed_not_mem_attributesText entries, ending closed]

/-- Without children an element stands on one line. -/
theorem feed_not_mem_leaf (named : isTagName tag.toList = true)
    (entries : ∀ entry ∈ attributes, Program.Writable entry) (indent : Nat) :
    '\n' ∉ pad indent ++ elementText indent tag attributes content [] := by
  have inside : '\n' ∉ insideText indent tag content [] := by
    cases content with
    | none => simp [insideText]
    | some words =>
      simp [insideText, feed_not_mem_closingTag named,
        feed_not_mem_of_all_isInert (Text.all_isInert_escapeContent _)]
  have line := feed_not_mem_opening named entries indent (content.isNone && ([] : List Markup).isEmpty)
  simp only [elementText, List.mem_append, List.mem_cons, not_or] at line ⊢
  exact ⟨line.1, line.2.1, line.2.2.1, line.2.2.2.1, line.2.2.2.2, inside⟩

private theorem noComment_elementText_nil (named : isTagName tag.toList = true)
    (entries : ∀ entry ∈ attributes, Program.Writable entry) (indent : Nat) :
    NoComment (pad indent ++ elementText indent tag attributes content []) := by
  rw [noComment_line (feed_not_mem_leaf named entries indent)]
  exact opensComment_element indent _

private theorem noComment_elementText_cons (named : isTagName tag.toList = true)
    (entries : ∀ entry ∈ attributes, Program.Writable entry) (indent : Nat) {child : Markup} {rest : List Markup}
    (each : ∀ inner ∈ child :: rest, NoComment (emit (indent + 2) inner) ↔ inner.blockedNames = []) :
    NoComment (pad indent ++ elementText indent tag attributes content (child :: rest)) ↔
      blockedNamesOf (child :: rest) = [] := by
  have closing : NoComment (pad indent ++ closingTag tag) := by
    rw [noComment_line (by simp [pad, feed_not_mem_closingTag named])]
    exact opensComment_element indent _
  have written : pad indent ++ elementText indent tag attributes content (child :: rest) =
      (pad indent ++ '<' :: (tag.toList ++ (attributesText attributes ++ tagEndText false))) ++
        '\n' :: (Text.writtenLines (indent + 2) (content.toList.map String.toList) ++
          (emitLines (indent + 2) (child :: rest) ++ (pad indent ++ closingTag tag))) := by
    simp [elementText, insideText, contentsText]
  rw [written, noComment_cons (feed_not_mem_opening named entries indent false) (opensComment_element indent _),
    noComment_writtenLines, noComment_emitLines each, and_iff_left closing]

end Element

private theorem noComment_emit {depth : Nat} {markup : Markup} (writable : markup.Writable depth) (indent : Nat) :
    NoComment (emit indent markup) ↔ markup.blockedNames = [] := by
  induction writable generalizing indent with
  | text _ words =>
    obtain ⟨plain, harmless⟩ := inertLine (Text.all_isInert_escapeContent words.toList) indent
    rw [emit, noComment_line plain, harmless]
    simp [blockedNames]
  | blocked _ name =>
    have plain : '\n' ∉ pad indent ++ blockedText name := by
      simp [pad, feed_not_mem_blockedText name]
    rw [emit, noComment_line plain, opensComment_pad, opensComment_blockedText]
    simp [blockedNames]
  | @element depth tag attributes content children named entries _ step =>
    rw [emit_element, blockedNames]
    cases children with
    | nil => simp [noComment_elementText_nil named entries, blockedNamesOf]
    | cons child rest =>
      exact noComment_elementText_cons named entries indent fun inner inside => step inner inside (indent + 2)

end Markup

/-- A text of lines that stay has no import, whether it begins a line itself or not. -/
theorem head?_ne_of_keepsLines {start : Bool} {cs : List Char} (keeps : keepsLines start cs = true) :
    ∃ first rest, linesOf cs = first :: rest ∧ (start = true → first.head? ≠ some 'i') ∧
      ∀ line ∈ rest, line.head? ≠ some 'i' := by
  induction cs generalizing start with
  | nil => exact ⟨[], [], rfl, by simp, by simp⟩
  | cons c cs step =>
    rw [keepsLines, Bool.and_eq_true] at keeps
    obtain ⟨first, rest, same, begins, behind⟩ := step keeps.2
    rw [linesOf] at same
    rw [linesOf, List.splitOn_cons_eq_if_modifyHead, same]
    by_cases feed : c = '\n'
    · refine ⟨[], first :: rest, by simp [feed], by simp, ?_⟩
      exact List.forall_mem_cons.mpr ⟨begins (by simpa using feed), behind⟩
    · refine ⟨c :: first, rest, by simp [feed], fun started => ?_, behind⟩
      have other : c ≠ 'i' := by simpa [started] using keeps.1
      simpa using other

theorem beginsImport_of_head? {line : List Char} (other : line.head? ≠ some 'i') :
    beginsImport line = false := by
  cases line with
  | nil => rfl
  | cons c rest =>
    have apart : ('i' == c) = false := by
      rw [beq_eq_false_iff_ne]
      rintro rfl
      exact other rfl
    rw [beginsImport, List.isPrefixOf, apart, Bool.false_and]

theorem beginsImport_of_keepsLines {cs : List Char} (keeps : keepsLines true cs = true) :
    ∀ line ∈ linesOf cs, beginsImport line = false := by
  obtain ⟨first, rest, same, begins, behind⟩ := head?_ne_of_keepsLines keeps
  rw [same]
  exact List.forall_mem_cons.mpr ⟨beginsImport_of_head? (begins rfl), fun line inside =>
    beginsImport_of_head? (behind line inside)⟩

private theorem noComment_importLine {used : List String} (plain : ∀ name ∈ used, '\n' ∉ name.toList)
    (rest : List Char) : NoComment ((importLine used).toList ++ rest) ↔ NoComment rest := by
  cases used with
  | nil => rfl
  | cons name names =>
    have harmless : opensComment (importText (name :: names)).toList = false := by
      rw [toList_importText]
      rfl
    have blank : NoComment ([] ++ '\n' :: rest) ↔ NoComment rest := noComment_cons List.not_mem_nil rfl
    rw [toList_importLine (List.cons_ne_nil name names),
      noComment_cons (feed_not_mem_importText plain) harmless]
    exact blank

/-- A program holds a comment node exactly if its markup holds a refused component. -/
theorem noComment_code {depth : Nat} {markup : Markup} (writable : markup.Writable depth) :
    NoComment (Artifact.ofMarkup markup).code.toList ↔ markup.blockedNames = [] := by
  have same : markup.rooted.blockedNames = markup.blockedNames := by
    cases markup <;> simp [Markup.rooted, Markup.blockedNames, Markup.blockedNamesOf]
  have head : ∀ cs, entryOpening.toList ++ cs =
      "export default function GeneratedUI() \x7b".toList ++ '\n' :: cs := fun cs => by
    simp [entryOpening_eq]
  have body : bodyText markup.emitRoot = "  return (".toList ++ '\n' ::
      (markup.emitRoot ++ '\n' :: ("  );".toList ++ '\n' :: ['\x7d'])) := rfl
  have ending : NoComment ['\x7d'] := (noComment_line (by decide)).mpr rfl
  rw [toList_code, noComment_importLine (feed_not_mem_uses writable), head, body,
    noComment_cons (by decide) rfl, noComment_cons (by decide) rfl, noComment_feed, Markup.emitRoot_eq,
    Markup.noComment_emit writable.rooted, noComment_cons (by decide) rfl, same]
  simp [ending]

end UiPlan.Program
