import UiPlan.Program.Source
import UiPlan.Proofs.Json.Writing
import UiPlan.Proofs.Program.Elements

/-! Dropping the module lines of a compiled program takes away the import and the words
`export default`, and nothing else. Whatever stands in the plan, no line of the markup
can begin with an import, since every line begins with a space and nothing in the markup
breaks a line of its own.
-/
namespace UiPlan.Program

/-- No line of the text begins like an import; `start` says whether the text begins a
line itself. -/
def keepsLines : (start : Bool) → List Char → Bool
  | _, [] => true
  | start, c :: rest => !(start && c = 'i') && keepsLines (c = '\n') rest

private theorem importsFrom_of_keepsLines {start : Bool} {cs : List Char} (keeps : keepsLines start cs = true) :
    importsFrom (.copying start) cs = cs := by
  induction cs generalizing start with
  | nil => rfl
  | cons c cs step =>
    rw [keepsLines, Bool.and_eq_true] at keeps
    unfold importsFrom
    split
    -- The scan leaves the copying mode only at an `i` that begins a line.
    case h_2 scan same =>
      cases scan
      cases same
      cases keeps.1
    case h_3 same =>
      cases same
      rw [step keeps.2]
    all_goals contradiction

theorem keepsLines_append {cs : List Char} (plain : '\n' ∉ cs) (rest : List Char) :
    keepsLines false (cs ++ rest) = keepsLines false rest := by
  induction cs with
  | nil => rfl
  | cons c cs step =>
    simp only [List.mem_cons, not_or] at plain
    simp [keepsLines, Ne.symm plain.1, step plain.2]

theorem keepsLines_cons {start : Bool} {c : Char} (other : c ≠ 'i') (plain : c ≠ '\n')
    (rest : List Char) : keepsLines start (c :: rest) = keepsLines false rest := by
  simp [keepsLines, other, plain]

theorem keepsLines_feed (start : Bool) (rest : List Char) :
    keepsLines start ('\n' :: rest) = keepsLines true rest := by
  simp [keepsLines]

theorem keepsLines_pad {start : Bool} {n : Nat} (positive : 0 < n) (rest : List Char) :
    keepsLines start (pad n ++ rest) = keepsLines false rest := by
  obtain ⟨n, rfl⟩ := Nat.exists_eq_add_of_le' positive
  have plain : '\n' ∉ pad n := by simp [pad]
  rw [pad, List.replicate_succ, List.cons_append, keepsLines_cons (by decide) (by decide), ← pad]
  exact keepsLines_append plain rest

theorem feed_not_mem_of_all_isInert {cs : List Char} (inert : cs.all Text.isInert = true) :
    '\n' ∉ cs := Text.not_mem_of_all_isInert rfl inert

private theorem feed_not_mem_valueText (value : Json) : '\n' ∉ valueText value := by
  unfold valueText
  split
  · simp [feed_not_mem_of_all_isInert (Text.all_isInert_escape _)]
  · simp
  · simp [Json.feed_not_mem_text value]

private theorem feed_not_mem_name {entry : String × Json} (writable : Writable entry) :
    '\n' ∉ entry.1.toList := by
  obtain ⟨c, name, shape, start, all⟩ := writable.name_parts
  rw [shape, List.mem_cons, not_or]
  exact ⟨(ne_of_isNameStart start rfl).symm, fun inside => by cases List.all_eq_true.mp all _ inside⟩

theorem feed_not_mem_attributesText {attributes : List (String × Json)}
    (writable : ∀ entry ∈ attributes, Writable entry) : '\n' ∉ attributesText attributes := by
  induction attributes with
  | nil => simp [attributesText]
  | cons entry attributes step =>
    have here := writable entry (by simp)
    have behind := step fun other inside => writable other (by simp [inside])
    simp [attributesText, feed_not_mem_name here, feed_not_mem_valueText entry.2, behind]

theorem feed_not_mem_tag {tag : String} (named : isTagName tag.toList = true) : '\n' ∉ tag.toList := by
  obtain ⟨c, name, shape, start, all⟩ := isTagName_parts named
  rw [shape, List.mem_cons, not_or]
  exact ⟨(ne_of_isNameStart start rfl).symm, fun inside => by cases List.all_eq_true.mp all _ inside⟩

theorem feed_not_mem_closingTag {tag : String} (named : isTagName tag.toList = true) :
    '\n' ∉ closingTag tag := by
  simp [closingTag, feed_not_mem_tag named]

theorem feed_not_mem_blockedText (name : String) : '\n' ∉ blockedText name := by
  have opening : '\n' ∉ blockedOpening.toList := by decide
  have shown : '\n' ∉ shownName name.toList := by
    intro inside
    cases (List.mem_filter.mp (List.mem_of_mem_take inside)).2
  simp [blockedText_eq, opening, shown]

namespace Markup

private theorem keepsLines_emitLines {indent : Nat} {children : List Markup}
    (each : ∀ child ∈ children, ∀ start rest,
      keepsLines start (emit indent child ++ rest) = keepsLines false rest) (rest : List Char) :
    keepsLines true (emitLines indent children ++ rest) = keepsLines true rest := by
  induction children with
  | nil => rfl
  | cons child children step =>
    rw [emitLines, List.append_assoc, each child (by simp), List.cons_append, keepsLines_feed]
    exact step fun other inside => each other (by simp [inside])

theorem keepsLines_escapeContent (words rest : List Char) :
    keepsLines false (Text.escapeContent words ++ rest) = keepsLines false rest :=
  keepsLines_append (feed_not_mem_of_all_isInert (Text.all_isInert_escapeContent words)) rest

private theorem keepsLines_writtenLines {indent : Nat} (positive : 0 < indent) (texts : List (List Char))
    (rest : List Char) :
    keepsLines true (Text.writtenLines indent texts ++ rest) = keepsLines true rest := by
  induction texts with
  | nil => rfl
  | cons words texts step =>
    have line : keepsLines true (pad indent ++ (Text.escapeContent words ++
        '\n' :: (Text.writtenLines indent texts ++ rest))) = keepsLines true rest := by
      rw [keepsLines_pad positive, keepsLines_escapeContent, keepsLines_feed, step]
    simpa [Text.writtenLines, pad] using line

private theorem keepsLines_insideText {indent : Nat} {tag : String} {children : List Markup}
    (positive : 0 < indent) (named : isTagName tag.toList = true)
    (lines : ∀ rest, keepsLines true (emitLines (indent + 2) children ++ rest) =
      keepsLines true rest) (content : Option String) (rest : List Char) :
    keepsLines false (insideText indent tag content children ++ rest) = keepsLines false rest := by
  have closing := keepsLines_append (feed_not_mem_closingTag named)
  cases children with
  | nil =>
    cases content with
    | none => rfl
    | some words => rw [insideText, List.append_assoc, keepsLines_escapeContent, closing]
  | cons child children =>
    simp only [insideText, contentsText, List.cons_append, List.append_assoc]
    rw [keepsLines_feed, keepsLines_writtenLines (by omega), lines, keepsLines_pad positive, closing]

/-- No line of a markup begins like an import, so none is stripped. -/
theorem keepsLines_emit {depth : Nat} {markup : Markup} (writable : markup.Writable depth)
    {indent : Nat} (positive : 0 < indent) (start : Bool) (rest : List Char) :
    keepsLines start (emit indent markup ++ rest) = keepsLines false rest := by
  induction writable generalizing indent start rest with
  | text _ words => rw [emit, List.append_assoc, keepsLines_pad positive, keepsLines_escapeContent]
  | blocked _ name =>
    rw [emit, List.append_assoc, keepsLines_pad positive,
      keepsLines_append (feed_not_mem_blockedText name)]
  | @element depth tag attributes content children named entries _ step =>
    have ending : ∀ closed, '\n' ∉ tagEndText closed := by decide
    have lines : ∀ rest, keepsLines true (emitLines (indent + 2) children ++ rest) =
        keepsLines true rest :=
      keepsLines_emitLines fun child inside => step child inside (by omega)
    simp only [emit_element, elementText, List.append_assoc, List.cons_append]
    rw [keepsLines_pad positive, keepsLines_cons (by decide) (by decide),
      keepsLines_append (feed_not_mem_tag named),
      keepsLines_append (feed_not_mem_attributesText entries), keepsLines_append (ending _),
      keepsLines_insideText positive named lines]

def rooted : Markup → Markup
  | .element tag attributes content children => .element tag attributes content children
  | other => .element fragment [] none [other]

theorem emitRoot_eq (markup : Markup) : markup.emitRoot = emit 4 markup.rooted := by
  cases markup with
  | element => rfl
  | text | blocked => simp [emitRoot, rooted, emit, emitLines, attributesText]

theorem Writable.succ {depth : Nat} {markup : Markup} (writable : markup.Writable depth) :
    markup.Writable (depth + 1) := by
  induction writable with
  | text _ words => exact .text _ words
  | blocked _ name => exact .blocked _ name
  | element named entries _ step => exact .element named entries step

theorem Writable.rooted {depth : Nat} {markup : Markup} (writable : markup.Writable depth) :
    markup.rooted.Writable (depth + 1) := by
  have tag : isTagName fragment.toList = true := by decide
  have wrapped : ∀ {other : Markup}, other.Writable depth →
      Writable (depth + 1) (.element fragment [] none [other]) := fun inner =>
    .element tag (by simp) (by simpa using inner)
  cases writable with
  | text _ words => exact wrapped (.text _ words)
  | blocked _ name => exact wrapped (.blocked _ name)
  | element named entries inside => exact .element named entries fun child member => (inside child member).succ

end Markup

private theorem importsFrom_line {cs : List Char} (plain : '\n' ∉ cs) (rest : List Char) :
    importsFrom .line (cs ++ '\n' :: rest) = '\n' :: importsFrom (.copying true) rest := by
  induction cs with
  | nil => rfl
  | cons c cs step =>
    simp only [List.mem_cons, not_or] at plain
    have other : c ≠ '\n' := Ne.symm plain.1
    conv => lhs; unfold importsFrom
    split
    case h_5 same =>
      obtain ⟨rfl, rfl⟩ := List.cons.inj same
      rw [if_neg other]
      exact step plain.2
    all_goals contradiction

private theorem feed_not_mem_intercalate {names : List String} (plain : ∀ name ∈ names, '\n' ∉ name.toList) :
    '\n' ∉ (", ".intercalate names).toList := by
  rw [String.toList_intercalate]
  induction names with
  | nil => simp
  | cons name names step =>
    have rest := step fun other inside => plain other (by simp [inside])
    have here := plain name (by simp)
    cases names with
    | nil => simpa using here
    | cons next names =>
      have separator : '\n' ∉ ", ".toList := by decide
      rw [List.map_cons, List.map_cons, List.intercalate_cons_cons, ← List.map_cons]
      simp only [List.mem_append, not_or]
      exact ⟨⟨here, separator⟩, rest⟩

def importText (used : List String) : String :=
  "import \x7b " ++ ", ".intercalate used ++ " \x7d from \"./components\";"

theorem toList_importLine {used : List String} (nonempty : used ≠ []) (rest : List Char) :
    (importLine used).toList ++ rest = (importText used).toList ++ '\n' :: '\n' :: rest := by
  have full : ¬used.isEmpty = true := by simpa using nonempty
  rw [importLine, if_neg full]
  simp [importText, componentModule]

theorem toList_importText (used : List String) : (importText used).toList = "import \x7b".toList ++
    (' ' :: ((", ".intercalate used).toList ++ " \x7d from \"./components\";".toList)) := by
  simp [importText]

theorem feed_not_mem_importText {used : List String} (plain : ∀ name ∈ used, '\n' ∉ name.toList) :
    '\n' ∉ (importText used).toList := by
  have closing : '\n' ∉ " \x7d from \"./components\";".toList := by decide
  have opening : '\n' ∉ "import \x7b".toList := by decide
  rw [toList_importText]
  simp only [List.mem_append, List.mem_cons, not_or]
  exact ⟨opening, by decide, feed_not_mem_intercalate plain, closing⟩

private theorem importsFrom_importLine {used : List String} (plain : ∀ name ∈ used, '\n' ∉ name.toList)
    (rest : List Char) :
    importsFrom (.copying true) ((importLine used).toList ++ rest) =
      (if used.isEmpty then [] else ['\n', '\n']) ++ importsFrom (.copying true) rest := by
  cases used with
  | nil => rfl
  | cons name names =>
    have line := feed_not_mem_importText plain
    rw [toList_importText, List.mem_append, not_or] at line
    have dropped := importsFrom_line line.2 ('\n' :: rest)
    rw [toList_importLine (List.cons_ne_nil name names), toList_importText, List.append_assoc]
    exact dropped

theorem entryOpening_eq : entryOpening = "export default function GeneratedUI() \x7b\n" := rfl

theorem keepsLines_entryOpening {body : List Char} (keeps : keepsLines true body = true) :
    keepsLines true (entryOpening.toList ++ body) = true := by
  have plain : '\n' ∉ "xport default function GeneratedUI() \x7b".toList := by decide
  have written : entryOpening.toList ++ body =
      'e' :: ("xport default function GeneratedUI() \x7b".toList ++ '\n' :: body) := by
    simp [entryOpening_eq]
  rw [written, keepsLines_cons (by decide) (by decide), keepsLines_append plain, keepsLines_feed, keeps]

/-- Of a program only its import and its export words go. -/
theorem declarations_code {used : List String} (plain : ∀ name ∈ used, '\n' ∉ name.toList)
    {body : List Char} (keeps : keepsLines true body = true) :
    declarations ((importLine used).toList ++ (entryOpening.toList ++ body)) =
      (if used.isEmpty then [] else ['\n', '\n']) ++ ("function GeneratedUI() \x7b\n".toList ++ body) := by
  have exported : dropExport (entryOpening.toList ++ body) =
      "function GeneratedUI() \x7b\n".toList ++ body := by
    have written : entryOpening.toList ++ body =
        "export default ".toList ++ ("function GeneratedUI() \x7b\n".toList ++ body) := by
      simp [entryOpening_eq]
    rw [written]
    rfl
  rw [declarations, dropImports, importsFrom_importLine plain, importsFrom_of_keepsLines (keepsLines_entryOpening keeps)]
  split
  · exact exported
  · rw [← exported]
    rfl

end UiPlan.Program
