import UiPlan.Proofs.Program.Contents

/-! Every element that the compiler writes is read back as the term the outline gives
it, as long as no more elements stand inside one another than the reader allows. The
induction is on that depth; inside it the contents of one element are a loop over its
children.
-/
namespace UiPlan.Program

def isTagName : List Char → Bool
  | [] => false
  | c :: rest => isNameStart c && rest.all isTagChar

theorem isTagName_parts {tag : String} (named : isTagName tag.toList = true) :
    ∃ c name, tag.toList = c :: name ∧ isNameStart c = true ∧ name.all isTagChar = true := by
  unfold isTagName at named
  split at named
  · cases named
  · rename_i c name shape
    exact ⟨c, name, shape, by simpa using named⟩

private theorem trimStart_of_isNameStart {c : Char} (start : isNameStart c = true) (rest : List Char) :
    Text.trimStart (c :: rest) = c :: rest := by
  rw [Text.trimStart, List.dropWhile_cons_of_neg (by simp [isBlank_of_isNameStart start])]

theorem readName?_tag {tag : String} (named : isTagName tag.toList = true) {rest : List Char}
    (stop : stopsAt isTagChar rest = true) :
    Text.trimStart (tag.toList ++ rest) = tag.toList ++ rest ∧
      readName? isTagChar (tag.toList ++ rest) = some (tag, rest) := by
  obtain ⟨c, name, shape, start, all⟩ := isTagName_parts named
  have whole : String.ofList (c :: name) = tag := by rw [← shape, String.ofList_toList]
  rw [shape, List.cons_append, trimStart_of_isNameStart start, readName?_append start all stop, whole]
  exact ⟨rfl, rfl⟩

private theorem readClosing_text {tag : String} (named : isTagName tag.toList = true) (rest : List Char) :
    readClosing (some tag) (tag.toList ++ '>' :: rest) = .ok rest := by
  obtain ⟨trimmed, read⟩ := readName?_tag named (show stopsAt isTagChar ('>' :: rest) = true from rfl)
  obtain ⟨c, name, shape, start, _⟩ := isTagName_parts named
  unfold readClosing
  simp only [trimmed]
  split
  · rename_i same
    rw [shape] at same
    exact absurd (List.cons.inj same).1 (ne_of_isNameStart start rfl)
  · simp only [read]
    have trimmed : Text.trimStart ('>' :: rest) = '>' :: rest := rfl
    rw [trimmed]
    have found : expect ">" ('>' :: rest) = .ok rest := rfl
    simp only [found, if_true]

theorem readContentsFrom_close {element : Reader Term} {tag : String} {budget : Nat}
    {read : List Term} (named : isTagName tag.toList = true) (rest : List Char) :
    readContentsFrom element (some tag) (budget + 1) read (closingTag tag ++ rest) =
      .ok (read.reverse, rest) := by
  have closed := readClosing_text named rest
  have shape : closingTag tag ++ rest = '<' :: '/' :: (tag.toList ++ '>' :: rest) := by
    simp [closingTag]
  rw [shape]
  conv => lhs; unfold readContentsFrom
  simp only [closed, Except.map]

namespace Markup

mutual
def settled : Markup → Markup
  | .element tag attributes content children =>
    .element tag (Json.settledMembers attributes) content (settledOf children)
  | other => other

def settledOf : List Markup → List Markup
  | [] => []
  | markup :: rest => markup.settled :: settledOf rest
end

def contentsText (indent outer : Nat) (tag : String) (run : List String) (children : List Markup) :
    List Char :=
  '\n' :: (Text.writtenLines indent (run.map String.toList) ++
    (emitLines indent children ++ (pad outer ++ closingTag tag)))

def insideText (indent : Nat) (tag : String) : Option String → List Markup → List Char
  | none, [] => []
  | some words, [] => Text.escapeContent words.toList ++ closingTag tag
  | content, child :: children =>
    contentsText (indent + 2) indent tag content.toList (child :: children)

def elementText (indent : Nat) (tag : String) (attributes : List (String × Json))
    (content : Option String) (children : List Markup) : List Char :=
  '<' :: (tag.toList ++ (attributesText attributes ++
    (tagEndText (content.isNone && children.isEmpty) ++ insideText indent tag content children)))

theorem emit_element (indent : Nat) (tag : String) (attributes : List (String × Json))
    (content : Option String) (children : List Markup) :
    emit indent (.element tag attributes content children) =
      pad indent ++ elementText indent tag attributes content children := by
  unfold emit elementText insideText
  cases content <;> cases children <;> simp [tagEndText, contentsText, Text.writtenLines, pad]

variable {indent outer : Nat} {tag : String} {run : List String} {children : List Markup}

private theorem contentsText_text (content : String) :
    contentsText indent outer tag run (.text content :: children) =
      contentsText indent outer tag (run ++ [content]) children := by
  simp [contentsText, emitLines, emit, Text.writtenLines, pad]

private theorem contentsText_blocked (name : String) :
    contentsText indent outer tag run (.blocked name :: children) =
      '\n' :: (Text.writtenLines indent (run.map String.toList) ++ (pad indent ++
        (blockedText name ++ contentsText indent outer tag [] children))) := by
  simp [contentsText, emitLines, emit, Text.writtenLines]

private theorem contentsText_element (inner : String) (attributes : List (String × Json))
    (content : Option String) (inside : List Markup) :
    contentsText indent outer tag run (.element inner attributes content inside :: children) =
      '\n' :: (Text.writtenLines indent (run.map String.toList) ++ (pad indent ++
        (elementText indent inner attributes content inside ++
          contentsText indent outer tag [] children))) := by
  simp [contentsText, emitLines, emit_element, Text.writtenLines]

def ReadsBack (element : Reader Term) (indent : Nat) : Markup → Prop
  | .element tag attributes content children =>
    isTagName tag.toList = true ∧
      ∀ rest, element (elementText indent tag attributes content children ++ rest) =
        .ok (.element tag (Json.settledMembers attributes)
          (gather content.toList (piecesOf (settledOf children))), rest)
  | _ => True

end Markup

open Markup

theorem stopsAt_closingTag (tag : String) (rest : List Char) :
    stopsAt isTextChar (closingTag tag ++ rest) = true := rfl

theorem runTerms_reverse_append (run : List String) (read : List Term) :
    (runTerms run ++ read).reverse = read.reverse ++ runTerms run := by
  unfold runTerms
  split <;> simp

/-- The run of words up to the next tag or comment is read as one text. -/
theorem readContentsFrom_run {element : Reader Term} {tag : Option String} {budget : Nat}
    {read : List Term} (n k : Nat) (run : List String) {rest : List Char}
    (stop : stopsAt isTextChar rest = true) :
    readContentsFrom element tag (budget + 1) read
        ('\n' :: (Text.writtenLines n (run.map String.toList) ++ (pad k ++ rest))) =
      readContentsFrom element tag budget (runTerms run ++ read) rest := by
  have plain : ('\n' :: (Text.writtenLines n (run.map String.toList) ++ pad k)).all isTextChar = true := by
    rw [List.all_cons, List.all_append, all_isTextChar_writtenLines, all_isTextChar_pad]
    rfl
  have step : readContentsFrom element tag (budget + 1) read
      (('\n' :: (Text.writtenLines n (run.map String.toList) ++ pad k)) ++ rest) = _ :=
    readContentsFrom_text (List.cons_ne_nil _ _) plain stop
  rw [textTerm?_writtenLines] at step
  simpa using step

private theorem elementText_front (indent : Nat) {tag : String} (named : isTagName tag.toList = true)
    (attributes : List (String × Json)) (content : Option String) (children : List Markup) :
    ∃ c tail, elementText indent tag attributes content children = '<' :: c :: tail ∧ c ≠ '/' := by
  obtain ⟨c, name, shape, start, _⟩ := isTagName_parts named
  exact ⟨c, _, by rw [elementText, shape, List.cons_append], ne_of_isNameStart start rfl⟩

private theorem readContentsFrom_contentsText {element : Reader Term} {tag : String}
    (named : isTagName tag.toList = true) {indent outer : Nat} {children : List Markup}
    (each : ∀ child ∈ children, child.ReadsBack element indent) (run : List String)
    (read : List Term) (rest : List Char) {budget : Nat}
    (bound : (contentsText indent outer tag run children).length < budget) :
    readContentsFrom element (some tag) budget read
        (contentsText indent outer tag run children ++ rest) =
      .ok (read.reverse ++ gather run (piecesOf (settledOf children)), rest) := by
  induction children generalizing run read budget with
  | nil =>
    have long : 2 ≤ budget := by
      simp only [contentsText, List.length_cons, List.length_append, closingTag] at bound
      omega
    obtain ⟨left, rfl⟩ := Nat.exists_eq_add_of_le' long
    simp only [contentsText, emitLines, List.nil_append, List.cons_append, List.append_assoc]
    rw [readContentsFrom_run indent outer run (stopsAt_closingTag tag rest),
      readContentsFrom_close named, runTerms_reverse_append]
    rfl
  | cons child children step =>
    have others : ∀ child ∈ children, child.ReadsBack element indent := fun other inside =>
      each other (by simp [inside])
    -- A text only joins the run; anything else takes one round for the run and one for itself.
    match child with
    | .text content =>
      rw [contentsText_text] at bound ⊢
      exact step others (run ++ [content]) read bound
    | .blocked name =>
      rw [contentsText_blocked] at bound ⊢
      have long : 0 < (blockedText name).length := by simp [blockedText_eq]
      simp only [List.length_cons, List.length_append] at bound
      obtain ⟨left, rfl⟩ := Nat.exists_eq_add_of_le' (show 2 ≤ budget by omega)
      simp only [List.cons_append, List.append_assoc]
      rw [readContentsFrom_run indent indent run rfl, readContentsFrom_blocked,
        step others [] _ (by omega), runTerms_reverse_append, List.append_assoc]
      rfl
    | .element inner attributes content inside =>
      obtain ⟨innerNamed, reads⟩ := each _ (List.mem_cons_self ..)
      obtain ⟨c, tail, front, slash⟩ := elementText_front indent innerNamed attributes
        content inside
      have found := reads (contentsText indent outer tag [] children ++ rest)
      rw [contentsText_element, front] at bound ⊢
      rw [front] at found
      simp only [List.length_cons, List.length_append] at bound
      obtain ⟨left, rfl⟩ := Nat.exists_eq_add_of_le' (show 2 ≤ budget by omega)
      simp only [List.cons_append, List.append_assoc] at found ⊢
      rw [readContentsFrom_run indent indent run rfl, readContentsFrom_element slash found,
        step others [] _ (by omega), List.reverse_cons, runTerms_reverse_append, List.append_assoc,
        List.append_assoc]
      rfl

private theorem readContentsFrom_words {element : Reader Term} {tag : String}
    (named : isTagName tag.toList = true) (words : String) (rest : List Char) {budget : Nat}
    (bound : 1 < budget) :
    readContentsFrom element (some tag) budget []
        (Text.escapeContent words.toList ++ (closingTag tag ++ rest)) =
      .ok (runTerms [words], rest) := by
  obtain ⟨left, rfl⟩ := Nat.exists_eq_add_of_le' bound
  by_cases empty : Text.escapeContent words.toList = []
  · have noTerms : runTerms [words] = [] := by
      rw [← textTerm?_escapeContent, empty]
      rfl
    rw [empty, List.nil_append, readContentsFrom_close named, noTerms]
    rfl
  · rw [readContentsFrom_text empty (all_isTextChar_escapeContent _) (stopsAt_closingTag tag rest),
      textTerm?_escapeContent, readContentsFrom_close named, runTerms_reverse_append]
    rfl

private theorem readContents_insideText {element : Reader Term} {tag : String}
    (named : isTagName tag.toList = true) {indent : Nat} {content : Option String}
    {children : List Markup} (each : ∀ child ∈ children, child.ReadsBack element (indent + 2))
    (opens : (content.isNone && children.isEmpty) = false) (rest : List Char) :
    readContents element (some tag) (insideText indent tag content children ++ rest) =
      .ok (gather content.toList (piecesOf (settledOf children)), rest) := by
  match content, children with
  | none, [] => cases opens
  | some words, [] =>
    have long : 0 < (closingTag tag).length := by simp [closingTag]
    rw [insideText, List.append_assoc, readContents, readContentsFrom_words named words rest
      (by simp only [List.length_append]; omega)]
    rfl
  | content, child :: children =>
    rw [insideText, readContents, readContentsFrom_contentsText named each _ _ _
      (by simp only [List.length_append]; omega)]
    rfl

inductive Markup.Writable : (depth : Nat) → Markup → Prop
  | text (depth : Nat) (content : String) : Writable depth (.text content)
  | blocked (depth : Nat) (name : String) : Writable depth (.blocked name)
  | element {depth : Nat} {tag : String} {attributes : List (String × Json)}
      {content : Option String} {children : List Markup} (named : isTagName tag.toList = true)
      (entries : ∀ entry ∈ attributes, Program.Writable entry)
      (inside : ∀ child ∈ children, Writable depth child) :
      Writable (depth + 1) (.element tag attributes content children)

/-- An element that can be written is read back from its lines, with everything inside it. -/
theorem readElement_text {depth : Nat} {markup : Markup} (writable : markup.Writable depth)
    (indent : Nat) : markup.ReadsBack (readElement depth) indent := by
  induction writable generalizing indent with
  | text | blocked => trivial
  | @element depth tag attributes content children named entries _ step =>
    refine ⟨named, fun rest => ?_⟩
    have stop : stopsAt isTagChar (attributesText attributes ++
        (tagEndText (content.isNone && children.isEmpty) ++
          (insideText indent tag content children ++ rest))) = true := by
      cases attributes <;> cases content <;> cases children <;> rfl
    obtain ⟨trimmed, name⟩ := readName?_tag named stop
    have attributesRead := readAttributes_text entries (content.isNone && children.isEmpty)
      (insideText indent tag content children ++ rest)
    obtain ⟨c, letters, shape, start, _⟩ := isTagName_parts named
    have opened : ∀ cs, expect "<" ('<' :: cs) = .ok cs := fun _ => rfl
    simp only [elementText, List.cons_append, List.append_assoc, readElement, opened, trimmed]
    split
    · rename_i same
      rw [shape] at same
      exact absurd (List.cons.inj same).1 (ne_of_isNameStart start rfl)
    · simp only [name, attributesRead]
      cases closed : content.isNone && children.isEmpty with
      | true =>
        obtain ⟨rfl, rfl⟩ : content = none ∧ children = [] := by simpa using closed
        rfl
      | false =>
        have read := readContents_insideText named
          (fun child inside => step child inside (indent + 2)) closed rest
        simp only [read]
        rfl

end UiPlan.Program
