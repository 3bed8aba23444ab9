import UiPlan.Proofs.Tree.Hosted
import UiPlan.Tree.Html

/-! HTML read back by a reader that knows nothing of the tree. It cuts a text into tags, each
from an opening bracket to the next closing one, and the stretches between them; what it finds
in the HTML of a tree are the tags of the elements and the texts of the tree. A text or a value
cannot end the piece it stands in, since escaping leaves no bracket and no quote in it.
-/
namespace UiPlan.Html

open UiPlan.Tree (escapeHtml escapeHtmlChar attributeHtml attributesHtml isVoid Hosted)

def unescape : List Char → List Char
  | '&' :: 'a' :: 'm' :: 'p' :: ';' :: rest => '&' :: unescape rest
  | '&' :: 'l' :: 't' :: ';' :: rest => '<' :: unescape rest
  | '&' :: 'g' :: 't' :: ';' :: rest => '>' :: unescape rest
  | '&' :: 'q' :: 'u' :: 'o' :: 't' :: ';' :: rest => '"' :: unescape rest
  | '&' :: '#' :: '3' :: '9' :: ';' :: rest => '\'' :: unescape rest
  | c :: rest => c :: unescape rest
  | [] => []

inductive Piece where
  | tag (inside : List Char)
  | text (content : List Char)

def split : List Char → Option (List Piece)
  | [] => some []
  | '<' :: rest =>
    if '>' ∈ rest then
      (split (rest.dropWhile (· ≠ '>')).tail).map (.tag (rest.takeWhile (· ≠ '>')) :: ·)
    else none
  | c :: rest =>
    (split (rest.dropWhile (· ≠ '<'))).map (.text (c :: rest.takeWhile (· ≠ '<')) :: ·)
termination_by cs => cs.length
decreasing_by
  all_goals
    have shorter := fun p => (List.dropWhile_suffix p (l := rest)).length_le
    grind

def endsName (c : Char) : Bool := c = '=' || c = ' '

def readAttributes : List Char → List (String × String)
  | [] => []
  | _ :: rest =>
    let name := String.ofList (rest.takeWhile fun c => !endsName c)
    let behind := rest.dropWhile fun c => !endsName c
    if behind.take 2 = ['=', '"'] then
      let value := behind.drop 2
      (name, .ofList (unescape (value.takeWhile (· ≠ '"')))) ::
        readAttributes (value.dropWhile (· ≠ '"')).tail
    else (name, "") :: readAttributes behind
termination_by cs => cs.length
decreasing_by
  all_goals
    have shorter := fun (p : Char → Bool) cs => (List.dropWhile_suffix p (l := cs)).length_le
    grind

inductive Mark where
  | opening (tag : String) (attributes : List (String × String))
  | closing (tag : String)
  | text (content : String)

def Piece.mark : Piece → Mark
  | .text content => .text (.ofList (unescape content))
  | .tag ('/' :: name) => .closing (.ofList name)
  | .tag inside =>
    .opening (.ofList (inside.takeWhile (· ≠ ' '))) (readAttributes (inside.dropWhile (· ≠ ' ')))

def read (html : String) : Option (List Mark) := (split html.toList).map (·.map Piece.mark)

mutual
/-- The tags and texts of a tree in the order of the document. -/
def marks : Tree → List Mark
  | .text content => [.text content]
  | .group children => marksOf children
  | .element tag attributes children =>
    .opening tag attributes :: if isVoid tag then [] else marksOf children ++ [.closing tag]

def marksOf : List Tree → List Mark
  | [] => []
  | tree :: rest => marks tree ++ marksOf rest
end

def joinText (content : String) : List Mark → List Mark
  | .text more :: rest => .text (content ++ more) :: rest
  | others => .text content :: others

def joinTexts : List Mark → List Mark
  | [] => []
  | .text content :: rest => if content = "" then joinTexts rest else joinText content (joinTexts rest)
  | tag :: rest => tag :: joinTexts rest

private theorem unescape_escapeHtmlChar (c : Char) (rest : List Char) :
    unescape (escapeHtmlChar c ++ rest) = c :: unescape rest := by
  unfold escapeHtmlChar
  split
  · rfl
  · rfl
  · rfl
  · rfl
  · rfl
  · rename_i other _ _ _ _
    have plain := fun (word : List Char) (same : c = '&') (_ : rest = word) => other same
    exact unescape.eq_6 c rest (fun _ => plain _) (fun _ => plain _) (fun _ => plain _)
      (fun _ => plain _) (fun _ => plain _)

theorem unescape_escapeHtml (cs rest : List Char) :
    unescape (escapeHtml cs ++ rest) = cs ++ unescape rest := by
  induction cs with
  | nil => rfl
  | cons c cs step =>
    rw [escapeHtml, List.flatMap_cons, List.append_assoc, unescape_escapeHtmlChar, ← escapeHtml, step]
    rfl

def isInert (c : Char) : Bool := c ≠ '<' && c ≠ '>' && c ≠ '"'

private theorem inert_escapeHtmlChar (c : Char) : (escapeHtmlChar c).all isInert = true := by
  unfold escapeHtmlChar
  split
  · rfl
  · rfl
  · rfl
  · rfl
  · rfl
  · rename_i less greater quote _
    simp only [List.all_cons, List.all_nil, isInert, Bool.and_true, Bool.and_eq_true, decide_eq_true_eq]
    exact ⟨⟨less, greater⟩, quote⟩

theorem inert_escapeHtml {cs : List Char} {c : Char} (inside : c ∈ escapeHtml cs) :
    isInert c = true := by
  obtain ⟨d, -, written⟩ := List.mem_flatMap.mp inside
  exact List.all_eq_true.mp (inert_escapeHtmlChar d) c written

private theorem escapeHtml_ne_nil {cs : List Char} (solid : cs ≠ []) : escapeHtml cs ≠ [] := by
  obtain ⟨c, rest, rfl⟩ := List.exists_cons_of_ne_nil solid
  have written : escapeHtmlChar c ≠ [] := by
    unfold escapeHtmlChar
    split <;> simp
  simp [escapeHtml, written]

theorem split_tag {inside : List Char} (plain : '>' ∉ inside) (rest : List Char) :
    split ('<' :: (inside ++ '>' :: rest)) = (split rest).map (.tag inside :: ·) := by
  have kept : ∀ c ∈ inside, decide (c ≠ '>') = true := fun c member =>
    decide_eq_true fun same => plain (same ▸ member)
  rw [split, if_pos (by simp), List.takeWhile_append_of_pos kept, List.dropWhile_append_of_pos kept]
  simp

def joinPiece (content : List Char) : List Piece → List Piece
  | .text more :: rest => .text (content ++ more) :: rest
  | others => .text content :: others

theorem split_cons {c : Char} (plain : c ≠ '<') (rest : List Char) :
    split (c :: rest) =
      (split (rest.dropWhile (· ≠ '<'))).map (.text (c :: rest.takeWhile (· ≠ '<')) :: ·) :=
  split.eq_3 c rest plain

private theorem split_text {content : List Char} (plain : '<' ∉ content) (solid : content ≠ [])
    (rest : List Char) : split (content ++ rest) = (split rest).map (joinPiece content) := by
  obtain ⟨c, cs, rfl⟩ := List.exists_cons_of_ne_nil solid
  have kept : ∀ d ∈ cs, decide (d ≠ '<') = true := fun d member =>
    decide_eq_true fun same => plain (same ▸ List.mem_cons_of_mem _ member)
  have other : c ≠ '<' := fun same => plain (same ▸ List.mem_cons_self)
  rw [List.cons_append, split_cons other, List.takeWhile_append_of_pos kept,
    List.dropWhile_append_of_pos kept]
  cases rest with
  | nil => simp [split, joinPiece]
  | cons d rest =>
    by_cases bracket : d = '<'
    · subst bracket
      by_cases closed : '>' ∈ rest
      · simp [split, closed, Function.comp_def, joinPiece]
      · simp [split, closed]
    · rw [split_cons bracket]
      simp [bracket, Function.comp_def, joinPiece]

def isName (name : String) : Bool :=
  name.toList.all fun c => isInert c && !endsName c && c ≠ '/'

theorem isName_of_mem_hostTags {tag : String} (known : tag ∈ Tree.hostTags) : isName tag = true :=
  List.all_eq_true.mp (by decide : Tree.hostTags.all isName = true) tag known

private theorem isName_of_mem_hostAttributes {name : String} (known : name ∈ Tree.hostAttributes) :
    isName name = true :=
  List.all_eq_true.mp (by decide : Tree.hostAttributes.all isName = true) name known

theorem plain_of_isName {name : String} (named : isName name = true) {c : Char}
    (inside : c ∈ name.toList) :
    isInert c = true ∧ endsName c = false ∧ c ≠ '/' := by
  simpa [and_assoc] using List.all_eq_true.mp named c inside

def Continues (rest : List Char) : Prop := rest = [] ∨ ∃ others, rest = ' ' :: others

theorem continues_attributesHtml (attributes : List (String × String)) :
    Continues (attributesHtml attributes) := by
  cases attributes with
  | nil => exact .inl rfl
  | cons entry rest => exact .inr ⟨_, rfl⟩

private theorem readAttributes_attributeHtml {name : String} (named : isName name = true) (value : String)
    {rest : List Char} (continues : Continues rest) :
    readAttributes (attributeHtml name value ++ rest) = (name, value) :: readAttributes rest := by
  have kept : ∀ c ∈ name.toList, (!endsName c) = true := fun c inside => by
    rw [(plain_of_isName named inside).2.1]
    rfl
  simp only [attributeHtml, List.cons_append, List.append_assoc]
  rw [readAttributes, List.takeWhile_append_of_pos kept, List.dropWhile_append_of_pos kept]
  by_cases bare : value = ""
  · rcases continues with rfl | ⟨others, rfl⟩ <;> simp [bare, endsName]
  · have quotes : ∀ c ∈ escapeHtml value.toList, (!decide (c = '"')) = true := fun c inside => by
      have inert := inert_escapeHtml inside
      simp only [isInert, Bool.and_eq_true, decide_eq_true_eq] at inert
      simpa using inert.2
    have decoded := unescape_escapeHtml value.toList []
    simp only [List.append_nil, unescape] at decoded
    simp [bare, endsName, List.takeWhile_append_of_pos quotes, List.dropWhile_append_of_pos quotes,
      decoded]

private theorem readAttributes_attributesHtml {attributes : List (String × String)}
    (named : ∀ entry ∈ attributes, isName entry.1 = true) :
    readAttributes (attributesHtml attributes) = attributes := by
  induction attributes with
  | nil => simp [attributesHtml, readAttributes]
  | cons entry rest step =>
    obtain ⟨front, behind⟩ := List.forall_mem_cons.mp named
    rw [attributesHtml, readAttributes_attributeHtml front _ (continues_attributesHtml rest),
      step behind]

theorem not_mem_of_isName {name : String} (named : isName name = true) : '>' ∉ name.toList :=
  fun inside => by simpa [isInert] using (plain_of_isName named inside).1

private theorem not_mem_attributesHtml {attributes : List (String × String)}
    (named : ∀ entry ∈ attributes, isName entry.1 = true) : '>' ∉ attributesHtml attributes := by
  induction attributes with
  | nil => simp [attributesHtml]
  | cons entry rest step =>
    obtain ⟨front, behind⟩ := List.forall_mem_cons.mp named
    have own := not_mem_of_isName front
    have value : '>' ∉ escapeHtml entry.2.toList := fun inside => by
      simpa [isInert] using inert_escapeHtml inside
    by_cases bare : entry.2 = ""
    · simp [attributesHtml, attributeHtml, bare, own, step behind]
    · simp [attributesHtml, attributeHtml, bare, own, value, step behind]

private theorem mark_opening {tag : String} (named : isName tag = true)
    {attributes : List (String × String)} (names : ∀ entry ∈ attributes, isName entry.1 = true) :
    (Piece.tag (tag.toList ++ attributesHtml attributes)).mark = .opening tag attributes := by
  have continues := continues_attributesHtml attributes
  have kept : ∀ c ∈ tag.toList, decide (c ≠ ' ') = true := fun c inside => by
    have plain := (plain_of_isName named inside).2.1
    simp only [endsName, Bool.or_eq_false_iff, decide_eq_false_iff_not] at plain
    exact decide_eq_true plain.2
  have opens : ∀ name, tag.toList ++ attributesHtml attributes ≠ '/' :: name := by
    intro name same
    cases letters : tag.toList with
    | nil =>
      rw [letters, List.nil_append] at same
      rcases continues with last | ⟨others, more⟩ <;> simp_all
    | cons c rest =>
      rw [letters] at same
      exact (plain_of_isName named (letters ▸ List.mem_cons_self)).2.2 (List.cons.inj same).1
  rw [Piece.mark.eq_3 _ opens, List.takeWhile_append_of_pos kept, List.dropWhile_append_of_pos kept]
  have read := readAttributes_attributesHtml names
  rcases continues with last | ⟨others, more⟩
  · rw [last] at read ⊢
    simp [read]
  · rw [more] at read ⊢
    simp [read]

def Mark.html : Mark → List Char
  | .opening tag attributes => '<' :: (tag.toList ++ attributesHtml attributes ++ ['>'])
  | .closing tag => '<' :: '/' :: (tag.toList ++ ['>'])
  | .text content => escapeHtml content.toList

def Mark.Named : Mark → Prop
  | .opening tag attributes => isName tag = true ∧ ∀ entry ∈ attributes, isName entry.1 = true
  | .closing tag => isName tag = true
  | .text _ => True

mutual
theorem html_eq_marks (tree : Tree) : tree.html = (marks tree).flatMap Mark.html := by
  match tree with
  | .text content => simp [Tree.html, marks, Mark.html]
  | .group children =>
    rw [Tree.html, marks]
    exact htmlOf_eq_marks children
  | .element tag attributes children =>
    rw [Tree.html, marks, htmlOf_eq_marks children]
    cases isVoid tag <;> simp [Mark.html]

theorem htmlOf_eq_marks (trees : List Tree) : Tree.htmlOf trees = (marksOf trees).flatMap Mark.html := by
  match trees with
  | [] => rfl
  | tree :: rest =>
    rw [Tree.htmlOf, marksOf, html_eq_marks tree, htmlOf_eq_marks rest, List.flatMap_append]
end

private theorem map_mark_joinPiece (content : String) (pieces : List Piece) :
    (joinPiece (escapeHtml content.toList) pieces).map Piece.mark =
      joinText content (pieces.map Piece.mark) := by
  have decoded := unescape_escapeHtml content.toList
  have alone := decoded []
  simp only [List.append_nil, unescape] at alone
  cases pieces with
  | nil => simp [joinPiece, Piece.mark, joinText, alone]
  | cons piece rest =>
    cases piece with
    | text more => simp [joinPiece, Piece.mark, joinText, decoded]
    | tag inside =>
      have other : ∀ more, (Piece.tag inside).mark ≠ .text more := by
        intro more
        unfold Piece.mark
        split <;> simp_all
      simp only [joinPiece, List.map_cons]
      rw [joinText.eq_2 _ _ fun more _ same => other more (List.cons.inj same).1]
      simp [Piece.mark, alone]

/-- Marks that are written one after the other are read back with their texts joined. -/
theorem split_marks {marks : List Mark} (named : ∀ mark ∈ marks, mark.Named) :
    (split (marks.flatMap Mark.html)).map (·.map Piece.mark) = some (joinTexts marks) := by
  induction marks with
  | nil => simp [split, joinTexts]
  | cons mark rest step =>
    obtain ⟨front, behind⟩ := List.forall_mem_cons.mp named
    obtain ⟨pieces, cut, marked⟩ := Option.map_eq_some_iff.mp (step behind)
    rw [List.flatMap_cons]
    cases mark with
    | opening tag attributes =>
      obtain ⟨name, names⟩ := front
      have whole : '>' ∉ tag.toList ++ attributesHtml attributes := fun inside =>
        (List.mem_append.mp inside).elim (not_mem_of_isName name) (not_mem_attributesHtml names)
      simp only [Mark.html, List.cons_append, List.append_assoc, List.nil_append] at whole ⊢
      rw [← List.append_assoc, split_tag whole, cut]
      simp [mark_opening name names, marked, joinTexts]
    | closing tag =>
      have whole : '>' ∉ '/' :: tag.toList := by simpa using not_mem_of_isName front
      simp only [Mark.html, List.cons_append, List.append_assoc, List.nil_append]
      rw [← List.cons_append, split_tag whole, cut]
      simp [Piece.mark, marked, joinTexts]
    | text content =>
      -- An empty text leaves no piece, and one that is not empty is joined to a text behind it.
      rw [joinTexts, ← marked]
      by_cases empty : content = ""
      · simp [empty, Mark.html, escapeHtml, cut]
      · have plain : '<' ∉ escapeHtml content.toList := fun inside => by
          simpa [isInert] using inert_escapeHtml inside
        have solid := escapeHtml_ne_nil (mt String.toList_eq_nil_iff.mp empty)
        rw [Mark.html, split_text plain solid, cut, if_neg empty]
        simp [map_mark_joinPiece]

def Mark.opening? : Mark → Option (String × List (String × String))
  | .opening tag attributes => some (tag, attributes)
  | _ => none

def Mark.closing? : Mark → Option String
  | .closing tag => some tag
  | _ => none

def plainText : List Mark → String
  | [] => ""
  | .text content :: rest => content ++ plainText rest
  | _ :: rest => plainText rest

/-- Whether each closing tag is for the innermost tag that is still open, and none stays open. -/
def nests : (pending : List String) → List Mark → Bool
  | pending, [] => pending.isEmpty
  | pending, .text _ :: rest => nests pending rest
  | pending, .opening tag _ :: rest => nests (if isVoid tag then pending else tag :: pending) rest
  | innermost :: pending, .closing tag :: rest => innermost = tag && nests pending rest
  | [], .closing _ :: _ => false

section Joining

private theorem filterMap_joinText {α : Type} {f : Mark → Option α} (blank : ∀ content, f (.text content) = none)
    (content : String) (marks : List Mark) :
    (joinText content marks).filterMap f = marks.filterMap f := by
  unfold joinText
  split <;> simp [blank]

theorem filterMap_joinTexts {α : Type} {f : Mark → Option α} (blank : ∀ content, f (.text content) = none)
    (marks : List Mark) : (joinTexts marks).filterMap f = marks.filterMap f := by
  fun_induction joinTexts marks with
  | case1 => rfl
  | case2 rest step => simpa [blank] using step
  | case3 content rest solid step => simpa [blank, filterMap_joinText blank] using step
  | case4 tag rest other step => simp [List.filterMap_cons, step]

private theorem plainText_joinText (content : String) (marks : List Mark) :
    plainText (joinText content marks) = content ++ plainText marks := by
  unfold joinText
  split <;> simp [plainText, String.append_assoc]

theorem plainText_joinTexts (marks : List Mark) : plainText (joinTexts marks) = plainText marks := by
  fun_induction joinTexts marks with
  | case1 => rfl
  | case2 rest step => simpa [plainText] using step
  | case3 content rest solid step => rw [plainText_joinText, step, plainText]
  | case4 tag rest other step => cases tag <;> simp_all [plainText]

private theorem nests_joinText (content : String) (pending : List String) (marks : List Mark) :
    nests pending (joinText content marks) = nests pending marks := by
  unfold joinText
  split <;> simp [nests]

theorem nests_joinTexts (pending : List String) (marks : List Mark) :
    nests pending (joinTexts marks) = nests pending marks := by
  fun_induction joinTexts marks generalizing pending with
  | case1 => rfl
  | case2 rest step => simpa [nests] using step pending
  | case3 content rest solid step => rw [nests_joinText, step, nests]
  | case4 tag rest other step =>
    cases tag with
    | text content => exact absurd rfl (other content)
    | opening tag attributes => simp [nests, step]
    | closing tag => cases pending <;> simp [nests, step]

end Joining

mutual
theorem nests_marks (tree : Tree) (pending : List String) (rest : List Mark) :
    nests pending (marks tree ++ rest) = nests pending rest := by
  match tree with
  | .text content => rfl
  | .group children =>
    rw [marks]
    exact nests_marksOf children pending rest
  | .element tag attributes children =>
    by_cases void : isVoid tag = true
    · simp [marks, nests, void]
    · simp [marks, nests, void, nests_marksOf children]

theorem nests_marksOf (trees : List Tree) (pending : List String) (rest : List Mark) :
    nests pending (marksOf trees ++ rest) = nests pending rest := by
  match trees with
  | [] => rfl
  | tree :: others =>
    rw [marksOf, List.append_assoc, nests_marks tree, nests_marksOf others]
end

theorem plainText_append (front back : List Mark) :
    plainText (front ++ back) = plainText front ++ plainText back := by
  induction front with
  | nil => simp [plainText]
  | cons mark rest step => cases mark <;> simp [plainText, step, String.append_assoc]

private theorem isVoid_iff {tag : String} : isVoid tag = true ↔ tag ∈ Tree.voidTags := by
  simp [isVoid, Tree.voidTags]

/-- What the marks of a tree say about it. -/
structure Faithful (marks : List Mark) (elements : List Tree.Element) (content : String) : Prop where
  openings : marks.filterMap Mark.opening? = elements.map fun element => (element.tag, element.attributes)
  closings : (marks.filterMap Mark.closing?).Perm ((elements.map (·.tag)).filter fun tag => !isVoid tag)
  texts : plainText marks = content

theorem Faithful.append {front back : List Mark} {elements others : List Tree.Element}
    {content more : String} (first : Faithful front elements content)
    (second : Faithful back others more) :
    Faithful (front ++ back) (elements ++ others) (content ++ more) where
  openings := by rw [List.filterMap_append, List.map_append, first.openings, second.openings]
  closings := by
    rw [List.filterMap_append, List.map_append, List.filter_append]
    exact first.closings.append second.closings
  texts := by rw [plainText_append, first.texts, second.texts]

theorem faithful_marksOf {trees : List Tree}
    (each : ∀ tree ∈ trees, Faithful (marks tree) tree.elements tree.textContent) :
    Faithful (marksOf trees) (Tree.elementsOf trees) (Tree.textContentOf trees) := by
  induction trees with
  | nil => exact ⟨rfl, .refl _, rfl⟩
  | cons tree rest step =>
    obtain ⟨front, behind⟩ := List.forall_mem_cons.mp each
    exact front.append (step behind)

/-- The marks of a hosted tree nest, and tell its elements and its text. -/
theorem faithful_marks {tree : Tree} (hosted : Hosted tree) :
    Faithful (marks tree) tree.elements tree.textContent := by
  induction hosted with
  | text content => exact ⟨rfl, .refl _, by simp [marks, plainText, Tree.textContent]⟩
  | group inside step =>
    rw [marks, Tree.elements, Tree.textContent]
    exact faithful_marksOf step
  | @element tag attributes children known named hollow inside step =>
    rw [marks, Tree.elements, Tree.textContent]
    by_cases void : isVoid tag = true
    · rw [hollow (isVoid_iff.mp void)]
      exact ⟨by simp [void, Mark.opening?, Tree.elementsOf], by simp [void, Mark.closing?, Tree.elementsOf],
        by simp [void, plainText, Tree.textContentOf]⟩
    · obtain ⟨openings, closings, texts⟩ := faithful_marksOf step
      have moved := (List.perm_append_singleton tag _).trans (closings.cons tag)
      exact ⟨by simp [void, Mark.opening?, openings], by
        simpa [void, Mark.closing?, List.filterMap_cons] using moved,
        by simp [void, plainText, plainText_append, texts]⟩

theorem mem_marksOf {mark : Mark} {trees : List Tree} :
    mark ∈ marksOf trees ↔ ∃ tree ∈ trees, mark ∈ marks tree := by
  induction trees with
  | nil => simp [marksOf]
  | cons tree rest step => simp [marksOf, step]

private theorem named_marks {tree : Tree} (hosted : Hosted tree) : ∀ mark ∈ marks tree, mark.Named := by
  induction hosted with
  | text content => simp [marks, Mark.Named]
  | group _ step =>
    intro mark member
    rw [marks, mem_marksOf] at member
    obtain ⟨child, inside, deeper⟩ := member
    exact step child inside mark deeper
  | element known named _ _ step =>
    intro mark member
    rw [marks, List.mem_cons] at member
    rcases member with rfl | within
    · exact ⟨isName_of_mem_hostTags known, fun entry inside =>
        isName_of_mem_hostAttributes (named entry inside)⟩
    · split at within
      · cases within
      · rcases List.mem_append.mp within with deeper | last
        · obtain ⟨child, inside, deeper⟩ := mem_marksOf.mp deeper
          exact step child inside mark deeper
        · rw [List.mem_singleton.mp last]
          exact isName_of_mem_hostTags known

/-- The HTML of a hosted tree is read back to its marks, where texts that touch are one. -/
theorem read_toHtml {tree : Tree} (hosted : Hosted tree) :
    read tree.toHtml = some (joinTexts (marks tree)) := by
  rw [read, Tree.toHtml, String.toList_ofList, html_eq_marks]
  exact split_marks (named_marks hosted)

end UiPlan.Html
