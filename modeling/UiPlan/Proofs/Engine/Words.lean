import UiPlan.Proofs.Component.Words
import UiPlan.Proofs.Engine.Closure

/-! What text a program shows. For programs made of components that only place what they are given,
the text of the tree is read off the term: titles, texts and literals come in the order in which they
stand, each of them once, and an attribute stands in for children that show nothing at all.
-/
namespace UiPlan

namespace Program

def given? (attributes : List (String × Json)) (name : String) : Option Json :=
  match (attributes.reverse.find? (·.1 = name)).map Prod.snd with
  | some .null => none
  | found => found

def givenText (attributes : List (String × Json)) (name : String) : String :=
  ((given? attributes name).bind Component.Props.scalarText?).getD ""

mutual
def literalWords : Json → String
  | .null | .bool _ | .obj _ => ""
  | .str value => value
  | .num value => .ofList value.text
  | .arr items => literalWordsOf items

def literalWordsOf : List Json → String
  | [] => ""
  | item :: rest => literalWords item ++ literalWordsOf rest
end

mutual
def literalShows : Json → Bool
  | .null | .bool _ | .obj _ => false
  | .str _ | .num _ => true
  | .arr items => literalShowsAny items

def literalShowsAny : List Json → Bool
  | [] => false
  | item :: rest => literalShows item || literalShowsAny rest
end

namespace Term

def shows : Term → Bool
  | .literal value => literalShows value
  | _ => true

def title (tag : String) (attributes : List (String × Json)) : String :=
  if tag = "Card" ∨ tag = "Modal" then givenText attributes "title" else ""

mutual
def words : Term → String
  | .text content => content
  | .literal value => literalWords value
  | .group children => wordsOf children
  | .element tag attributes children =>
    if tag = fragment then wordsOf children
    else title tag attributes ++
      if children.any shows then wordsOf children else givenText attributes "children"

def wordsOf : List Term → String
  | [] => ""
  | term :: rest => term.words ++ wordsOf rest
end

end Term

/-- The use of a tag that only places its title and its children. A dialog does if it is open. -/
def Places (use : String × List (String × Json)) : Prop :=
  use.1 = fragment ∨ use.1 ∈ ["Container", "Flex", "Grid", "Button", "Typography", "Card"] ∨
    use.1 = "Modal" ∧ (given? use.2 "isOpen" = none ∨ given? use.2 "isOpen" = some (.bool true))

end Program

namespace Engine

open Program (Term Places given? givenText literalWords literalWordsOf literalShows literalShowsAny)
open UiPlan.Tree (textContentOf textContentOf_append)

section Props

variable (attributes : List (String × Json)) (inner : List Tree) {name : String}

theorem get?_attributeValues (prop : name ≠ "key") :
    (⟨attributeValues attributes, inner⟩ : Component.Props).get? name = given? attributes name := by
  have last : Table.get? (attributeValues attributes) name =
      (attributes.reverse.find? (·.1 = name)).map Prod.snd := by
    rw [attributeValues, Table.get?_ofEntries, ← List.filter_reverse, List.find?_filter]
    congr 2
    funext entry
    by_cases same : entry.1 = name
    · simp [same, prop]
    · simp [same]
  exact congrArg (fun | some .null => none | found => found) last

theorem textOr_attributeValues (prop : name ≠ "key") :
    (⟨attributeValues attributes, inner⟩ : Component.Props).textOr name "" =
      givenText attributes name := by
  rw [Component.Props.textOr, Component.Props.text?, get?_attributeValues attributes inner prop,
    givenText]

end Props

/-- What evaluation says about the text of some trees. -/
structure Tells (trees : List Tree) (words : String) (shows : Bool) : Prop where
  text : textContentOf trees = words
  empty : trees.isEmpty = !shows

theorem tells_append {front back : List Tree} {words more : String} {shows others : Bool}
    (here : Tells front words shows) (behind : Tells back more others) :
    Tells (front ++ back) (words ++ more) (shows || others) where
  text := by rw [textContentOf_append, here.text, behind.text]
  empty := by
    rw [Bool.not_or, ← here.empty, ← behind.empty]
    cases front <;> rfl

theorem tells_single {tree : Tree} {words : String} (text : tree.textContent = words) :
    Tells [tree] words true where
  text := by simp [textContentOf, text]
  empty := rfl

mutual
theorem tells_literalTrees (value : Json) {trees : List Tree} (ok : literalTrees value = .ok trees) :
    Tells trees (literalWords value) (literalShows value) := by
  match value with
  | .null | .bool _ =>
    obtain rfl := Except.ok.inj ok
    exact ⟨rfl, rfl⟩
  | .str content =>
    obtain rfl := Except.ok.inj ok
    exact tells_single rfl
  | .num number =>
    obtain rfl := Except.ok.inj ok
    exact tells_single rfl
  | .arr items => exact tells_literalTreesOf items ok
  | .obj _ => cases ok

theorem tells_literalTreesOf (items : List Json) {trees : List Tree}
    (ok : literalTreesOf items = .ok trees) :
    Tells trees (literalWordsOf items) (literalShowsAny items) := by
  match items with
  | [] =>
    obtain rfl := Except.ok.inj ok
    exact ⟨rfl, rfl⟩
  | item :: rest =>
    obtain ⟨first, more, found, others, rfl⟩ := literalTreesOf_cons_iff.mp ok
    exact tells_append (tells_literalTrees item found) (tells_literalTreesOf rest others)
end

private theorem holder_or_card (component : Component)
    (plain : component.name ∈ ["Container", "Flex", "Grid", "Button", "Typography", "Card"]) :
    component ∈ Component.holders ∨ component = .card := by
  revert plain
  cases component <;> decide

private theorem untitled_of_holder : ∀ component ∈ Component.holders,
    ¬(component.name = "Card" ∨ component.name = "Modal") := by decide

theorem textContent_render {tag : String} {attributes : List (String × Json)} {component : Component}
    (named : Component.ofName? tag = some component) (other : tag ≠ Program.fragment)
    (places : Places (tag, attributes)) (inner : List Tree) :
    (component.render ⟨attributeValues attributes, inner⟩).textContent =
      Term.title tag attributes ++
        if inner.isEmpty then givenText attributes "children" else textContentOf inner := by
  let props : Component.Props := ⟨attributeValues attributes, inner⟩
  have content : textContentOf props.content =
      if inner.isEmpty then givenText attributes "children" else textContentOf inner := by
    rw [Component.textContentOf_content, textOr_attributeValues attributes inner (by decide)]
  have title : props.textOr "title" "" = givenText attributes "title" :=
    textOr_attributeValues attributes inner (by decide)
  have same : component.name = tag := by simpa using List.find?_some named
  subst same
  rw [← content]
  rcases places.resolve_left other with plain | ⟨modal, opened⟩
  · rcases holder_or_card component plain with holder | rfl
    · rw [Component.textContent_render_holder _ holder, Term.title,
        if_neg (untitled_of_holder component holder), String.empty_append]
    · rw [Term.title, if_pos (.inl rfl), ← title]
      exact Component.textContent_renderCard props
  · have known : Component.ofName? "Modal" = some .modal := by decide
    have modal : component.name = "Modal" := modal
    rw [modal, known] at named
    obtain rfl := Option.some.inj named
    have shown : props.flagOr "isOpen" true = true := by
      rw [Component.Props.flagOr, get?_attributeValues attributes inner (by decide)]
      rcases opened with absent | set
      · rw [absent]
      · rw [set]
        rfl
    rw [Term.title, if_pos (.inr rfl), ← title]
    exact Component.textContent_renderModal shown

section Evaluation

variable {engine : Engine}

mutual
/-- The trees of a term have the text that is read off the term. -/
theorem tells_evaluate (term : Term) (places : ∀ use ∈ term.uses, Places use) {trees : List Tree}
    (ok : engine.evaluate term = .ok trees) : Tells trees term.words term.shows := by
  match term with
  | .text content =>
    obtain rfl := Except.ok.inj ok
    exact tells_single rfl
  | .literal value => exact tells_literalTrees value ok
  | .group children =>
    obtain ⟨inner, found, rfl⟩ := evaluate_group_iff.mp ok
    exact tells_single (tells_evaluateAll children places found).text
  | .element tag attributes children =>
    obtain ⟨own, deeper⟩ := List.forall_mem_cons.mp places
    obtain ⟨inner, found, here⟩ := evaluate_element_iff.mp ok
    have inside := tells_evaluateAll children deeper found
    rw [Term.words]
    rcases here with ⟨grouping, rfl⟩ | ⟨other, component, resolved, rfl⟩
    · rw [if_pos grouping]
      exact tells_single inside.text
    · have placed := textContent_render (resolve?_iff.mp resolved).2 other own inner
      rw [inside.empty, inside.text] at placed
      rw [if_neg other]
      apply tells_single
      rw [placed]
      cases children.any Term.shows <;> rfl

theorem tells_evaluateAll (terms : List Term) (places : ∀ use ∈ Term.usesOf terms, Places use)
    {trees : List Tree} (ok : engine.evaluateAll terms = .ok trees) :
    Tells trees (Term.wordsOf terms) (terms.any Term.shows) := by
  match terms with
  | [] =>
    obtain rfl := Except.ok.inj ok
    exact ⟨rfl, rfl⟩
  | term :: rest =>
    obtain ⟨here, behind⟩ := List.forall_mem_append.mp places
    obtain ⟨first, more, found, others, rfl⟩ := evaluateAll_cons_iff.mp ok
    exact tells_append (tells_evaluate term here found) (tells_evaluateAll rest behind others)
end

end Evaluation

private theorem textContent_ofTrees {trees : List Tree} {tree : Tree}
    (shown : Rendered.ofTrees trees = .tree tree) : tree.textContent = textContentOf trees := by
  unfold Rendered.ofTrees at shown
  split at shown
  · cases shown
  · obtain rfl := Rendered.tree.inj shown
    simp [textContentOf]
  · obtain rfl := Rendered.tree.inj shown
    rfl

/-- A program whose tags only place their titles and children renders a tree with the text of the
term that it returns. -/
theorem render_words {code : String} {tree : Tree} (ok : standard.render code = .ok (.tree tree)) :
    ∃ term, returned? code = some term ∧
      ((∀ use ∈ term.uses, Places use) → tree.textContent = term.words) := by
  obtain ⟨term, trees, returned, evaluated, shown⟩ := evaluate_returned? ok
  refine ⟨term, returned, fun places => ?_⟩
  rw [textContent_ofTrees shown]
  exact (tells_evaluate term places evaluated).text

def dialogCardCode : String :=
  "function GeneratedUI() \x7b return <Card title=\"A\"><Flex>\x7b[\"b\", [\"c\"]]\x7d\x7bnull\x7d" ++
    "</Flex><Fragment><Modal title=\"X\" title=\"D\" isOpen=\x7btrue\x7d children=\"e\" />" ++
    "</Fragment></Card> \x7d"

def dialogCard : Term :=
  .element "Card" [("title", .str "A")] [
    .element "Flex" [] [.literal (.arr [.str "b", .arr [.str "c"]]), .literal .null],
    .element "Fragment" [] [.element "Modal" [("title", .str "X"), ("title", .str "D"),
      ("isOpen", .bool true), ("children", .str "e")] []]]

-- The reader goes one call deeper for each character of the text.
set_option maxRecDepth 2000 in
theorem render_words_dialogCard : ∃ tree, standard.render dialogCardCode = .ok (.tree tree) ∧
    returned? dialogCardCode = some dialogCard ∧ (∀ use ∈ dialogCard.uses, Places use) ∧
      tree.textContent = "AbcDe" := by
  have card : standard.resolve? "Card" = some .card := by decide
  have flex : standard.resolve? "Flex" = some .flex := by decide
  have modal : standard.resolve? "Modal" = some .modal := by decide
  have parsed : Program.parse (Program.declarations dialogCardCode.toList) =
      .ok [⟨"GeneratedUI", [], some dialogCard⟩] := by
    delta dialogCardCode
    simp only [String.toList_append, String.reduceToList]
    rfl
  have solid : (Text.trim dialogCardCode.toList).isEmpty = false := by
    delta dialogCardCode
    simp only [String.toList_append, String.reduceToList]
    rfl
  have evaluated : ∃ tree, standard.evaluate dialogCard = .ok [tree] := by
    simp only [dialogCard, evaluate, evaluateAll, card, flex, modal]
    exact ⟨_, rfl⟩
  obtain ⟨tree, evaluated⟩ := evaluated
  have rendered : standard.render dialogCardCode = .ok (.tree tree) :=
    render_of_evaluate solid parsed rfl rfl evaluated
  have returned : returned? dialogCardCode = some dialogCard := returned?_eq_some solid parsed rfl
  have places : ∀ use ∈ dialogCard.uses, Places use := by
    simp [dialogCard, Term.uses, Term.usesOf, Places, given?, Program.fragment]
  obtain ⟨term, same, text⟩ := render_words rendered
  rw [returned] at same
  obtain rfl := Option.some.inj same
  refine ⟨tree, rendered, returned, places, ?_⟩
  rw [text places]
  decide

end Engine

end UiPlan
