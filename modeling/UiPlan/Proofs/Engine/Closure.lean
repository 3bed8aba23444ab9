import UiPlan.Proofs.Component.Built
import UiPlan.Proofs.Engine.Evaluation

/-! What a program can reach. If a program renders, every tag in the term it returned was
allowed, also the tags of elements that ended up nowhere in the tree, and the tree is
hosted. Both go by the recursion of the evaluator: a tag is resolved whenever its element
is evaluated, and the children of an element are always evaluated. What trees have in common
is shown for any property that components hand on from their children.
-/
namespace UiPlan

namespace Program.Term

mutual
def uses : Term → List (String × List (String × Json))
  | .element tag attributes children => (tag, attributes) :: usesOf children
  | .group children => usesOf children
  | _ => []

def usesOf : List Term → List (String × List (String × Json))
  | [] => []
  | term :: rest => term.uses ++ usesOf rest
end

end Program.Term

namespace Engine

open Program (Term)
open Component (Lenient chosenStyles)
open UiPlan.Tree (Built Hosted hostTags hostAttributes voidTags)

def Allows (engine : Engine) (tag : String) : Prop :=
  tag = Program.fragment ∨ tag ∈ engine.registry.names ∧ tag ∈ Component.all.map Component.name

private theorem mem_names_of_ofName? {tag : String} {component : Component}
    (found : Component.ofName? tag = some component) : tag ∈ Component.all.map Component.name :=
  List.mem_map.mpr ⟨component, List.mem_of_find?_eq_some found,
    by simpa using List.find?_some found⟩

/-- A tag resolves if it is both registered and a component of the library. -/
theorem resolve?_iff {engine : Engine} {tag : String} {component : Component} :
    engine.resolve? tag = some component ↔
      tag ∈ engine.registry.names ∧ Component.ofName? tag = some component := by
  simp [resolve?, Option.ite_none_right_eq_some, engine.registry.contains_iff_mem_names]

private theorem allows_of_resolve? {engine : Engine} {tag : String} {component : Component}
    (found : engine.resolve? tag = some component) : engine.Allows tag := by
  obtain ⟨registered, named⟩ := resolve?_iff.mp found
  exact .inr ⟨registered, mem_names_of_ofName? named⟩

mutual
/-- A term is only evaluated if all its tags are allowed. -/
theorem allowed_of_evaluate {engine : Engine} (term : Term) {trees : List Tree}
    (ok : evaluate engine term = .ok trees) : ∀ tag ∈ term.tags, engine.Allows tag := by
  match term with
  | .text _ | .literal _ => simp [Term.tags]
  | .group children =>
    obtain ⟨inner, found, _⟩ := evaluate_group_iff.mp ok
    exact allowed_of_evaluateAll children found
  | .element tag attributes children =>
    obtain ⟨inner, found, here⟩ := evaluate_element_iff.mp ok
    -- Whether the component shows its children plays no part here.
    refine List.forall_mem_cons.mpr ⟨?_, allowed_of_evaluateAll children found⟩
    rcases here with ⟨grouping, _⟩ | ⟨_, component, resolved, _⟩
    · exact .inl grouping
    · exact allows_of_resolve? resolved

theorem allowed_of_evaluateAll {engine : Engine} (terms : List Term) {trees : List Tree}
    (ok : evaluateAll engine terms = .ok trees) : ∀ tag ∈ Term.tagsOf terms, engine.Allows tag := by
  match terms with
  | [] => simp [Term.tagsOf]
  | term :: rest =>
    obtain ⟨first, more, found, others, _⟩ := evaluateAll_cons_iff.mp ok
    exact List.forall_mem_append.mpr
      ⟨allowed_of_evaluate term found, allowed_of_evaluateAll rest others⟩
end

structure Spreads (good : Tree → Prop) : Prop where
  text : ∀ content, good (.text content)
  group : ∀ trees, (∀ tree ∈ trees, good tree) → good (.group trees)

def Keeps (engine : Engine) (good : Tree → Prop) (use : String × List (String × Json)) : Prop :=
  ∀ component, engine.resolve? use.1 = some component → ∀ trees, (∀ tree ∈ trees, good tree) →
    good (component.render ⟨attributeValues use.2, trees⟩)

section Good

variable {engine : Engine} {good : Tree → Prop}

mutual
theorem good_of_literalTrees (text : ∀ content, good (.text content)) (value : Json) {trees : List Tree}
    (ok : literalTrees value = .ok trees) : ∀ tree ∈ trees, good tree := by
  match value with
  | .null | .bool _ =>
    obtain rfl := Except.ok.inj ok
    simp
  | .str content =>
    obtain rfl := Except.ok.inj ok
    simpa using text content
  | .num number =>
    obtain rfl := Except.ok.inj ok
    simpa using text (.ofList number.text)
  | .arr items => exact good_of_literalTreesOf text items ok
  | .obj _ => cases ok

theorem good_of_literalTreesOf (text : ∀ content, good (.text content)) (items : List Json) {trees : List Tree}
    (ok : literalTreesOf items = .ok trees) : ∀ tree ∈ trees, good tree := by
  match items with
  | [] =>
    obtain rfl := Except.ok.inj ok
    simp
  | item :: rest =>
    obtain ⟨first, more, found, others, rfl⟩ := literalTreesOf_cons_iff.mp ok
    exact List.forall_mem_append.mpr
      ⟨good_of_literalTrees text item found, good_of_literalTreesOf text rest others⟩
end

mutual
/-- A term evaluates to good trees if every use of a component in it keeps trees good. -/
theorem good_of_evaluate (spreads : Spreads good) (term : Term)
    (keeps : ∀ use ∈ term.uses, engine.Keeps good use) {trees : List Tree}
    (ok : evaluate engine term = .ok trees) : ∀ tree ∈ trees, good tree := by
  match term with
  | .text content =>
    obtain rfl := Except.ok.inj ok
    simpa using spreads.text content
  | .literal value => exact good_of_literalTrees spreads.text value ok
  | .group children =>
    obtain ⟨inner, found, rfl⟩ := evaluate_group_iff.mp ok
    exact List.forall_mem_singleton.mpr
      (spreads.group _ (good_of_evaluateAll spreads children keeps found))
  | .element tag attributes children =>
    obtain ⟨own, deeper⟩ := List.forall_mem_cons.mp keeps
    obtain ⟨inner, found, here⟩ := evaluate_element_iff.mp ok
    have inside := good_of_evaluateAll spreads children deeper found
    rcases here with ⟨_, rfl⟩ | ⟨_, component, resolved, rfl⟩
    · exact List.forall_mem_singleton.mpr (spreads.group _ inside)
    · exact List.forall_mem_singleton.mpr (own component resolved inner inside)

theorem good_of_evaluateAll (spreads : Spreads good) (terms : List Term)
    (keeps : ∀ use ∈ Term.usesOf terms, engine.Keeps good use) {trees : List Tree}
    (ok : evaluateAll engine terms = .ok trees) : ∀ tree ∈ trees, good tree := by
  match terms with
  | [] =>
    obtain rfl := Except.ok.inj ok
    simp
  | term :: rest =>
    obtain ⟨first, more, found, others, rfl⟩ := evaluateAll_cons_iff.mp ok
    obtain ⟨here, behind⟩ := List.forall_mem_append.mp keeps
    exact List.forall_mem_append.mpr ⟨good_of_evaluate spreads term here found,
      good_of_evaluateAll spreads rest behind others⟩
end

theorem good_ofTrees (spreads : Spreads good) {trees : List Tree}
    (inside : ∀ tree ∈ trees, good tree) {tree : Tree}
    (same : Rendered.ofTrees trees = .tree tree) : good tree := by
  unfold Rendered.ofTrees at same
  split at same
  · cases same
  · obtain rfl := Rendered.tree.inj same
    exact inside _ (by simp)
  · obtain rfl := Rendered.tree.inj same
    exact spreads.group _ inside

end Good

section Built

variable {fit : String → String → Prop}

theorem spreads_built : Spreads (Built fit) := ⟨Tree.built_text, fun _ => Tree.built_group⟩

/-- The classes and types that a tag makes from its attributes fit, whatever its children are. -/
def Suits (fit : String → String → Prop) (use : String × List (String × Json)) : Prop :=
  ∀ component, Component.ofName? use.1 = some component → ∀ trees,
    ∀ entry ∈ chosenStyles ⟨attributeValues use.2, trees⟩ component, fit entry.1 entry.2

private theorem keeps_built (engine : Engine) (lenient : Lenient fit)
    {use : String × List (String × Json)} (suits : Suits fit use) : engine.Keeps (Built fit) use := by
  intro component resolved trees inside
  have named := (resolve?_iff.mp resolved).2
  exact Component.built_render lenient component (suits component named trees) inside

/-- A term evaluates to built trees when the classes and types that its tags make fit. -/
theorem built_of_evaluate {engine : Engine} (lenient : Lenient fit) (term : Term)
    (suits : ∀ use ∈ term.uses, Suits fit use) {trees : List Tree}
    (ok : evaluate engine term = .ok trees) : ∀ tree ∈ trees, Built fit tree :=
  good_of_evaluate spreads_built term (fun use member => keeps_built engine lenient (suits use member)) ok

end Built

/-- Whether the attributes fit is no matter. -/
theorem lenient_any : Lenient fun _ _ => True := ⟨fun _ _ _ => trivial, fun _ _ => trivial⟩

theorem suits_any (use : String × List (String × Json)) : Suits (fun _ _ => True) use :=
  fun _ _ _ _ _ => trivial

/-- A term that evaluates has only allowed tags, and its trees are hosted. -/
theorem closed_of_evaluate {engine : Engine} (term : Term) {trees : List Tree}
    (ok : evaluate engine term = .ok trees) :
    (∀ tag ∈ term.tags, engine.Allows tag) ∧ ∀ tree ∈ trees, Hosted tree := by
  have built := built_of_evaluate lenient_any term (fun use _ => suits_any use) ok
  exact ⟨allowed_of_evaluate term ok, fun tree member => (built tree member).hosted⟩

private theorem hosted_ofTrees {trees : List Tree} (inside : ∀ tree ∈ trees, Hosted tree) {tree : Tree}
    (same : Rendered.ofTrees trees = .tree tree) : Hosted tree :=
  good_ofTrees ⟨.text, fun _ => .group⟩ inside same

theorem evaluate_of_render {engine : Engine} {code : String} {tree : Tree}
    (ok : engine.render code = .ok (.tree tree)) :
    ∃ functions function term trees,
      Program.parse (Program.declarations code.toList) = .ok functions ∧
        entryPoint? functions = some function ∧ function.body = some term ∧
          engine.evaluate term = .ok trees ∧ Rendered.ofTrees trees = .tree tree := by
  obtain ⟨term, trees, returned, evaluated, shown⟩ := evaluate_returned? ok
  obtain ⟨functions, function, parsed, entered, body⟩ := function_of_returned? returned
  exact ⟨functions, function, term, trees, parsed, entered, body, evaluated, shown⟩

theorem render_of_evaluate {engine : Engine} {code : String} {functions : List Program.Function}
    {function : Program.Function} {term : Term} {trees : List Tree}
    (solid : (Text.trim code.toList).isEmpty = false)
    (parsed : Program.parse (Program.declarations code.toList) = .ok functions)
    (entered : entryPoint? functions = some function) (returned : function.body = some term)
    (evaluated : engine.evaluate term = .ok trees) : engine.render code = .ok (.ofTrees trees) := by
  simp [render, solid, entryTerm, parsed, entered, returned, evaluated]

/-- Whatever a program says, if it renders a tree then every tag in the function that was
run is the grouping tag or the name of a registered component of the library, and the tree
holds nothing but the host elements and attributes that components are made of. -/
theorem render_closed {engine : Engine} {code : String} {tree : Tree}
    (ok : engine.render code = .ok (.tree tree)) :
    (∃ functions function term,
      Program.parse (Program.declarations code.toList) = .ok functions ∧
        entryPoint? functions = some function ∧ function.body = some term ∧
          ∀ tag ∈ term.tags, tag = Program.fragment ∨
            tag ∈ engine.registry.names ∧ tag ∈ Component.all.map Component.name) ∧
      ∀ element ∈ tree.elements, element.tag ∈ hostTags ∧
        (∀ entry ∈ element.attributes, entry.1 ∈ hostAttributes) ∧
          (element.tag ∈ voidTags → element.children = []) := by
  obtain ⟨functions, function, term, trees, parsed, entered, returned, evaluated, shown⟩ :=
    evaluate_of_render ok
  have closed := closed_of_evaluate term evaluated
  exact ⟨⟨functions, function, term, parsed, entered, returned, closed.1⟩,
    (hosted_ofTrees closed.2 shown).elements⟩

theorem render_closed_button :
    standard.render "function GeneratedUI() \x7b return <Button>Hi</Button> \x7d" =
        .ok (.tree (.element "button" [("class", "ui-btn ui-btn--primary ui-btn--md")] [.text "Hi"])) ∧
      ∀ element ∈ (Tree.element "button" [("class", "ui-btn ui-btn--primary ui-btn--md")]
          [.text "Hi"]).elements, element.tag ∈ hostTags ∧
        (∀ entry ∈ element.attributes, entry.1 ∈ hostAttributes) ∧
          (element.tag ∈ voidTags → element.children = []) := by
  have resolved : standard.resolve? "Button" = some .button := by decide
  have rendered : standard.render "function GeneratedUI() \x7b return <Button>Hi</Button> \x7d" =
      .ok (.tree (.element "button" [("class", "ui-btn ui-btn--primary ui-btn--md")] [.text "Hi"])) := by
    have parsed : Program.parse (Program.declarations
        "function GeneratedUI() \x7b return <Button>Hi</Button> \x7d".toList) =
          .ok [⟨"GeneratedUI", [], some (.element "Button" [] [.text "Hi"])⟩] := by
      simp only [String.reduceToList]
      rfl
    have evaluated : standard.evaluate (.element "Button" [] [.text "Hi"]) =
        .ok [.element "button" [("class", "ui-btn ui-btn--primary ui-btn--md")] [.text "Hi"]] := by
      simp only [evaluate, evaluateAll, resolved]
      rfl
    refine render_of_evaluate ?_ parsed rfl rfl evaluated
    simp only [String.reduceToList]
    rfl
  exact ⟨rendered, (render_closed rendered).2⟩

end Engine

end UiPlan
