import Mathlib.Data.List.Find
import UiPlan.Proofs.Engine.Closure

/-! What a registry changes. Two engines give the same trees to a term unless one of them lacks a tag
in it, and then the first tag that is lacking is what is reported. So a registry only decides what
is available, and a larger one keeps every result.
-/
namespace UiPlan.Engine

open Program (Term)

def missing? (engine : Engine) (tags : List String) : Option String :=
  tags.find? fun tag => tag ≠ Program.fragment && (engine.resolve? tag).isNone

def unlessMissing {α : Type} : Option String → α → Except Error α
  | none, result => .ok result
  | some tag, _ => .error (.unavailable tag)

section Restriction

variable {wide narrow : Engine}

mutual
/-- Another registry changes nothing but which tags are missing, and the first of these ends the
evaluation. -/
theorem evaluate_eq_unlessMissing (term : Term) {trees : List Tree}
    (ok : wide.evaluate term = .ok trees) :
    narrow.evaluate term = unlessMissing (narrow.missing? term.tags) trees := by
  match term with
  | .text _ | .literal _ => exact ok
  | .group children =>
    obtain ⟨inner, found, rfl⟩ := evaluate_group_iff.mp ok
    rw [evaluate, evaluateAll_eq_unlessMissing children found, Term.tags]
    cases narrow.missing? (Term.tagsOf children) <;> rfl
  | .element tag attributes children =>
    obtain ⟨inner, found, rest⟩ := evaluate_element_iff.mp ok
    have inside := evaluateAll_eq_unlessMissing children found
    rw [evaluate, Term.tags, missing?, List.find?_cons]
    rcases rest with ⟨grouping, rfl⟩ | ⟨other, component, resolved, rfl⟩
    · rw [if_pos grouping, inside]
      simp only [grouping, ne_eq, not_true, decide_false, Bool.false_and]
      change _ = unlessMissing (narrow.missing? (Term.tagsOf children)) _
      cases narrow.missing? (Term.tagsOf children) <;> rfl
    · rw [if_neg other]
      cases here : narrow.resolve? tag with
      | none =>
        -- The tag is looked up before anything inside the element is.
        simp only [other, ne_eq, not_false_eq_true, decide_true, Option.isNone_none, Bool.and_self]
        rfl
      | some same =>
        -- What a tag resolves to does not depend on the registry.
        have only := (resolve?_iff.mp here).2
        rw [(resolve?_iff.mp resolved).2] at only
        obtain rfl := Option.some.inj only
        rw [inside]
        simp only [Option.isNone_some, Bool.and_false]
        change _ = unlessMissing (narrow.missing? (Term.tagsOf children)) _
        cases narrow.missing? (Term.tagsOf children) <;> rfl

theorem evaluateAll_eq_unlessMissing (terms : List Term) {trees : List Tree}
    (ok : wide.evaluateAll terms = .ok trees) :
    narrow.evaluateAll terms = unlessMissing (narrow.missing? (Term.tagsOf terms)) trees := by
  match terms with
  | [] => exact ok
  | term :: rest =>
    obtain ⟨first, more, found, others, rfl⟩ := evaluateAll_cons_iff.mp ok
    rw [evaluateAll, evaluate_eq_unlessMissing term found, evaluateAll_eq_unlessMissing rest others,
      Term.tagsOf, missing?, missing?, missing?, List.find?_append]
    generalize List.find? _ term.tags = here
    generalize List.find? _ (Term.tagsOf rest) = later
    cases here with
    | some tag => rfl
    | none => cases later <;> rfl
end

end Restriction

/-- The tags in the term that a program returns, each before those inside it, but for the grouping
tag. -/
def returnedTags (code : String) : List String :=
  match returned? code with
  | some term => term.tags.filter (· ≠ Program.fragment)
  | none => []

private theorem ofName?_name (component : Component) : Component.ofName? component.name = some component := by
  cases component <;> decide

private theorem missing?_eq_find? {engine other : Engine} {tags : List String}
    (allowed : ∀ tag ∈ tags, other.Allows tag) :
    engine.missing? tags =
      (tags.filter (· ≠ Program.fragment)).find? (· ∉ engine.registry.names) := by
  rw [missing?, List.find?_filter]
  apply List.find?_congr
  intro tag member
  rcases allowed tag member with rfl | ⟨_, listed⟩
  · simp
  · obtain ⟨component, _, rfl⟩ := List.mem_map.mp listed
    -- The library has the tag, so it is missing only if the registry lacks it.
    by_cases registered : component.name ∈ engine.registry.names
    · simp [registered, resolve?_iff.mpr ⟨registered, ofName?_name component⟩]
    · have unresolved : engine.resolve? component.name = none := by
        cases found : engine.resolve? component.name with
        | none => rfl
        | some same => exact absurd (resolve?_iff.mp found).1 registered
      simp [registered, unresolved]

theorem render_eq_unlessMissing {wide : Engine} {code : String} {rendered : Rendered}
    (ok : wide.render code = .ok rendered) (narrow : Engine) :
    narrow.render code =
      unlessMissing ((returnedTags code).find? (· ∉ narrow.registry.names)) rendered := by
  rcases render_cases code with ⟨returnsNothing, result, _, same⟩ | ⟨term, returned, each⟩
  · rw [returnedTags, returnsNothing, same narrow, ← same wide, ok]
    rfl
  · rw [each] at ok
    obtain ⟨trees, found, rfl⟩ := except_map_ok ok
    rw [each, evaluate_eq_unlessMissing term found, returnedTags, returned,
      missing?_eq_find? (allowed_of_evaluate term found)]
    generalize List.find? _ _ = missing
    cases missing <;> rfl

/-- A program renders only if all tags in the term it returns are registered. -/
theorem registered_of_render {engine : Engine} {code : String} {rendered : Rendered}
    (ok : engine.render code = .ok rendered) : ∀ tag ∈ returnedTags code, tag ∈ engine.registry.names := by
  rcases render_cases code with ⟨returnsNothing, _⟩ | ⟨term, returned, each⟩
  · simp [returnedTags, returnsNothing]
  · rw [each] at ok
    obtain ⟨trees, found, _⟩ := except_map_ok ok
    intro tag member
    rw [returnedTags, returned] at member
    obtain ⟨inside, other⟩ := List.mem_filter.mp member
    exact ((allowed_of_evaluate term found tag inside).resolve_left (by simpa using other)).1

/-- A program that renders with the standard engine renders to the same with any registry that has
all its tags, and otherwise the first tag that the registry lacks is reported. A registry that has
more names than another renders all that the other renders, and to the same. -/
theorem render_restricted (registry : Registry) (code : String) (rendered : Rendered) :
    (standard.render code = .ok rendered →
      render ⟨registry⟩ code =
        unlessMissing ((returnedTags code).find? (· ∉ registry.names)) rendered) ∧
    ∀ larger : Registry, (∀ name ∈ registry.names, name ∈ larger.names) →
      render ⟨registry⟩ code = .ok rendered → render ⟨larger⟩ code = .ok rendered := by
  constructor
  · intro ok
    exact render_eq_unlessMissing ok ⟨registry⟩
  · intro larger more ok
    have all : ∀ tag ∈ returnedTags code, tag ∈ larger.names := fun tag member =>
      more tag (registered_of_render ok tag member)
    have complete : (returnedTags code).find? (· ∉ larger.names) = none := by
      simpa [List.find?_eq_none] using all
    rw [render_eq_unlessMissing ok ⟨larger⟩, complete]
    rfl

def registryOf (names : List String) : Registry := ⟨names.map fun name => ⟨name, "", []⟩⟩

def buttonCardCode : String :=
  "function GeneratedUI() \x7b return <Card><Button>Hi</Button></Card> \x7d"

def buttonCard : Tree :=
  .element "div" [("class", "ui-card")] [.element "div" [("class", "ui-card__body")]
    [.element "button" [("class", "ui-btn ui-btn--primary ui-btn--md")] [.text "Hi"]]]

theorem render_restricted_buttonCard :
    standard.render buttonCardCode = .ok (.tree buttonCard) ∧
      render ⟨registryOf ["Card"]⟩ buttonCardCode = .error (.unavailable "Button") ∧
      (∀ name ∈ (registryOf ["Button", "Card"]).names,
        name ∈ (registryOf ["Card", "Carousel", "Button"]).names) ∧
      render ⟨registryOf ["Button", "Card"]⟩ buttonCardCode = .ok (.tree buttonCard) ∧
      render ⟨registryOf ["Card", "Carousel", "Button"]⟩ buttonCardCode =
        .ok (.tree buttonCard) := by
  have card : standard.resolve? "Card" = some .card := by decide
  have button : standard.resolve? "Button" = some .button := by decide
  have parsed : Program.parse (Program.declarations buttonCardCode.toList) =
      .ok [⟨"GeneratedUI", [], some (.element "Card" [] [.element "Button" [] [.text "Hi"]])⟩] := by
    simp only [buttonCardCode, String.reduceToList]
    rfl
  have solid : (Text.trim buttonCardCode.toList).isEmpty = false := by
    simp only [buttonCardCode, String.reduceToList]
    rfl
  have evaluated : standard.evaluate (.element "Card" [] [.element "Button" [] [.text "Hi"]]) =
      .ok [buttonCard] := by
    simp only [evaluate, evaluateAll, card, button]
    rfl
  have rendered := render_of_evaluate solid parsed rfl rfl evaluated
  have tags : returnedTags buttonCardCode = ["Card", "Button"] := by
    rw [returnedTags, returned?_eq_some solid parsed rfl]
    decide
  have refused := (render_restricted (registryOf ["Card"]) _ _).1 rendered
  have allowed := (render_restricted (registryOf ["Button", "Card"]) _ _).1 rendered
  rw [tags] at refused allowed
  have more : ∀ name ∈ (registryOf ["Button", "Card"]).names,
      name ∈ (registryOf ["Card", "Carousel", "Button"]).names := by decide
  exact ⟨rendered, refused, more, allowed, (render_restricted _ _ _).2 _ more allowed⟩

end UiPlan.Engine
