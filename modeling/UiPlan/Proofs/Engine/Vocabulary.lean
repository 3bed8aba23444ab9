import UiPlan.Proofs.Check.Props
import UiPlan.Proofs.Component.Vocabulary
import UiPlan.Proofs.Engine.Html
import UiPlan.Proofs.Engine.Rendering

/-! Nothing that a planner writes reaches a class. In a plan that passes the strict check every prop
is declared, the compiler hands on the props of an element as they are, and so each component that
renders it is given declared props.
-/
namespace UiPlan.Engine

open Program (Term Markup outline)
open Component (Vocabulary Token tokens declaredValues declaration?)

theorem mem_usesOf {use : String × List (String × Json)} {terms : List Term} :
    use ∈ Term.usesOf terms ↔ ∃ term ∈ terms, use ∈ term.uses := by
  induction terms with
  | nil => simp [Term.usesOf]
  | cons term rest step => simp [Term.usesOf, step]

theorem mem_props_of_get? {props : List (String × Json)} {name : String} {value : Json}
    (found : Table.get? (attributeValues (Markup.attributesOf props)) name = some value) :
    (name, value) ∈ props := by
  have given := Table.mem_ofEntries (Table.mem_of_get? found)
  exact (List.mem_filter.mp (List.mem_filter.mp given).1).1

private theorem suits_attributesOf {spec : ComponentSpec} {type : String} {props : List (String × Json)}
    (registered : Registry.standard.get? type = some spec) (accepts : spec.Accepts props)
    (whole : ∀ entry ∈ props, entry.2.isIntegral = true) :
    Suits Vocabulary (type, Markup.attributesOf props) := by
  intro component named trees
  have same : component.name = type := by simpa using List.find?_some named
  refine Component.vocabulary_chosenStyles ?_ fun name value found =>
    whole _ (mem_props_of_get? found)
  intro name value found
  obtain ⟨prop, declared, accepted⟩ := accepts _ (mem_props_of_get? found)
  refine ⟨prop, ?_, accepted⟩
  rw [declaration?, same, registered]
  exact declared

def Modest (term : Term) : Prop := ∀ use ∈ term.uses, Suits Vocabulary use

/-- The strict check leaves only declared values to the classes and types of a plan. -/
theorem modest_outline {plan : Plan} (integral : plan.Integral)
    (valid : Check.violations .standard true plan = []) :
    Modest (outline .standard plan) := by
  apply Program.all_outline
  · simp [Modest, Term.uses]
  · intro terms each use inside
    rw [Term.uses, List.mem_cons, mem_usesOf] at inside
    rcases inside with rfl | ⟨term, member, deeper⟩
    · intro component named
      cases named
    · exact each term member use deeper
  · intro given member registered terms each use inside
    rw [Term.uses, List.mem_cons, mem_usesOf] at inside
    rcases inside with rfl | ⟨term, member, deeper⟩
    · obtain ⟨spec, found⟩ := Option.isSome_iff_exists.mp registered
      exact suits_attributesOf found (Check.accepts_of_violations valid given member spec found)
        (integral given member)
    · exact each term member use deeper

/-- The program of a plan that passes the strict check and holds no doubles renders a tree in which
every word of a class is written in the library, completed by a declared value or a number of
columns up to four, and the type of every input is a declared one. -/
theorem render_vocabulary {source : List Char} {plan : Plan} (ok : Plan.parse source = .ok plan)
    (integral : plan.Integral) (valid : Check.violations .standard true plan = []) :
    ∃ tree, standard.render (Program.compile .standard plan).code = .ok (.tree tree) ∧
      ∀ element ∈ tree.elements, ∀ entry ∈ element.attributes,
        (entry.1 = "class" → ∀ word ∈ tokens entry.2, Token word) ∧
          (element.tag = "input" → entry.1 = "type" → entry.2 ∈ declaredValues "Input" "type") := by
  have regular := Plan.regular_of_parse ok
  obtain ⟨tree, rendered⟩ := render_compile regular integral
  have built : Tree.Built Vocabulary tree := by
    refine built_of_render Component.lenient_vocabulary rendered ?_
    intro functions function term parsed entered returned
    rw [Program.parse_compile Program.namesTags_standard regular integral] at parsed
    obtain rfl := Except.ok.inj parsed
    obtain rfl := Option.some.inj entered
    obtain rfl := Option.some.inj returned
    exact modest_outline integral valid
  refine ⟨tree, rendered, fun element member entry inside => ?_⟩
  obtain ⟨classes, types⟩ := (built.styled.elements element member).2 entry inside
  exact ⟨classes, fun _ => types⟩

def column : Plan := ⟨some (.element "Flex" [("direction", .str "column")] [.text "x"])⟩

theorem render_vocabulary_column :
    Plan.parse ("\x7b\"layout\":\x7b\"type\":\"Flex\",\"props\":" ++
        "\x7b\"direction\":\"column\"\x7d,\"children\":[\"x\"]\x7d\x7d").toList = .ok column ∧
      column.Integral ∧ Check.violations .standard true column = [] ∧
        ∃ tree, standard.render (Program.compile .standard column).code = .ok (.tree tree) ∧
          ∀ element ∈ tree.elements, ∀ entry ∈ element.attributes,
            (entry.1 = "class" → ∀ word ∈ tokens entry.2, Token word) ∧
              (element.tag = "input" → entry.1 = "type" →
                entry.2 ∈ declaredValues "Input" "type") := by
  have read : Plan.parse ("\x7b\"layout\":\x7b\"type\":\"Flex\",\"props\":" ++
      "\x7b\"direction\":\"column\"\x7d,\"children\":[\"x\"]\x7d\x7d").toList = .ok column := by
    simp only [String.toList_append, String.reduceToList]
    rfl
  have integral : column.Integral := by
    simp [Plan.Integral, column, Plan.elements, Plan.Node.elements, Plan.Node.elementsOf,
      Json.isIntegral, Json.every, Json.isWhole]
  have known : Registry.standard.contains "Flex" = true := by decide
  have strict : Check.propViolations .standard column = [] := by decide
  have valid : Check.violations .standard true column = [] := by
    rw [Check.violations, if_pos rfl, strict]
    simp [Check.structureViolations, column, Check.nodeViolations, Check.childViolations,
      Check.typeViolations, known]
  exact ⟨read, integral, valid, render_vocabulary read integral valid⟩

end UiPlan.Engine
