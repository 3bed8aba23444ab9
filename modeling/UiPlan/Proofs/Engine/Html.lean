import UiPlan.Proofs.Engine.Closure
import UiPlan.Proofs.Tree.ReadBack

/-! The HTML of a rendered tree says what the tree is. Nothing but the components sets attributes,
so they are in order; and a rendered tree is hosted, so its HTML can be read back.
-/
namespace UiPlan.Engine

open Component (Lenient)
open UiPlan.Tree (Built InOrder)

/-- A program renders built trees when the classes and types of its entry point fit. -/
theorem built_of_render {fit : String → String → Prop} {engine : Engine} {code : String} {tree : Tree}
    (lenient : Lenient fit) (ok : engine.render code = .ok (.tree tree))
    (suits : ∀ functions function term,
      Program.parse (Program.declarations code.toList) = .ok functions →
        entryPoint? functions = some function → function.body = some term →
          ∀ use ∈ term.uses, Suits fit use) : Built fit tree := by
  obtain ⟨functions, function, term, trees, parsed, entered, returned, evaluated, shown⟩ :=
    evaluate_of_render ok
  have each := suits functions function term parsed entered returned
  exact good_ofTrees spreads_built (built_of_evaluate lenient term each evaluated) shown

theorem built_any_of_render {engine : Engine} {code : String} {tree : Tree}
    (ok : engine.render code = .ok (.tree tree)) : Built (fun _ _ => True) tree :=
  built_of_render lenient_any ok fun _ _ _ _ _ _ use _ => suits_any use

private theorem inOrder_of_render {engine : Engine} {code : String} {tree : Tree}
    (ok : engine.render code = .ok (.tree tree)) :
    ∀ element ∈ tree.elements, InOrder element.attributes :=
  fun element member => ((built_any_of_render ok).styled.elements element member).1

/-- The HTML of any tree that a program renders is cut into the tags of its elements, properly
nested, and its texts, where texts that touch are one. Each opening tag has the attributes of its
element in order, and the texts between the tags make up the text of the tree. -/
theorem read_render {engine : Engine} {code : String} {tree : Tree}
    (ok : engine.render code = .ok (.tree tree)) :
    ∃ marks, Html.read tree.toHtml = some marks ∧ marks = Html.joinTexts (Html.marks tree) ∧
      Html.nests [] marks = true ∧ Html.Faithful marks tree.elements tree.textContent ∧
        ∀ element ∈ tree.elements, InOrder element.attributes := by
  have hosted := (built_any_of_render ok).hosted
  have whole := Html.nests_marks tree [] []
  rw [List.append_nil] at whole
  obtain ⟨openings, closings, texts⟩ := Html.faithful_marks hosted
  refine ⟨_, Html.read_toHtml hosted, rfl, ?_, ⟨?_, ?_, ?_⟩, inOrder_of_render ok⟩
  · rw [Html.nests_joinTexts, whole]
    rfl
  · rw [Html.filterMap_joinTexts (fun _ => rfl), openings]
  · rw [Html.filterMap_joinTexts (fun _ => rfl)]
    exact closings
  · rw [Html.plainText_joinTexts, texts]

def comparison : Tree :=
  .element "button" [("class", "ui-btn ui-btn--primary ui-btn--md"), ("disabled", "")] [.text "a < b"]

theorem read_render_comparison :
    standard.render "function GeneratedUI() \x7b return <Button disabled>a &lt; b</Button> \x7d" =
        .ok (.tree comparison) ∧
      ∃ marks, Html.read comparison.toHtml = some marks ∧
        marks = Html.joinTexts (Html.marks comparison) ∧ Html.nests [] marks = true ∧
          Html.Faithful marks comparison.elements comparison.textContent ∧
            ∀ element ∈ comparison.elements, InOrder element.attributes := by
  have resolved : standard.resolve? "Button" = some .button := by decide
  have parsed : Program.parse (Program.declarations
      "function GeneratedUI() \x7b return <Button disabled>a &lt; b</Button> \x7d".toList) =
        .ok [⟨"GeneratedUI", [], some (.element "Button" [("disabled", .bool true)]
          [.text "a < b"])⟩] := by
    simp only [String.reduceToList]
    rfl
  have evaluated : standard.evaluate (.element "Button" [("disabled", .bool true)]
      [.text "a < b"]) = .ok [comparison] := by
    simp only [evaluate, evaluateAll, resolved]
    rfl
  have rendered : standard.render
      "function GeneratedUI() \x7b return <Button disabled>a &lt; b</Button> \x7d" =
        .ok (.tree comparison) := by
    refine render_of_evaluate ?_ parsed rfl rfl evaluated
    simp only [String.reduceToList]
    rfl
  exact ⟨rendered, read_render rendered⟩

end UiPlan.Engine
