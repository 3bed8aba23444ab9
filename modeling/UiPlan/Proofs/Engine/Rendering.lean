import UiPlan.Proofs.Engine.Closure
import UiPlan.Proofs.Program.RoundTrip

/-! A compiled plan renders. The term that a plan stands for has no literal among its
contents and only tags of registered components, so its evaluation cannot fail, and it is
one term, so it shows one tree.
-/
namespace UiPlan.Engine

open Program (Term outline)

def Renders (engine : Engine) (term : Term) : Prop := ∃ tree, engine.evaluate term = .ok [tree]

variable {engine : Engine}

private theorem evaluateAll_of_renders {terms : List Term} (each : ∀ term ∈ terms, engine.Renders term) :
    ∃ trees, engine.evaluateAll terms = .ok trees := by
  induction terms with
  | nil => exact ⟨[], rfl⟩
  | cons term rest step =>
    obtain ⟨tree, first⟩ := each term (by simp)
    obtain ⟨trees, others⟩ := step fun other inside => each other (by simp [inside])
    exact ⟨[tree] ++ trees, by simp only [evaluateAll, first, others]⟩

private theorem renders_text (content : String) : engine.Renders (.text content) := ⟨.text content, rfl⟩

theorem renders_element {tag : String} {attributes : List (String × Json)} {children : List Term}
    (known : tag = Program.fragment ∨ (engine.resolve? tag).isSome)
    (each : ∀ term ∈ children, engine.Renders term) :
    engine.Renders (.element tag attributes children) := by
  obtain ⟨trees, inside⟩ := evaluateAll_of_renders each
  by_cases grouping : tag = Program.fragment
  · exact ⟨.group trees, by simp only [evaluate, if_pos grouping, inside]⟩
  · obtain ⟨component, resolved⟩ := Option.isSome_iff_exists.mp (known.resolve_left grouping)
    exact ⟨_, by simp only [evaluate, if_neg grouping, resolved, inside]; rfl⟩

def Knows (engine : Engine) (registry : Registry) : Prop :=
  ∀ name ∈ registry.names, (engine.resolve? name).isSome = true

private theorem knows_standard : standard.Knows .standard := by
  unfold Knows
  decide

/-- An engine that knows the components of a registry renders the outline of every plan. -/
theorem renders_outline {registry : Registry} (knows : engine.Knows registry) (plan : Plan) :
    engine.Renders (outline registry plan) := by
  refine Program.all_outline renders_text (fun _ => renders_element (.inl rfl)) ?_
  intro given _ registered terms each
  exact renders_element (.inr (knows _ ((registry.contains_iff_mem_names _).mp registered))) each

private theorem trim_isEmpty_of_mem {cs : List Char} {c : Char} (inside : c ∈ cs)
    (solid : Text.isBlank c = false) : (Text.trim cs).isEmpty = false := by
  have left : c ∈ Text.trim cs := Text.mem_dropEndWhile (Text.mem_dropWhile inside solid) solid
  rw [List.isEmpty_eq_false_iff]
  exact List.ne_nil_of_mem left

private theorem trim_code (registry : Registry) (plan : Plan) :
    (Text.trim (Program.compile registry plan).code.toList).isEmpty = false := by
  -- Both kinds of program have an `e` in them, which no trimming removes.
  have fallback : 'e' ∈ Program.Artifact.fallback.code.toList := by decide +kernel
  have written : ∀ markup, 'e' ∈ (Program.Artifact.ofMarkup markup).code.toList := by
    intro markup
    have opening : 'e' ∈ Program.entryOpening.toList := by decide
    unfold Program.Artifact.ofMarkup
    simp only [String.toList_append, List.mem_append]
    exact .inl (.inl (.inl (.inr opening)))
  refine trim_isEmpty_of_mem (c := 'e') ?_ (by decide)
  unfold Program.compile Program.compileNode
  split
  · exact fallback
  · split
    · exact fallback
    · exact written _

/-- The program of a plan that was read, and holds no doubles, shows what the outline of the plan
shows. -/
theorem render_of_outline {plan : Plan} (regular : plan.Regular) (integral : plan.Integral)
    {tree : Tree} (evaluated : standard.evaluate (outline .standard plan) = .ok [tree]) :
    standard.render (Program.compile .standard plan).code = .ok (.tree tree) := by
  have parsed := Program.parse_compile Program.namesTags_standard regular integral
  exact render_of_evaluate (trim_code .standard plan) parsed rfl rfl evaluated

/-- The program of a plan that was read, and holds no doubles, renders a tree. -/
theorem render_compile {plan : Plan} (regular : plan.Regular) (integral : plan.Integral) :
    ∃ tree, standard.render (Program.compile .standard plan).code = .ok (.tree tree) := by
  obtain ⟨tree, evaluated⟩ := renders_outline knows_standard plan
  exact ⟨tree, render_of_outline regular integral evaluated⟩

end UiPlan.Engine
