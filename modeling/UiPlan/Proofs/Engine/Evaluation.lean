import UiPlan.Engine
import UiPlan.Proofs.Json.Values

/-! What it takes for a term to evaluate, one rule for each kind of term. All that is proved about
evaluated terms goes by these rules.
-/
namespace UiPlan.Engine

open Program (Term)

theorem literalTreesOf_cons_iff {item : Json} {rest : List Json} {trees : List Tree} :
    literalTreesOf (item :: rest) = .ok trees ↔
      ∃ first more, literalTrees item = .ok first ∧ literalTreesOf rest = .ok more ∧
        trees = first ++ more := by
  rw [literalTreesOf]
  cases literalTrees item with
  | error error => simp
  | ok first =>
    cases literalTreesOf rest with
    | error error => simp
    | ok more => simp [eq_comm]

variable {engine : Engine} {trees : List Tree}

theorem evaluateAll_cons_iff {term : Term} {rest : List Term} :
    evaluateAll engine (term :: rest) = .ok trees ↔
      ∃ first more, evaluate engine term = .ok first ∧ evaluateAll engine rest = .ok more ∧
        trees = first ++ more := by
  rw [evaluateAll]
  cases evaluate engine term with
  | error error => simp
  | ok first =>
    cases evaluateAll engine rest with
    | error error => simp
    | ok more => simp [eq_comm]

theorem evaluate_group_iff {children : List Term} :
    evaluate engine (.group children) = .ok trees ↔
      ∃ inner, evaluateAll engine children = .ok inner ∧ trees = [.group inner] := by
  rw [evaluate]
  cases evaluateAll engine children with
  | error error => simp
  | ok inner => simp [eq_comm]

/-- An element evaluates if its children do and its tag is the grouping tag or resolves. -/
theorem evaluate_element_iff {tag : String} {attributes : List (String × Json)}
    {children : List Term} :
    evaluate engine (.element tag attributes children) = .ok trees ↔
      ∃ inner, evaluateAll engine children = .ok inner ∧
        (tag = Program.fragment ∧ trees = [.group inner] ∨
          tag ≠ Program.fragment ∧ ∃ component, engine.resolve? tag = some component ∧
            trees = [component.render ⟨attributeValues attributes, inner⟩]) := by
  rw [evaluate]
  by_cases grouping : tag = Program.fragment
  · cases evaluateAll engine children with
    | error error => simp [grouping]
    | ok inner => simp [grouping, eq_comm]
  · cases engine.resolve? tag with
    | none => simp [grouping]
    | some component =>
      cases evaluateAll engine children with
      | error error => simp [grouping]
      | ok inner => simp [grouping, eq_comm]

def returned? (code : String) : Option Term :=
  if (Text.trim code.toList).isEmpty then none
  else
    match entryTerm code with
    | .ok term => term
    | .error _ => none

/-- Only the evaluation of the term that a program returns depends on the engine, and only that
makes a tree. -/
theorem render_cases (code : String) :
    (returned? code = none ∧ ∃ result, (∀ tree, result ≠ .ok (.tree tree)) ∧
      ∀ engine, render engine code = result) ∨
      ∃ term, returned? code = some term ∧
        ∀ engine, render engine code = (engine.evaluate term).map .ofTrees := by
  unfold returned? render
  split
  · exact .inl ⟨rfl, _, by simp, fun _ => rfl⟩
  · cases entryTerm code with
    | error error => exact .inl ⟨rfl, _, by simp, fun _ => rfl⟩
    | ok returned =>
      cases returned with
      | none => exact .inl ⟨rfl, _, by simp, fun _ => rfl⟩
      | some term =>
        refine .inr ⟨term, rfl, fun engine => ?_⟩
        cases found : engine.evaluate term <;> simp [found, Except.map]

/-- A tree is rendered from the term that the program returns. -/
theorem evaluate_returned? {code : String} {tree : Tree}
    (ok : engine.render code = .ok (.tree tree)) :
    ∃ term trees, returned? code = some term ∧ engine.evaluate term = .ok trees ∧
      Rendered.ofTrees trees = .tree tree := by
  rcases render_cases code with ⟨_, result, other, same⟩ | ⟨term, returned, each⟩
  · exact absurd ((same engine).symm.trans ok) (other tree)
  · rw [each] at ok
    obtain ⟨trees, found, shown⟩ := except_map_ok ok
    exact ⟨term, trees, returned, found, shown⟩

theorem function_of_returned? {code : String} {term : Term} (returned : returned? code = some term) :
    ∃ functions function, Program.parse (Program.declarations code.toList) = .ok functions ∧
      entryPoint? functions = some function ∧ function.body = some term := by
  unfold returned? at returned
  split at returned
  · cases returned
  · split at returned
    · rename_i body entered
      subst returned
      unfold entryTerm at entered
      split at entered
      · cases entered
      · rename_i functions parsed
        split at entered
        · cases entered
        · rename_i function entered'
          exact ⟨functions, function, parsed, entered', Except.ok.inj entered⟩
    · cases returned

theorem returned?_eq_some {code : String} {functions : List Program.Function}
    {function : Program.Function} (solid : (Text.trim code.toList).isEmpty = false)
    (parsed : Program.parse (Program.declarations code.toList) = .ok functions)
    (entered : entryPoint? functions = some function) : returned? code = function.body := by
  simp [returned?, solid, entryTerm, parsed, entered]

end UiPlan.Engine
