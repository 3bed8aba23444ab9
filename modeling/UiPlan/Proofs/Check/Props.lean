import UiPlan.Check.Props
import UiPlan.Proofs.Table

/-! What a strict check without violations has shown: each prop of an element with a registered
type is declared there, and its value is of the declared kind. Elements are reached the way the
check reaches them, through the children of elements.
-/
namespace UiPlan

open Plan (Node)

def ComponentSpec.Accepts (spec : ComponentSpec) (props : List (String × Json)) : Prop :=
  ∀ entry ∈ props, ∃ prop, spec.prop? entry.1 = some prop ∧ prop.accepts entry.2 = true

namespace Check

private theorem accepts_of_propViolation? {spec : ComponentSpec} {path : String} {entry : String × Json}
    (clean : propViolation? spec path entry = none) :
    ∃ prop, spec.prop? entry.1 = some prop ∧ prop.accepts entry.2 = true := by
  unfold propViolation? at clean
  split at clean
  · cases clean
  · rename_i prop found
    split at clean
    · rename_i accepted
      exact ⟨prop, found, accepted⟩
    · cases clean

private theorem accepts_of_elementViolations {spec : ComponentSpec} {path : String}
    {props : List (String × Json)} {children : List Node}
    (clean : elementViolations spec path props children = []) : spec.Accepts props := by
  have each := (List.append_eq_nil_iff.mp clean).2
  intro entry member
  exact accepts_of_propViolation? (List.filterMap_eq_nil_iff.mp each entry member)

variable {registry : Registry}

mutual
theorem accepts_of_propViolationsAt {path : String} (node : Node)
    (clean : propViolationsAt registry path node = []) :
    ∀ given ∈ node.elements, ∀ spec, registry.get? given.type = some spec →
      spec.Accepts given.props := by
  match node with
  | .text _ | .malformed _ => simp [Node.elements]
  | .element type props children =>
    rw [propViolationsAt] at clean
    obtain ⟨own, below⟩ := List.append_eq_nil_iff.mp clean
    refine List.forall_mem_cons.mpr ⟨fun spec registered => ?_,
      accepts_of_propViolationsOf children below⟩
    rw [registered] at own
    exact accepts_of_elementViolations own

theorem accepts_of_propViolationsOf {path : String} {index : Nat} (nodes : List Node)
    (clean : propViolationsOf registry path index nodes = []) :
    ∀ given ∈ Node.elementsOf nodes, ∀ spec, registry.get? given.type = some spec →
      spec.Accepts given.props := by
  match nodes with
  | [] => simp [Node.elementsOf]
  | node :: rest =>
    rw [propViolationsOf] at clean
    obtain ⟨here, behind⟩ := List.append_eq_nil_iff.mp clean
    exact List.forall_mem_append.mpr
      ⟨accepts_of_propViolationsAt node here, accepts_of_propViolationsOf rest behind⟩
end

/-- In a plan that passes the strict check, every element has only props its type declares, each
with a value of the declared kind. -/
theorem accepts_of_violations {plan : Plan} (clean : violations registry true plan = []) :
    ∀ given ∈ plan.elements, ∀ spec, registry.get? given.type = some spec →
      spec.Accepts given.props := by
  have props := (List.append_eq_nil_iff.mp clean).2
  rw [if_pos rfl, propViolations] at props
  unfold Plan.elements
  cases layout : plan.layout with
  | none => simp
  | some root =>
    rw [layout] at props
    exact accepts_of_propViolationsAt root props

end Check

end UiPlan
