import Mathlib.Data.List.Induction
import UiPlan.Check.Structure
import UiPlan.Proofs.Plan.Reading

/-! The structural check as a walk over the JSON that a planner sent. The walk knows nothing
of plans: it goes through the raw values below the layout, each before those below it, and
judges every value on its own. The place of a value says which child to take on each level,
and its path is the text of that place, so a path leads to one value and to no other.
-/
namespace UiPlan.Check

open Plan (Node)

def rawChildren : Json → List Json
  | .obj members =>
    match Table.get? members "children" with
    | some (.arr items) => items
    | _ => []
  | _ => []

private theorem weightItems_rawChildren_lt (value : Json) :
    Json.weightItems (rawChildren value) < value.weight := by
  cases value with
  | obj members =>
    simp only [rawChildren, Json.weight]
    split
    · rename_i items found
      have inside := Node.weight_le_of_get? found
      simp only [Json.weight] at inside
      omega
    · simp only [Json.weightItems]
      omega
  | null | bool | num | str | arr =>
    simp only [rawChildren, Json.weight, Json.weightItems]
    omega

mutual
/-- The nodes of a raw value with their places, each before those below it. -/
def rawNodes (place : List Nat) (value : Json) : List (List Nat × Json) :=
  (place, value) :: rawNodesBelow place 0 (rawChildren value)
termination_by (value.weight, 0)
decreasing_by exact Prod.Lex.left _ _ (weightItems_rawChildren_lt value)

def rawNodesBelow (place : List Nat) (index : Nat) : List Json → List (List Nat × Json)
  | [] => []
  | item :: rest => rawNodes (place ++ [index]) item ++ rawNodesBelow place (index + 1) rest
termination_by items => (Json.weightItems items, items.length)
decreasing_by
  · simp only [Json.weightItems, Prod.lex_def]; omega
  · simp only [Json.weightItems, Prod.lex_def, List.length_cons]; omega
end

def pathText (place : List Nat) : String := place.foldl childPath rootPath

end UiPlan.Check
