import UiPlan.Check.Violation
import UiPlan.Plan.Basic
import UiPlan.Registry.Basic

/-! The structural check: every node is a text or an element with a registered type.
A malformed node is reported and its children, if it has a list of them, are read
as nodes and checked too, so one run reports every offending node.
-/
namespace UiPlan

mutual
/-- The nodes of a JSON value, counted so that reading it as a node gives no more. -/
def Json.weight : Json → Nat
  | .arr items => 1 + Json.weightItems items
  | .obj members => 1 + Json.weightMembers members
  | _ => 1

def Json.weightItems : List Json → Nat
  | [] => 0
  | item :: rest => item.weight + 1 + Json.weightItems rest

def Json.weightMembers : List (String × Json) → Nat
  | [] => 0
  | (_, value) :: rest => value.weight + Json.weightMembers rest
end

namespace Plan.Node

mutual
def weight : Node → Nat
  | .text _ => 1
  | .element _ _ children => 1 + weightList children
  | .malformed value => 1 + value.weight

def weightList : List Node → Nat
  | [] => 0
  | node :: rest => node.weight + weightList rest
end

mutual
private theorem weight_ofJson_le : ∀ value : Json, (ofJson value).weight ≤ 1 + value.weight
  | .null | .bool _ | .num _ => by simp [ofJson, weight, Json.weight]
  | .str _ => by simp [ofJson, weight]
  | .arr _ => by simp [ofJson, weight]
  | .obj members => by
    have children := weightList_childrenOf_le members
    unfold ofJson
    split
    · simp only [weight, Json.weight]
      omega
    · simp [weight]

theorem weightList_childrenOf_le : ∀ members : List (String × Json),
    weightList (childrenOf members) ≤ Json.weightMembers members
  | [] => by simp [childrenOf, weightList]
  | (name, value) :: rest => by
    have here := weightList_childrenIn_le value
    have there := weightList_childrenOf_le rest
    unfold childrenOf
    split <;> simp only [Json.weightMembers] <;> omega

private theorem weightList_childrenIn_le : ∀ value : Json,
    weightList (childrenIn value) ≤ value.weight
  | .null | .bool _ | .num _ | .obj _ => by simp [childrenIn, weightList]
  | .str _ => by simp [childrenIn, weightList, weight, Json.weight]
  | .arr items => by
    have all := weightList_ofItems_le items
    simp only [childrenIn, Json.weight]
    omega

theorem weightList_ofItems_le : ∀ items : List Json,
    weightList (ofItems items) ≤ Json.weightItems items
  | [] => by simp [ofItems, weightList]
  | item :: rest => by
    have head := weight_ofJson_le item
    have tail := weightList_ofItems_le rest
    simp only [ofItems, weightList, Json.weightItems]
    omega
end

theorem weight_le_of_get? {members : List (String × Json)} {name : String} {value : Json}
    (found : Table.get? members name = some value) : value.weight ≤ Json.weightMembers members := by
  induction members with
  | nil => simp [Table.get?] at found
  | cons entry rest step =>
    obtain ⟨key, other⟩ := entry
    by_cases same : key = name
    · simp [Table.get?, same] at found
      simp [Json.weightMembers, found]
    · simp [Table.get?, same] at found
      have := step found
      simp only [Json.weightMembers]
      omega

def rereadChildren (members : List (String × Json)) : List Node :=
  match Table.get? members "children" with
  | some (.arr items) => ofItems items
  | _ => []

theorem weightList_rereadChildren_lt (members : List (String × Json)) :
    weightList (rereadChildren members) < (malformed (.obj members)).weight := by
  unfold rereadChildren
  split
  · rename_i items found
    have inside := weight_le_of_get? found
    have all := weightList_ofItems_le items
    simp only [Json.weight, weight] at inside ⊢
    omega
  · simp only [weightList, weight]
    omega

end Plan.Node

namespace Check

open Plan (Node)

def missingType (path : String) : Violation :=
  ⟨.missingType, "Missing \"type\" at " ++ path, some path⟩

def invalidNode (path : String) : Violation :=
  ⟨.invalidNode, "Invalid node at " ++ path ++ ": expected object or string", some path⟩

def unknownComponent (registry : Registry) (name path : String) : Violation :=
  ⟨.unknownComponent, "Component \"" ++ name ++ "\" at " ++ path ++
    " is NOT in the allowed list. Allowed: " ++ ", ".intercalate registry.names, some path⟩

def missingLayout : Violation :=
  ⟨.missingLayout, "Plan must have a \"layout\" key", none⟩

def typeViolations (registry : Registry) (path type : String) : List Violation :=
  if type = "" then [missingType path]
  else if registry.contains type then []
  else [unknownComponent registry type path]

def rawTypeViolations (registry : Registry) (path : String) : Option Json → List Violation
  | none | some .null => [missingType path]
  | some (.str "") => [missingType path]
  | some (.str name) => [unknownComponent registry name path]
  | some other => [unknownComponent registry other.compact path]

mutual
def nodeViolations (registry : Registry) (path : String) : Node → List Violation
  | .text _ => []
  | .element type _ children =>
    typeViolations registry path type ++ childViolations registry path 0 children
  | .malformed (.obj members) =>
    rawTypeViolations registry path (Table.get? members "type") ++
      childViolations registry path 0 (Node.rereadChildren members)
  | .malformed _ => [invalidNode path]
termination_by node => (node.weight, 0)
decreasing_by
  · simp only [Node.weight, Prod.lex_def]; omega
  · exact Prod.Lex.left _ _ (Node.weightList_rereadChildren_lt members)

def childViolations (registry : Registry) (path : String) (index : Nat) :
    List Node → List Violation
  | [] => []
  | child :: rest => nodeViolations registry (childPath path index) child ++
      childViolations registry path (index + 1) rest
termination_by children => (Node.weightList children, children.length)
decreasing_by
  · simp only [Node.weightList, Prod.lex_def, List.length_cons]; omega
  · simp only [Node.weightList, Prod.lex_def, List.length_cons]; omega
end

theorem registered_of_typeViolations {registry : Registry} {path type : String}
    (clean : typeViolations registry path type = []) :
    type ≠ "" ∧ registry.contains type = true := by
  unfold typeViolations at clean
  split at clean
  · cases clean
  · split at clean
    · exact ⟨‹_›, ‹_›⟩
    · cases clean

private theorem rawTypeViolations_ne_nil (registry : Registry) (path : String) (value : Option Json) :
    rawTypeViolations registry path value ≠ [] := by
  unfold rawTypeViolations
  split <;> nofun

theorem nodeViolations_malformed_ne_nil (registry : Registry) (path : String) (value : Json) :
    nodeViolations registry path (.malformed value) ≠ [] := by
  cases value with
  | obj members =>
    rw [nodeViolations]
    intro clean
    exact rawTypeViolations_ne_nil _ _ _ (List.append_eq_nil_iff.mp clean).1
  | null | bool | num | str | arr =>
    rw [nodeViolations]
    · exact List.cons_ne_nil _ _
    · simp

def structureViolations (registry : Registry) (plan : Plan) : List Violation :=
  match plan.layout with
  | none => [missingLayout]
  | some root => nodeViolations registry rootPath root

end Check

end UiPlan
