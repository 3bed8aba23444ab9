import UiPlan.Check.Structure

/-! The check of props against their declarations. It looks only at elements whose
type is registered, and at all of them: first the required props that are missing,
in the order of their declarations, then each given prop that is not declared or
not of the declared kind, in the order of the plan.
-/
namespace UiPlan.Check

open Plan (Node)

def provides (props : List (String × Json)) (children : List Node) (name : String) : Bool :=
  Table.has props name || (name = "children" && !children.isEmpty)

def missingProp (spec : ComponentSpec) (path name : String) : Violation :=
  ⟨.missingRequiredProp, "Component \"" ++ spec.name ++ "\" at " ++ path ++
    " is missing required prop \"" ++ name ++ "\"", some path⟩

def unknownProp (spec : ComponentSpec) (path name : String) : Violation :=
  ⟨.unknownProp, "Component \"" ++ spec.name ++ "\" has no prop \"" ++ name ++ "\"",
    some (propPath path name)⟩

def expectation (prop : PropSpec) : String :=
  match prop.kind with
  | .enum => "one of: " ++ ", ".intercalate prop.values
  | kind => kind.name

def invalidProp (spec : ComponentSpec) (prop : PropSpec) (path name : String) (value : Json) :
    Violation :=
  ⟨.invalidPropValue, "Prop \"" ++ name ++ "\" of \"" ++ spec.name ++ "\" expects " ++
    expectation prop ++ ", got " ++ value.compact, some (propPath path name)⟩

def missingProps (spec : ComponentSpec) (path : String) (props : List (String × Json))
    (children : List Node) : List Violation :=
  (spec.props.filter fun prop => prop.required && !provides props children prop.name).map
    fun prop => missingProp spec path prop.name

def propViolation? (spec : ComponentSpec) (path : String) (entry : String × Json) :
    Option Violation :=
  match spec.prop? entry.1 with
  | none => some (unknownProp spec path entry.1)
  | some prop =>
    if prop.accepts entry.2 then none else some (invalidProp spec prop path entry.1 entry.2)

def elementViolations (spec : ComponentSpec) (path : String) (props : List (String × Json))
    (children : List Node) : List Violation :=
  missingProps spec path props children ++ props.filterMap (propViolation? spec path)

mutual
def propViolationsAt (registry : Registry) (path : String) : Node → List Violation
  | .element type props children =>
    (match registry.get? type with
      | some spec => elementViolations spec path props children
      | none => []) ++ propViolationsOf registry path 0 children
  | _ => []

def propViolationsOf (registry : Registry) (path : String) (index : Nat) :
    List Node → List Violation
  | [] => []
  | child :: rest => propViolationsAt registry (childPath path index) child ++
      propViolationsOf registry path (index + 1) rest
end

def propViolations (registry : Registry) (plan : Plan) : List Violation :=
  match plan.layout with
  | none => []
  | some root => propViolationsAt registry rootPath root

def violations (registry : Registry) (strict : Bool) (plan : Plan) : List Violation :=
  structureViolations registry plan ++ if strict then propViolations registry plan else []

end UiPlan.Check
