/-! Violations of the rules for plans, and the one error that a failed check gives. -/
namespace UiPlan

namespace Check

inductive Rule where
  | missingLayout
  | invalidNode
  | missingType
  | unknownComponent
  | missingRequiredProp
  | invalidPropValue
  | unknownProp
  deriving DecidableEq, Repr

def Rule.code : Rule → String
  | .missingLayout => "ERR_PLAN_VALIDATION_MISSING_LAYOUT"
  | .invalidNode => "ERR_PLAN_VALIDATION_INVALID_NODE"
  | .missingType => "ERR_PLAN_VALIDATION_MISSING_TYPE"
  | .unknownComponent => "ERR_PLAN_VALIDATION_UNKNOWN_COMPONENT"
  | .missingRequiredProp => "ERR_PLAN_VALIDATION_MISSING_REQUIRED_PROP"
  | .invalidPropValue => "ERR_PLAN_VALIDATION_INVALID_PROP_VALUE"
  | .unknownProp => "ERR_PLAN_VALIDATION_UNKNOWN_PROP"

structure Violation where
  rule : Rule
  message : String
  path : Option String
  deriving DecidableEq, Repr

def Violation.display (violation : Violation) : String :=
  violation.rule.code ++ ": " ++ violation.message ++
    match violation.path with
    | some path => " (at " ++ path ++ ")"
    | none => ""

def rootPath : String := "layout"

def childPath (parent : String) (index : Nat) : String :=
  parent ++ ".children[" ++ toString index ++ "]"

def propPath (parent name : String) : String := parent ++ ".props." ++ name

end Check

end UiPlan
