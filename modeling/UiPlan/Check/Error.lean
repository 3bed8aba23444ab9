import UiPlan.Check.Props
import UiPlan.Plan.Fence

/-! The error of planner output that is no valid plan: it is not JSON, or it breaks one
rule, or several.
-/
namespace UiPlan.Check

inductive Error where
  | json (error : Json.Error)
  | one (violation : Violation)
  | several (violations : List Violation)
  | noViolations

namespace Error

def ofViolations : List Violation → Error
  | [] => .noViolations
  | [only] => .one only
  | all => .several all

def code : Error → String
  | .json _ => "ERR_PLAN_JSON_PARSE"
  | .one violation => violation.rule.code
  | .several _ => "ERR_PLAN_VALIDATION_MULTIPLE"
  | .noViolations => "ERR_PLAN_INTERNAL"

def numbered (start : Nat) : List Violation → String
  | [] => ""
  | violation :: rest =>
    "\n  " ++ toString start ++ ". " ++ violation.display ++ numbered (start + 1) rest

def message : Error → String
  | .json error => "JSON parsing error: " ++ error.message
  | .one violation => "Validation error: " ++ violation.display
  | .several all =>
    "Multiple validation errors (" ++ toString all.length ++ " issues):" ++ numbered 1 all
  | .noViolations => "Internal error: Called from_validation_errors with empty vector"

def broken : Error → List Violation
  | .one violation => [violation]
  | .several all => all
  | _ => []

end Error

/-- Reads planner output and checks the structure of the plan in it. -/
def parsePlan (registry : Registry) (cs : List Char) : Except Error Plan :=
  match Plan.parse cs with
  | .error error => .error (.json error)
  | .ok plan =>
    match violations registry false plan with
    | [] => .ok plan
    | broken => .error (.ofViolations broken)

end UiPlan.Check
