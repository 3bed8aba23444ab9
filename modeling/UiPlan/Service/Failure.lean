import UiPlan.Oracle.Category
import UiPlan.Prompt.Guard
import UiPlan.Session.Basic

/-! Why a request to the service fails, in categories that users are told of. The text of
an oracle's own error is not among what is kept.
-/
namespace UiPlan.Service

open Oracle (Category)

inductive Failure where
  | invalidInput (message : String)
  | unreadable (raw : String)
  | invalidPlan (details : List String)
  | oracle (category : Category)
  | store (error : Session.Error)
  deriving DecidableEq, Repr

namespace Failure

def ofObjection (objection : Prompt.Objection) : Failure := .invalidInput objection.message

def invalidVersionIndex : String := "Invalid version index"

def ofSession : Session.Error → Failure
  | .versionOutOfRange _ _ => .invalidInput invalidVersionIndex
  | other => .store other

def code : Failure → String
  | .invalidInput _ => "ERR_INVALID_INPUT"
  | .unreadable _ => "ERR_ORACLE_PARSE"
  | .invalidPlan _ => "ERR_PLAN_VALIDATION"
  | .oracle _ => "ERR_UPSTREAM_SERVICE"
  | .store _ => "ERR_STATE_STORE"

def message : Failure → String
  | .invalidInput message => message
  | .unreadable _ => "The AI returned invalid JSON. Please try rephrasing your request."
  | .invalidPlan _ => "AI could not produce a valid plan."
  | .oracle category => category.message
  | .store error => "Session store failure: " ++ error.message

def outcome : Failure → String
  | .invalidInput _ => "invalid_input"
  | .unreadable _ => "oracle_parse"
  | .invalidPlan _ => "invalid_plan"
  | .oracle category => category.name
  | .store _ => "store"

end Failure

end UiPlan.Service
