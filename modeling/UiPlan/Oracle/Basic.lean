/-! The oracle: an external model that answers a request with a text, or fails. It is
asked in two stages, for a plan and for an explanation of the plan.
-/
namespace UiPlan

namespace Oracle

inductive Stage where
  | planner
  | explainer
  deriving DecidableEq, Repr

def Stage.name : Stage → String
  | .planner => "planner"
  | .explainer => "explainer"

inductive Error where
  | transport (text : String)
  | timeout (milliseconds : Nat)
  | configuration (text : String)
  deriving DecidableEq, Repr

abbrev Answer := Except Error String

def thousandths (n : Nat) : String :=
  if n = 0 then ""
  else if n % 100 = 0 then "." ++ toString (n / 100)
  else if n % 10 = 0 then "." ++ toString (n / 100) ++ toString (n / 10 % 10)
  else "." ++ toString (n / 100) ++ toString (n / 10 % 10) ++ toString (n % 10)

def durationText (milliseconds : Nat) : String :=
  if milliseconds = 0 then "0ns"
  else if milliseconds < 1000 then toString milliseconds ++ "ms"
  else toString (milliseconds / 1000) ++ thousandths (milliseconds % 1000) ++ "s"

def Error.message : Error → String
  | .transport text => "Oracle transport error: " ++ text
  | .timeout milliseconds => "Oracle call timed out after " ++ durationText milliseconds
  | .configuration text => "Oracle is not configured: " ++ text

def unprepared : Answer := .error (.transport "scripted oracle has no more answers")

end Oracle

end UiPlan
