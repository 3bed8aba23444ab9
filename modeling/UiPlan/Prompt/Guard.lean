import UiPlan.Prompt.Context

/-! Prompts that are turned away before any work is done: blank ones, and those with a
phrase that tries to give the oracle other orders.
-/
namespace UiPlan.Prompt

inductive Objection where
  | blank
  | overrideAttempt
  deriving DecidableEq, Repr

def Objection.message : Objection → String
  | .blank => "Prompt is required"
  | .overrideAttempt =>
    "That prompt looks like it might be trying to override the system. Please rephrase."

def suspiciousPhrases : List String :=
  ["ignore previous", "ignore above", "disregard", "system prompt", "you are now"]

def objection? (prompt : String) : Option Objection :=
  if (Text.trim prompt.toList).isEmpty then some .blank
  else if mentionsAny suspiciousPhrases prompt then some .overrideAttempt
  else none

end UiPlan.Prompt
