import UiPlan.Check.Props
import UiPlan.Plan.Fence
import UiPlan.Prompt.Context
import UiPlan.Registry.Standard
import UiPlan.Service.Failure
import UiPlan.Service.Process

/-! The service and its calls. A generation turns a prompt into a new version of a session:
the oracle plans, and once more with a correction if its plan was no use; the plan is
compiled; the oracle explains it; the version is committed. Until then nothing is stored.
-/
namespace UiPlan

structure Service where
  registry : Registry := .standard
  strict : Bool := false
  timeout : Nat := 60000  -- in milliseconds

namespace Service

open Oracle (Stage)

def ask (service : Service) (stage : Stage) (context : String) :
    Process (Except Failure String) := do
  let reply ← Process.perform (.consult stage context service.timeout)
  Process.perform (.await reply.time)
  Process.perform (.record (Metric.oracleCall stage reply.answer.isOk))
  return reply.answer.mapError fun error => .oracle error.category

inductive Rejection where
  | unreadable
  | invalid (violations : List Check.Violation)

namespace Rejection

def reason : Rejection → String
  | .unreadable => "oracle_parse"
  | .invalid _ => "invalid_plan"

def correction (context : String) : Rejection → String
  | .unreadable => Prompt.jsonCorrection context
  | .invalid violations => Prompt.violationCorrection context violations

def failure (text : String) : Rejection → Failure
  | .unreadable => .unreadable (.ofList (Plan.stripFences text.toList))
  | .invalid violations => .invalidPlan (violations.map Check.Violation.message)

end Rejection

def interpret (service : Service) (text : String) : Except Rejection Plan :=
  match Plan.parse text.toList with
  | .error _ => .error .unreadable
  | .ok plan =>
    match Check.violations service.registry service.strict plan with
    | [] => .ok plan
    | violations => .error (.invalid violations)

def propose (service : Service) (context : String) : Process (Except Failure Plan) := do
  match ← service.ask .planner context with
  | .error failure => return .error failure
  | .ok text =>
    match service.interpret text with
    | .ok plan => return .ok plan
    | .error rejection =>
      Process.perform (.record (Metric.retry rejection.reason))
      match ← service.ask .planner (rejection.correction context) with
      | .error failure => return .error failure
      | .ok text => return (service.interpret text).mapError (Rejection.failure text)

def openSession (id : String) : Process (Except Session.Error Session) := do
  match ← Process.perform (.look id) with
  | .error error => return .error error
  | .ok (some session) => return .ok session
  | .ok none => return .ok (← Process.perform (.ensure id))

def finish (service : Service) (id prompt : String) (isModification : Bool) (plan : Plan) :
    Process (Except Failure Session.Outcome) := do
  match ← service.ask .explainer (Prompt.explainerContext prompt plan isModification) with
  | .error failure => return .error failure
  | .ok explanation =>
    let draft : Session.Draft := ⟨plan, Program.compile service.registry plan, explanation, prompt⟩
    return (← Process.perform (.commit id draft)).mapError Failure.ofSession

def generation (service : Service) (id prompt : String) :
    Process (Except Failure Session.Outcome) := do
  match ← openSession id with
  | .error error => return .error (.ofSession error)
  | .ok session =>
    match ← service.propose (Prompt.plannerContext prompt session.history session.livePlan) with
    | .error failure => return .error failure
    | .ok plan => service.finish id prompt session.isModification plan

end Service

end UiPlan
