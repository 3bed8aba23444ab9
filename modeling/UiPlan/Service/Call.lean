import UiPlan.Service.Basic

/-! Calls of the service and the locks they take. Calls that change a session take its lock
for as long as they work on it, so on one session they follow one another. A lock entry
stays for a session that exists; a reset and a failed rollback take it out again, as the
last thing before the lock is let go. Versions and snapshots need no lock.
-/
namespace UiPlan.Service

inductive Call where
  | generate (id prompt : String)
  | rollback (id : String) (index : Int)
  | reset (id : String)
  | versions (id : String)
  | snapshot (id : String)
  deriving DecidableEq, Repr

inductive Response where
  | outcome (outcome : Session.Outcome)
  | versions (summaries : List Session.Summary)
  | snapshot (snapshot : Session.Snapshot)
  | reset

abbrev Result := Except Failure Response

structure Guarded where
  id : String
  body : Process Result
  releases : Result → Bool
  closing : Result → List Metric

inductive Job where
  | free (body : Process Result)
  | guarded (work : Guarded)

def isError : Result → Bool
  | .error _ => true
  | .ok _ => false

def generationOutcome : Result → String
  | .ok _ => "ok"
  | .error failure => failure.outcome

def Guarded.generate (service : Service) (id prompt : String) : Guarded where
  id := id
  body := return (← service.generation id prompt).map Response.outcome
  releases := fun _ => false
  closing := fun result => Metric.generation (generationOutcome result)

def Guarded.rollback (id : String) (index : Int) : Guarded where
  id := id
  body := do
    let result ← Process.perform (.rollback id index)
    Process.perform (.record (Metric.rollback result.isOk))
    return (result.mapError Failure.ofSession).map Response.outcome
  releases := isError
  closing := fun _ => []

def Guarded.reset (id : String) : Guarded where
  id := id
  body := do
    let result ← Process.perform (.reset id)
    return (result.mapError Failure.ofSession).map fun _ => Response.reset
  releases := fun _ => true
  closing := fun _ => []

def turnAway (objection : Prompt.Objection) : Process Result := do
  let result : Result := .error (.ofObjection objection)
  Process.perform (.record (Metric.generation (generationOutcome result)))
  return result

def summarizing (id : String) : Process Result := do
  let result ← Process.perform (.summarize id)
  return (result.mapError Failure.ofSession).map Response.versions

def snapshotting (id : String) : Process Result := do
  let result ← Process.perform (.snapshot id)
  return (result.mapError Failure.ofSession).map Response.snapshot

def job (service : Service) : Call → Job
  | .generate id prompt =>
    match Prompt.objection? prompt with
    | some objection => .free (turnAway objection)
    | none => .guarded (.generate service id prompt)
  | .rollback id index => .guarded (.rollback id index)
  | .reset id => .guarded (.reset id)
  | .versions id => .free (summarizing id)
  | .snapshot id => .free (snapshotting id)

namespace State

def withLocks (state : State) (locks : Locks) : State := { state with locks := locks }

end State

namespace Guarded

def leave (work : Guarded) (lock : Nat) (result : Result) (state : State) : State :=
  let locks := if work.releases result then state.locks.release work.id lock else state.locks
  (state.withLocks ((locks.unlock lock).drop lock)).record (work.closing result)

def run (work : Guarded) (state : State) : Result × State :=
  let (lock, locks) := state.locks.refer work.id
  let (_, locks) := locks.join lock
  let (result, state) := work.body.run (state.withLocks locks)
  (result, work.leave lock result state)

end Guarded

def Job.run : Job → State → Result × State
  | .free body, state => body.run state
  | .guarded work, state => work.run state

def perform (service : Service) (call : Call) (state : State) : Result × State :=
  (service.job call).run state

end UiPlan.Service
