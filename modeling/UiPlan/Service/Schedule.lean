import UiPlan.Service.Call

/-! Calls that are under way at the same time. A task moves on by atomic steps: it takes a
reference to the lock of its session, draws a ticket, gets the lock when its turn comes,
does the actions of its work one by one, takes the entry of the lock out if its result
asks for that, ends its turn, and gives the reference back. Tasks may take their steps in
any order. The schedule that is run here moves the tasks in their order, each until it
waits, and then lets time pass until the first wait is over.
-/
namespace UiPlan.Service

inductive Task where
  | free (body : Process Result)
  | arriving (work : Guarded)
  | referring (lock : Nat) (work : Guarded)
  | queued (lock ticket : Nat) (work : Guarded)
  | inside (lock : Nat) (body : Process Result) (work : Guarded)
  | leaving (lock : Nat) (result : Result) (work : Guarded)
  | unlocking (lock : Nat) (result : Result) (work : Guarded)
  | dropping (lock : Nat) (result : Result) (work : Guarded)

def Job.task : Job → Task
  | .free body => .free body
  | .guarded work => .arriving work

def Guarded.afterwards (work : Guarded) (result : Result) : Process Result :=
  .act (.record (work.closing result)) fun _ => .done result

namespace Task

def finished (lock : Nat) (result : Result) (work : Guarded) : Task :=
  if work.releases result then .leaving lock result work else .unlocking lock result work

def step : Task → State → Option (Task × State)
  | .free body, state => (body.step state).map fun (body, state) => (.free body, state)
  | .arriving work, state =>
    let (lock, locks) := state.locks.refer work.id
    some (.referring lock work, state.withLocks locks)
  | .referring lock work, state =>
    let (ticket, locks) := state.locks.join lock
    some (.queued lock ticket work, state.withLocks locks)
  | .queued lock ticket work, state =>
    if state.locks.isTurn lock ticket then some (.inside lock work.body work, state) else none
  | .inside lock (.done result) work, state => some (finished lock result work, state)
  | .inside lock body work, state =>
    (body.step state).map fun (body, state) => (.inside lock body work, state)
  | .leaving lock result work, state =>
    some (.unlocking lock result work, state.withLocks (state.locks.release work.id lock))
  | .unlocking lock result work, state =>
    some (.dropping lock result work, state.withLocks (state.locks.unlock lock))
  | .dropping lock result work, state =>
    some (.free (work.afterwards result), state.withLocks (state.locks.drop lock))

def advanceInside (lock : Nat) (body : Process Result) (work : Guarded) (state : State) :
    Task × State :=
  match body.advance state with
  | (.done result, state) => (.free (.done result), work.leave lock result state)
  | (body, state) => (.inside lock body work, state)

def advanceQueued (lock ticket : Nat) (work : Guarded) (state : State) : Task × State :=
  if state.locks.isTurn lock ticket then advanceInside lock work.body work state
  else (.queued lock ticket work, state)

/-- Moves a task on until it waits or is done. The steps after the work are taken at once,
so no task rests between them. -/
def advance : Task → State → Task × State
  | .free body, state =>
    let (body, state) := body.advance state
    (.free body, state)
  | .arriving work, state =>
    let (lock, locks) := state.locks.refer work.id
    let (ticket, locks) := locks.join lock
    advanceQueued lock ticket work (state.withLocks locks)
  | .queued lock ticket work, state => advanceQueued lock ticket work state
  | .inside lock body work, state => advanceInside lock body work state
  | other, state => (other, state)

def wakeTime? : Task → Option Nat
  | .free body => body.wakeTime?
  | .inside _ body _ => body.wakeTime?
  | _ => none

def result? : Task → Option Result
  | .free (.done result) => some result
  | _ => none

end Task

def advanceAll : List Task → State → List Task × State
  | [], state => ([], state)
  | task :: rest, state =>
    let (task, state) := task.advance state
    let (rest, state) := advanceAll rest state
    (task :: rest, state)

def runRounds : (rounds : Nat) → List Task → State → List Task × State
  | 0, tasks, state => (tasks, state)
  | rounds + 1, tasks, state =>
    let (tasks, state) := advanceAll tasks state
    match (tasks.filterMap Task.wakeTime?).min? with
    | none => (tasks, state)
    | some time => runRounds rounds tasks (state.wait time)

def waitsPerCall : Nat := 3

def performAll (service : Service) (calls : List Call) (state : State) : List Result × State :=
  let (tasks, state) := runRounds (waitsPerCall * calls.length + 1)
    (calls.map fun call => (service.job call).task) state
  (tasks.filterMap Task.result?, state)

end UiPlan.Service
