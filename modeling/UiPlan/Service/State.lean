import UiPlan.Oracle.Basic
import UiPlan.Service.Locks
import UiPlan.Service.Metric
import UiPlan.Session.Store

/-! What the service works on: the store of sessions, the oracle with the answers it has
prepared, the locks, and the record of what was asked and counted. Time is a count of
milliseconds that passes only while a call waits for the oracle.
-/
namespace UiPlan.Service

open Oracle (Answer Stage)

inductive Access where
  | getOrCreate
  | commit
  | rollback
  | reset
  | summarize
  | snapshot
  deriving DecidableEq, Repr

structure State where
  store : Store := .empty
  outages : Table Access String := []
  answers : List Answer := []
  delay : Nat := 0
  clock : Nat := 0
  locks : Locks := .none
  calls : List (Stage × String) := []
  metrics : List Metric := []
  recording : Bool := true

structure Reply where
  time : Nat
  answer : Answer

namespace State

def record (state : State) (metrics : List Metric) : State :=
  if state.recording then { state with metrics := state.metrics ++ metrics } else state

def access {α : Type} (state : State) (access : Access)
    (use : Store → Except Session.Error α × Store) : Except Session.Error α × State :=
  match Table.get? state.outages access with
  | some text => (.error (.store text), state)
  | none =>
    let (result, store) := use state.store
    (result, { state with store := store })

def nextAnswer (state : State) : Answer := state.answers.head?.getD Oracle.unprepared

/-- Asks the oracle. The answer that was prepared next is used up at once, also if it
comes too late; one that comes at the very end of the time is not too late. -/
def consult (state : State) (stage : Stage) (context : String) (timeout : Nat) : Reply × State :=
  let asked := { state with
    answers := state.answers.tail
    calls := state.calls ++ [(stage, context)] }
  if state.delay ≤ timeout then (⟨state.clock + state.delay, state.nextAnswer⟩, asked)
  else (⟨state.clock + timeout, .error (.timeout timeout)⟩, asked)

def wait (state : State) (time : Nat) : State := { state with clock := max state.clock time }

end State

end UiPlan.Service
