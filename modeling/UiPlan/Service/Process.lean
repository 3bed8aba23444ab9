import UiPlan.Service.State

/-! What a call does, as a sequence of atomic actions, each of which may depend on the
answers to those before it. A process can be run to its end at once, or be moved on by
single actions while other processes act in between. Locks are no part of a process: they
are taken before it and let go after it.
-/
namespace UiPlan.Service

open Oracle (Stage)

inductive Action where
  | look (id : String)
  | ensure (id : String)
  | commit (id : String) (draft : Session.Draft)
  | rollback (id : String) (index : Int)
  | reset (id : String)
  | summarize (id : String)
  | snapshot (id : String)
  | consult (stage : Stage) (context : String) (timeout : Nat)
  | await (time : Nat)
  | record (metrics : List Metric)

namespace Action

abbrev Answer : Action → Type
  | .look _ => Except Session.Error (Option Session)
  | .ensure _ => Session
  | .commit _ _ => Except Session.Error Session.Outcome
  | .rollback _ _ => Except Session.Error Session.Outcome
  | .reset _ => Except Session.Error Unit
  | .summarize _ => Except Session.Error (List Session.Summary)
  | .snapshot _ => Except Session.Error Session.Snapshot
  | .consult _ _ _ => Reply
  | .await _ => Unit
  | .record _ => Unit

def isReady : Action → State → Bool
  | .await time, state => time ≤ state.clock
  | _, _ => true

def perform : (action : Action) → State → action.Answer × State
  | .look id, state => state.access .getOrCreate fun store => (.ok (Table.get? store id), store)
  | .ensure id, state =>
    let (session, store) := state.store.ensure id
    (session, { state with store := store })
  | .commit id draft, state => state.access .commit fun store =>
    let (outcome, store) := store.commit id draft (.ofMilliseconds state.clock)
    (.ok outcome, store)
  | .rollback id index, state => state.access .rollback fun store => store.rollback id index
  | .reset id, state => state.access .reset fun store => (.ok (), store.reset id)
  | .summarize id, state => state.access .summarize fun store =>
    let (summaries, store) := store.summaries id
    (.ok summaries, store)
  | .snapshot id, state => state.access .snapshot fun store =>
    let (view, store) := store.snapshot id
    (.ok view, store)
  | .consult stage context timeout, state => state.consult stage context timeout
  | .await time, state => ((), state.wait time)
  | .record metrics, state => ((), state.record metrics)

end Action

inductive Process (α : Type) where
  | done (value : α)
  | act (action : Action) (next : action.Answer → Process α)

namespace Process

def bind {α β : Type} : Process α → (α → Process β) → Process β
  | .done value, rest => rest value
  | .act action next, rest => .act action fun answer => (next answer).bind rest

instance : Monad Process where
  pure := .done
  bind := Process.bind

def perform (action : Action) : Process action.Answer := .act action .done

def run {α : Type} : Process α → State → α × State
  | .done value, state => (value, state)
  | .act action next, state =>
    let (answer, state) := action.perform state
    (next answer).run state

def step {α : Type} : Process α → State → Option (Process α × State)
  | .done _, _ => none
  | .act action next, state =>
    if action.isReady state then
      let (answer, state) := action.perform state
      some (next answer, state)
    else none

/-- Moves a process on until it waits or is done. -/
def advance {α : Type} : Process α → State → Process α × State
  | .done value, state => (.done value, state)
  | .act action next, state =>
    if action.isReady state then
      let (answer, state) := action.perform state
      (next answer).advance state
    else (.act action next, state)

def wakeTime? {α : Type} : Process α → Option Nat
  | .act (.await time) _ => some time
  | _ => none

theorem run_bind {α β : Type} (process : Process α) (rest : α → Process β) (state : State) :
    (process.bind rest).run state =
      (rest (process.run state).1).run (process.run state).2 := by
  induction process generalizing state with
  | done value => rfl
  | act action next step => exact step _ _

end Process

end UiPlan.Service
