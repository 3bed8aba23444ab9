import UiPlan.Service.Call
import UiPlan.Proofs.Table

/-! What all stored versions have in common. Versions enter the store only by commits, so a
property of versions holds of the whole store as long as every draft that is committed has
it. A process is judged by all actions it could take, whatever the answers to the earlier
ones are; then its run keeps the property in every state.
-/
namespace UiPlan

namespace Store

def All (good : Session.Version → Prop) (store : Store) : Prop :=
  ∀ entry ∈ store, ∀ version ∈ entry.2.versions, good version

variable {good : Session.Version → Prop} {store : Store}

theorem All.session (all : store.All good) {id : String} {session : Session}
    (found : store.get? id = some session) : ∀ version ∈ session.versions, good version :=
  all _ (Table.mem_of_get? found)

theorem All.insert (all : store.All good) {id : String} {session : Session}
    (own : ∀ version ∈ session.versions, good version) : All good (Table.insert store id session) := by
  intro entry inside
  rcases Table.mem_insert inside with rfl | old
  · exact own
  · exact all entry old

theorem All.ensure (all : store.All good) (id : String) :
    All good (store.ensure id).2 ∧ ∀ version ∈ (store.ensure id).1.versions, good version := by
  unfold Store.ensure
  split
  · rename_i session found
    exact ⟨all, all.session found⟩
  · exact ⟨all.insert (by simp [Session.new]), by simp [Session.new]⟩

theorem All.commit (all : store.All good) {draft : Session.Draft}
    (fit : ∀ index time, good (draft.version index time)) (id : String) (time : Timestamp) :
    All good (store.commit id draft time).2 := by
  obtain ⟨others, own⟩ := all.ensure id
  refine others.insert fun version inside => ?_
  rcases List.mem_append.mp inside with old | new
  · exact own version old
  · rw [List.mem_singleton.mp new]
    exact fit _ _

theorem All.rollback (all : store.All good) (id : String) (index : Int) :
    All good (store.rollback id index).2 := by
  unfold Store.rollback
  split
  · exact all
  · rename_i session found
    have own := all.session found
    refine all.insert ?_
    unfold Session.rollback
    split <;> exact own

theorem All.reset (all : store.All good) (id : String) : All good (store.reset id) :=
  fun entry inside => all entry (Table.mem_of_mem_erase inside)

end Store

namespace Service

def Action.Fit (good : Session.Version → Prop) : Action → Prop
  | .commit _ draft => ∀ index time, good (draft.version index time)
  | _ => True

theorem all_access {α : Type} {good : Session.Version → Prop} {state : State}
    (all : state.store.All good) (access : Access)
    {use : Store → Except Session.Error α × Store} (kept : Store.All good (use state.store).2) :
    Store.All good (state.access access use).2.store := by
  unfold State.access
  split
  · exact all
  · exact kept

private theorem all_perform {good : Session.Version → Prop} {action : Action} (fit : action.Fit good)
    {state : State} (all : state.store.All good) :
    Store.All good (action.perform state).2.store := by
  cases action with
  | look id => exact all_access all _ all
  | ensure id => exact (all.ensure id).1
  | commit id draft => exact all_access all _ (all.commit fit id _)
  | rollback id index => exact all_access all _ (all.rollback id index)
  | reset id => exact all_access all _ (all.reset id)
  | summarize id => exact all_access all _ (all.ensure id).1
  | snapshot id => exact all_access all _ (all.ensure id).1
  | consult stage context timeout =>
    simp only [Action.perform, State.consult]
    split <;> exact all
  | await time => exact all
  | record metrics =>
    simp only [Action.perform, State.record]
    split <;> exact all

namespace Process

/-- Whatever the answers are, the process takes only actions of the one kind and returns a
value of the other. -/
def Yields {α : Type} (kind : Action → Prop) (result : α → Prop) : Process α → Prop
  | .done value => result value
  | .act action next => kind action ∧ ∀ answer, (next answer).Yields kind result

variable {α β : Type} {kind : Action → Prop}

theorem yields_bind {first : α → Prop} {second : β → Prop} {process : Process α}
    {rest : α → Process β} (begun : process.Yields kind first)
    (goes : ∀ value, first value → (rest value).Yields kind second) :
    (process >>= rest).Yields kind second := by
  induction process with
  | done value => exact goes value begun
  | act action next step => exact ⟨begun.1, fun answer => step answer (begun.2 answer)⟩

theorem yields_perform {action : Action} (fit : kind action) :
    (perform action).Yields kind fun _ => True := ⟨fit, fun _ => trivial⟩

/-- A process does nothing to the store that none of its actions does. -/
theorem all_run {good : Session.Version → Prop} {result : α → Prop} {process : Process α}
    (yields : process.Yields (Action.Fit good) result) {state : State} (all : state.store.All good) :
    Store.All good (process.run state).2.store := by
  induction process generalizing state with
  | done value => exact all
  | act action next step => exact step _ (yields.2 _) (all_perform yields.1 all)

end Process

theorem mapError_ok {ε δ α : Type} (change : ε → δ) (value : α) :
    Except.mapError change (.ok value) = .ok value := rfl

theorem record_eq (state : State) (metrics : List Metric) : state.record metrics =
    { state with
      metrics := if state.recording then state.metrics ++ metrics else state.metrics } := by
  unfold State.record
  split <;> rfl

theorem store_record (state : State) (metrics : List Metric) :
    (state.record metrics).store = state.store := by rw [record_eq]

theorem calls_record (state : State) (metrics : List Metric) :
    (state.record metrics).calls = state.calls := by rw [record_eq]

theorem locks_record (state : State) (metrics : List Metric) :
    (state.record metrics).locks = state.locks := by rw [record_eq]

theorem outages_record (state : State) (metrics : List Metric) :
    (state.record metrics).outages = state.outages := by rw [record_eq]

private theorem all_guarded_run {good : Session.Version → Prop} {work : Guarded} {result : Result → Prop}
    (yields : work.body.Yields (Action.Fit good) result) {state : State}
    (all : state.store.All good) : Store.All good (work.run state).2.store := by
  simp only [Guarded.run, Guarded.leave, store_record]
  exact Process.all_run yields all

def Job.Yields (kind : Action → Prop) : Job → Prop
  | .free body => body.Yields kind fun _ => True
  | .guarded work => work.body.Yields kind fun _ => True

/-- A job whose actions commit only good versions leaves only good versions in the store. -/
theorem all_job_run {good : Session.Version → Prop} {job : Job} (yields : job.Yields (Action.Fit good))
    {state : State} (all : state.store.All good) : Store.All good (job.run state).2.store := by
  cases job with
  | free body => exact Process.all_run yields all
  | guarded work => exact all_guarded_run yields all

end Service

end UiPlan
