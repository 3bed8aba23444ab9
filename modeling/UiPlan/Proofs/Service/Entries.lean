import UiPlan.Proofs.Service.Exchange
import UiPlan.Proofs.Service.Exclusion

/-! The entries of locks when calls follow one another. A call gives back every reference it
takes, so between calls nobody refers to a lock, and an entry that is to be taken out is.
The entries that stay are those of sessions in the store: a generation opens its session
before anything else, and a rollback keeps its entry only if it found its session.
-/
namespace UiPlan

namespace Table

variable {κ : Type} {α : Type u} [DecidableEq κ]

private theorem keys_erase (table : Table κ α) (key : κ) :
    (table.erase key).keys = table.keys.filter (· ≠ key) := by
  induction table with
  | nil => rfl
  | cons entry rest step =>
    obtain ⟨k, value⟩ := entry
    simp only [keys] at step
    by_cases same : k = key <;> simp [erase, keys, same, step]

end Table

namespace Service

namespace Locks

def Unreferenced (locks : Locks) : Prop := ∀ lock, (locks.mutex lock).references = 0

def taken (locks : Locks) (id : String) : Locks := ((locks.refer id).2.join (locks.refer id).1).2

def passed (locks : Locks) (id : String) (releases : Bool) : Locks :=
  let lock := (locks.refer id).1
  let left := if releases then (locks.taken id).release id lock else locks.taken id
  (left.unlock lock).drop lock

theorem get?_entries_taken (locks : Locks) (id other : String) :
    Table.get? (locks.taken id).entries other =
      if id = other then some (locks.refer id).1 else Table.get? locks.entries other := by
  have joined : (locks.taken id).entries = (locks.refer id).2.entries := rfl
  rw [joined]
  split
  · rename_i same
    rw [← same]
    exact locks.entry_refer id
  · rename_i different
    have entered : Table.get? (locks.enter id).2.entries other = Table.get? locks.entries other := by
      unfold enter
      split
      · rfl
      · rw [Table.get?_insert, if_neg different]
    exact entered

private theorem nodup_entries_taken {locks : Locks} (distinct : (Table.keys locks.entries).Nodup)
    (id : String) : (Table.keys (locks.taken id).entries).Nodup := by
  have entered : (Table.keys (locks.enter id).2.entries).Nodup := by
    unfold enter
    split
    · exact distinct
    · exact Table.nodup_keys_insert distinct _ _
  exact entered

theorem references_taken {locks : Locks} (free : locks.Unreferenced) (id : String) (other : Nat) :
    ((locks.taken id).mutex other).references = if (locks.refer id).1 = other then 1 else 0 := by
  rw [taken, mutex_join, mutex_refer]
  split <;> simp [free other]

/-- Whoever alone refers to a lock gives the last reference back. -/
theorem unreferenced_drop {locks : Locks} {lock : Nat}
    (single : ∀ other, (locks.mutex other).references = if lock = other then 1 else 0) :
    ((locks.unlock lock).drop lock).Unreferenced := by
  intro other
  have here := single other
  rw [mutex_drop, mutex_unlock]
  by_cases own : lock = other
  · rw [if_pos own] at here
    simp [own, here, Mutex.idle]
  · rw [if_neg own] at here
    simp [own, here]

private theorem unreferenced_passed {locks : Locks} (free : locks.Unreferenced) (id : String)
    (releases : Bool) : (locks.passed id releases).Unreferenced := by
  refine unreferenced_drop fun other => ?_
  rw [← references_taken free id other]
  split
  · rw [mutex_release]
  · rfl

/-- Nobody else refers to the lock, so its entry does go if it is to go. -/
theorem entries_passed {locks : Locks} (free : locks.Unreferenced) (id : String) (releases : Bool) :
    (locks.passed id releases).entries =
      if releases then Table.erase (locks.taken id).entries id else (locks.taken id).entries := by
  have alone : Table.get? (locks.taken id).entries id = some (locks.refer id).1 ∧
      ((locks.taken id).mutex (locks.refer id).1).references ≤ 1 := by
    rw [get?_entries_taken, references_taken free]
    simp
  rw [passed, entries_drop]
  split
  · exact congrArg Locks.entries (if_pos alone)
  · rfl

private theorem get?_entries_passed {locks : Locks} (free : locks.Unreferenced) (id other : String)
    (releases : Bool) : Table.get? (locks.passed id releases).entries other =
      if id = other then (if releases then .none else some (locks.refer id).1)
      else Table.get? locks.entries other := by
  rw [entries_passed free]
  cases releases with
  | true =>
    rw [if_pos rfl, Table.get?_erase, get?_entries_taken]
    split <;> rfl
  | false => exact get?_entries_taken locks id other

private theorem nodup_entries_passed {locks : Locks} (free : locks.Unreferenced)
    (distinct : (Table.keys locks.entries).Nodup) (id : String) (releases : Bool) :
    (Table.keys (locks.passed id releases).entries).Nodup := by
  have taken := nodup_entries_taken distinct id
  rw [entries_passed free]
  split
  · rw [Table.keys_erase]
    exact taken.filter _
  · exact taken

end Locks

/-- Locks and outages are no business of a process. -/
theorem run_kept {α : Type} (process : Process α) (state : State) :
    (process.run state).2.locks = state.locks ∧ (process.run state).2.outages = state.outages := by
  induction process generalizing state with
  | done value => exact ⟨rfl, rfl⟩
  | act action next step =>
    obtain ⟨locks, outages⟩ := perform_kept action state
    obtain ⟨locksLater, outagesLater⟩ := step (action.perform state).1 (action.perform state).2
    exact ⟨locksLater.trans locks, outagesLater.trans outages⟩

private theorem guarded_run_eq (work : Guarded) (state : State) :
    work.run state =
      let worked := work.body.run (state.withLocks (state.locks.taken work.id))
      (worked.1, work.leave (state.locks.refer work.id).1 worked.1 worked.2) := rfl

private theorem locks_leave (work : Guarded) (lock : Nat) (result : Result) (state : State) :
    (work.leave lock result state).locks =
      ((if work.releases result then state.locks.release work.id lock else state.locks).unlock
        lock).drop lock := locks_record _ _

theorem guarded_run_kept (work : Guarded) (state : State) :
    (work.run state).2.locks = state.locks.passed work.id (work.releases (work.run state).1) ∧
      (work.run state).2.outages = state.outages := by
  obtain ⟨locks, outages⟩ := run_kept work.body (state.withLocks (state.locks.taken work.id))
  constructor
  · rw [guarded_run_eq]
    dsimp only
    rw [locks_leave, locks]
    rfl
  · exact (outages_record _ _).trans outages

theorem store_guarded_run (work : Guarded) (state : State) :
    (work.run state).2.store =
      (work.body.run (state.withLocks (state.locks.taken work.id))).2.store := store_record _ _

theorem has_ensure (store : Store) (id other : String) :
    Table.has (store.ensure id).2 other = (id == other || Table.has store other) := by
  rw [Table.has, Store.get?_ensure]
  by_cases same : id = other <;> simp [same, Table.has]

private theorem has_rollback (store : Store) (id other : String) (index : Int) :
    Table.has (store.rollback id index).2 other = Table.has store other := by
  have moved : Table.get? (store.rollback id index).2 other = _ :=
    Store.get?_apply (.rollback id index) store other
  rw [Table.has, moved, Table.has, Store.Operation.id]
  split
  · rename_i same
    rw [← same]
    cases Table.get? store id <;> rfl
  · rfl

theorem perform_objected (service : Service) (id : String) {prompt : String}
    {objection : Prompt.Objection} (objected : Prompt.objection? prompt = some objection)
    (state : State) : service.perform (.generate id prompt) state = (turnAway objection).run state := by
  simp only [perform, job, objected, Job.run]

/-- A generation opens its session before it asks for anything. -/
theorem has_perform_generate (service : Service) (id : String) {prompt : String}
    (admitted : Prompt.objection? prompt = none) {state : State} (works : state.outages = [])
    (other : String) : Table.has (service.perform (.generate id prompt) state).2.store other =
      (id == other || Table.has state.store other) := by
  obtain ⟨locks, done⟩ := perform_generate service id admitted state
  have working : Table.get? (state.withLocks locks).outages .getOrCreate = none := by
    rw [State.withLocks, works]
    rfl
  rcases ran : (service.generation id prompt).run (state.withLocks locks) with ⟨result, next⟩
  obtain ⟨_, _, _, exchange⟩ := exchange_of_run working ran
  rw [(done _ _ ran).2.2, Table.has]
  cases ended : result with
  | ok outcome =>
    obtain ⟨_, _, _, _, _, _, _, _, held⟩ := exchange.committed outcome ended
    rw [held]
    by_cases same : id = other <;> simp [same, Table.has, State.withLocks]
  | error failure =>
    rw [exchange.untouched failure ended]
    by_cases same : id = other <;> simp [same, Table.has, State.withLocks]

theorem run_perform (action : Action) (state : State) :
    (Process.perform action).run state = action.perform state := rfl

theorem access_of_works {α : Type} {state : State} (works : state.outages = []) (access : Access)
    (use : Store → Except Session.Error α × Store) :
    state.access access use = ((use state.store).1, { state with store := (use state.store).2 }) := by
  rw [State.access, works]
  rfl

/-- A rollback that succeeds has found its session. -/
theorem perform_rollback (service : Service) (id : String) (index : Int) {state : State}
    (works : state.outages = []) :
    (service.perform (.rollback id index) state).2.store = (state.store.rollback id index).2 ∧
      (isError (service.perform (.rollback id index) state).1 = false →
        Table.has state.store id = true) := by
  let held : State := state.withLocks (state.locks.taken id)
  have working : held.outages = [] := works
  have acted : Action.perform (.rollback id index) held =
      ((state.store.rollback id index).1, { held with store := (state.store.rollback id index).2 }) :=
    access_of_works working .rollback fun store => store.rollback id index
  have ran : (Guarded.rollback id index).body.run held =
      (((state.store.rollback id index).1.mapError Failure.ofSession).map Response.outcome,
        { held with store := (state.store.rollback id index).2 }.record
          (Metric.rollback (state.store.rollback id index).1.isOk)) := by
    rw [Guarded.rollback, run_followed, run_perform, acted]
    rfl
  constructor
  · refine (store_guarded_run (Guarded.rollback id index) state).trans ?_
    exact (congrArg (·.2.store) ran).trans (store_record _ _)
  · intro succeeds
    have result : (service.perform (.rollback id index) state).1 =
        ((state.store.rollback id index).1.mapError Failure.ofSession).map Response.outcome :=
      congrArg (fun done : Result × State => done.1) ran
    rw [result] at succeeds
    cases found : Table.get? state.store id with
    | some session => simp [Table.has, found]
    | none =>
      have missing : (state.store.rollback id index).1 = .error (.versionOutOfRange index 0) := by
        simp [Store.rollback, found]
      rw [missing] at succeeds
      cases succeeds

private theorem store_perform_reset (service : Service) (id : String) {state : State}
    (works : state.outages = []) :
    (service.perform (.reset id) state).2.store = state.store.reset id := by
  let held : State := state.withLocks (state.locks.taken id)
  have working : held.outages = [] := works
  have acted : Action.perform (.reset id) held = _ :=
    access_of_works working .reset fun store => (.ok (), store.reset id)
  refine (store_guarded_run (Guarded.reset id) state).trans ?_
  change ((Guarded.reset id).body.run held).2.store = _
  rw [Guarded.reset, run_followed, run_perform, acted]
  rfl

/-- Who looks at a session makes it if it is not there. -/
theorem store_perform_view (service : Service) {call : Call} (id : String)
    (views : call = .versions id ∨ call = .snapshot id) {state : State}
    (works : state.outages = []) :
    (service.perform call state).2.store = (state.store.ensure id).2 := by
  rcases views with rfl | rfl
  · exact congrArg (·.2.store) (access_of_works works .summarize fun store =>
      (.ok (store.summaries id).1, (store.summaries id).2))
  · exact congrArg (·.2.store) (access_of_works works .snapshot fun store =>
      (.ok (store.snapshot id).1, (store.snapshot id).2))

/-- Between two calls: the store works, no lock is referred to, and every entry is that of a
session in the store. -/
structure Tidy (state : State) : Prop where
  works : state.outages = []
  unreferenced : state.locks.Unreferenced
  distinct : (Table.keys state.locks.entries).Nodup
  within : ∀ id, Table.has state.locks.entries id = true → Table.has state.store id = true

namespace Tidy

variable {state : State}

theorem locked (tidy : Tidy state) (work : Guarded)
    (others : ∀ other, other ≠ work.id → Table.has state.store other = true →
      Table.has (work.run state).2.store other = true)
    (own : work.releases (work.run state).1 = false →
      Table.has (work.run state).2.store work.id = true) : Tidy (work.run state).2 := by
  obtain ⟨locks, outages⟩ := guarded_run_kept work state
  refine ⟨outages.trans tidy.works, ?_, ?_, fun other entered => ?_⟩
  · rw [locks]
    exact Locks.unreferenced_passed tidy.unreferenced _ _
  · rw [locks]
    exact Locks.nodup_entries_passed tidy.unreferenced tidy.distinct _ _
  · rw [locks, Table.has, Locks.get?_entries_passed tidy.unreferenced] at entered
    by_cases same : work.id = other
    · rw [← same]
      cases releases : work.releases (work.run state).1 with
      | true => simp [same, releases] at entered
      | false => exact own releases
    · rw [if_neg same] at entered
      exact others other (Ne.symm same) (tidy.within other entered)

theorem free (tidy : Tidy state) (body : Process Result)
    (kept : ∀ other, Table.has state.store other = true →
      Table.has (body.run state).2.store other = true) : Tidy (body.run state).2 := by
  obtain ⟨locks, outages⟩ := run_kept body state
  refine ⟨outages.trans tidy.works, ?_, ?_, fun other entered => ?_⟩
  · rw [locks]
    exact tidy.unreferenced
  · rw [locks]
    exact tidy.distinct
  · rw [locks] at entered
    exact kept other (tidy.within other entered)

/-- After a call no lock is referred to, and every entry is that of a session. -/
theorem perform (tidy : Tidy state) (service : Service) (call : Call) :
    Tidy (service.perform call state).2 := by
  cases call with
  | generate id prompt =>
    cases objected : Prompt.objection? prompt with
    | some objection =>
      rw [perform_objected service id objected]
      refine tidy.free (turnAway objection) fun other held => ?_
      rw [← held]
      exact congrArg (Table.has · other) (store_record _ _)
    | none =>
      have guarded : service.perform (.generate id prompt) state =
          (Guarded.generate service id prompt).run state := by
        simp only [Service.perform, job, objected, Job.run]
      -- The session is opened first, so the entry may stay whatever comes of the generation.
      have names := has_perform_generate service id objected tidy.works
      rw [guarded] at names ⊢
      refine tidy.locked (.generate service id prompt) (fun other _ held => ?_) fun _ => ?_
      · rw [names, held, Bool.or_true]
      · rw [names]
        simp [Guarded.generate]
  | rollback id index =>
    obtain ⟨store, found⟩ := perform_rollback service id index tidy.works
    have names (other : String) : Table.has (service.perform (.rollback id index) state).2.store other =
        Table.has state.store other := by
      rw [store, has_rollback]
    exact tidy.locked (.rollback id index) (fun other _ held => (names other).trans held) fun stays =>
      (names id).trans (found stays)
  | reset id =>
    have store := store_perform_reset service id tidy.works
    refine tidy.locked (.reset id) (fun other different held => ?_) fun stays => ?_
    · change Table.has (service.perform (.reset id) state).2.store other = true
      have apart : id ≠ other := Ne.symm different
      rw [store, Store.reset, Table.has, Table.get?_erase, if_neg apart]
      exact held
    · simp [Guarded.reset] at stays
  | versions id =>
    refine tidy.free (summarizing id) fun other held => ?_
    change Table.has (service.perform (.versions id) state).2.store other = true
    rw [store_perform_view service id (.inl rfl) tidy.works, has_ensure, held, Bool.or_true]
  | snapshot id =>
    refine tidy.free (snapshotting id) fun other held => ?_
    change Table.has (service.perform (.snapshot id) state).2.store other = true
    rw [store_perform_view service id (.inr rfl) tidy.works, has_ensure, held, Bool.or_true]

end Tidy

/-- A state that calls lead to when each is over before the next begins, from an empty store that
works. Between two calls the oracle and its answers, the clock and what was recorded may
become anything. -/
inductive Consecutive (service : Service) : State → Prop
  | start {state : State} (empty : state.store = .empty) (unlocked : state.locks = .none)
      (works : state.outages = []) : Consecutive service state
  | world {state other : State} (consecutive : Consecutive service state)
      (store : other.store = state.store) (locks : other.locks = state.locks)
      (outages : other.outages = state.outages) : Consecutive service other
  | call {state : State} (consecutive : Consecutive service state) (call : Call) :
      Consecutive service (service.perform call state).2

theorem tidy_of_consecutive {service : Service} {state : State}
    (consecutive : service.Consecutive state) : Tidy state := by
  induction consecutive with
  | start empty unlocked works =>
    refine ⟨works, fun lock => ?_, ?_, fun id entered => ?_⟩
    · rw [unlocked]
      rfl
    · rw [unlocked]
      exact .nil
    · rw [unlocked] at entered
      cases entered
  | world _ store locks outages step =>
    refine ⟨outages.trans step.works, ?_, ?_, ?_⟩
    · rw [locks]
      exact step.unreferenced
    · rw [locks]
      exact step.distinct
    · rw [locks, store]
      exact step.within
  | call _ call step => exact step.perform _ call

theorem not_mem_entries_of_released {state : State} (tidy : Tidy state) (work : Guarded)
    (releases : work.releases (work.run state).1 = true) :
    work.id ∉ Table.keys (work.run state).2.locks.entries := by
  rw [(guarded_run_kept work state).1, releases, ← Table.has_iff_mem_keys, Table.has,
    Locks.get?_entries_passed tidy.unreferenced]
  simp

/-- After every call, the entered sessions are among those in the store, and there are no more of
them. A prompt that is turned away enters nothing, and a rollback that fails and any reset
leave no entry behind. -/
theorem entries_within_sessions {service : Service} {state : State}
    (consecutive : service.Consecutive state) :
    (∀ id ∈ Table.keys state.locks.entries, id ∈ Table.keys state.store) ∧
    state.locks.entries.length ≤ state.store.size ∧
    (∀ id prompt, Prompt.Objectionable prompt →
      (service.perform (.generate id prompt) state).2.locks = state.locks) ∧
    (∀ id index, isError (service.perform (.rollback id index) state).1 = true →
      id ∉ Table.keys (service.perform (.rollback id index) state).2.locks.entries) ∧
    ∀ id, id ∉ Table.keys (service.perform (.reset id) state).2.locks.entries := by
  have tidy := tidy_of_consecutive consecutive
  have within : ∀ id ∈ Table.keys state.locks.entries, id ∈ Table.keys state.store := by
    intro id entered
    rw [← Table.has_iff_mem_keys] at entered ⊢
    exact tidy.within id entered
  refine ⟨within, ?_, fun id prompt objectionable => ?_, fun id index fails => ?_, fun id => ?_⟩
  · have fewer := List.Nodup.length_le_of_subset tidy.distinct within
    simpa [Table.keys, Store.size] using fewer
  · cases objected : Prompt.objection? prompt with
    | none => exact absurd objectionable (Prompt.objection?_eq_none_iff.mp objected)
    | some objection =>
      rw [perform_objected service id objected]
      exact (run_kept (turnAway objection) state).1
  · exact not_mem_entries_of_released tidy (.rollback id index) fails
  · exact not_mem_entries_of_released tidy (.reset id) rfl

/-- A generation that gets no answer keeps its entry, since its session was opened. A rollback of
an unknown session does not, and a reset takes both away. -/
theorem entries_within_sessions_unanswered :
    let service : Service := ⟨.standard, true, 1000⟩
    let state := (service.perform (.rollback "c" 0) (service.perform (.generate "a" "b")
      (service.perform (.versions "d") {}).2).2).2
    service.Consecutive state ∧
      Table.keys state.locks.entries = ["a"] ∧ Table.keys state.store = ["d", "a"] ∧
      (∀ id ∈ Table.keys state.locks.entries, id ∈ Table.keys state.store) ∧
      state.locks.entries.length ≤ state.store.size ∧
      Prompt.Objectionable " " ∧ (service.perform (.generate "e" " ") state).2.locks = state.locks ∧
      isError (service.perform (.rollback "a" 0) state).1 = true ∧
      "a" ∉ Table.keys (service.perform (.rollback "a" 0) state).2.locks.entries ∧
      "a" ∉ Table.keys (service.perform (.reset "a") state).2.locks.entries := by
  intro service state
  have consecutive : service.Consecutive state :=
    .call (.call (.call (.start rfl rfl rfl) _) _) _
  obtain ⟨within, fewer, turned, failed, reset⟩ := entries_within_sessions consecutive
  have objectionable : Prompt.Objectionable " " := .inl (by decide)
  have fails : isError (service.perform (.rollback "a" 0) state).1 = true := by decide +kernel
  exact ⟨consecutive, by decide +kernel, by decide +kernel, within, fewer, objectionable,
    turned "e" " " objectionable, fails, failed "a" 0 fails, reset "a"⟩

end Service

end UiPlan
