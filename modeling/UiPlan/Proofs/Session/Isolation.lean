import UiPlan.Proofs.Session.History

/-! Clients that use the store at the same time. All operations are over in one step but a look
for a session: when it misses, the session is made in a second step, and before that step
others may commit to the name or reset it. Whatever the order of the steps, what an operation
returns and what the store holds under a name is what the operations on that name alone would
give, one after another in the order of their last steps.
-/
namespace UiPlan.Store

open Session (Draft Error Outcome Snapshot Summary Version)

def Operation.id : Operation → String
  | .getOrCreate id => id
  | .commit id _ _ => id
  | .rollback id _ => id
  | .reset id => id
  | .summarize id => id
  | .snapshot id => id

inductive Answer where
  | session (session : Session)
  | committed (outcome : Outcome)
  | rolledBack (result : Except Error Outcome)
  | wasReset
  | summaries (summaries : List Summary)
  | snapshot (snapshot : Snapshot)

def Operation.answer : Operation → Store → Answer
  | .getOrCreate id, store => .session (store.getOrCreate id).1
  | .commit id draft time, store => .committed (store.commit id draft time).1
  | .rollback id index, store => .rolledBack (store.rollback id index).1
  | .reset _, _ => .wasReset
  | .summarize id, store => .summaries (store.summaries id).1
  | .snapshot id, store => .snapshot (store.snapshot id).1

def answers (operations : List Operation) : List Answer :=
  (operations.foldl (fun run operation => (run.1 ++ [operation.answer run.2], operation.apply run.2))
    ([], empty)).1

private theorem after_concat (operations : List Operation) (operation : Operation) :
    after (operations ++ [operation]) = operation.apply (after operations) := by
  simp [after]

private theorem answers_concat (operations : List Operation) (operation : Operation) :
    answers (operations ++ [operation]) =
      answers operations ++ [operation.answer (after operations)] := by
  -- The store that is carried along with the answers is the one after the operations.
  have carried : ∀ (start : List Answer × Store),
      (operations.foldl (fun run operation => (run.1 ++ [operation.answer run.2], operation.apply run.2))
        start).2 = operations.foldl (fun store operation => operation.apply store) start.2 := by
    induction operations with
    | nil => exact fun _ => rfl
    | cons first rest step => exact fun start => step _
  simp only [answers, List.foldl_append, List.foldl_cons, List.foldl_nil]
  rw [carried, after]

theorem get?_ensure (store : Store) (id other : String) :
    Table.get? (store.ensure id).2 other =
      if id = other then some (store.sessionOf id) else Table.get? store other := by
  unfold ensure
  split
  · rename_i session found
    split
    · rename_i same
      subst same
      simp [sessionOf, found]
    · rfl
  · rename_i absent
    rw [Table.get?_insert]
    simp [sessionOf, absent]

theorem get?_commit (store : Store) (id other : String) (draft : Draft) (time : Timestamp) :
    Table.get? (store.commit id draft time).2 other =
      if id = other then some ((store.sessionOf id).commit draft time).2
      else Table.get? store other := by
  have made := (store.ensure_eq id).1
  unfold commit
  rw [← made, Table.get?_insert]
  split
  · rfl
  · rename_i different
    rw [get?_ensure, if_neg different]

/-- What an operation returns and leaves under the name it is about, if it finds this there. -/
def Operation.act : Operation → Option Session → Answer × Option Session
  | .getOrCreate id, held =>
    let session := held.getD (.new id)
    (.session session, some session)
  | .commit id draft time, held =>
    let (outcome, session) := (held.getD (.new id)).commit draft time
    (.committed outcome, some session)
  | .rollback _ index, none => (.rolledBack (.error (.versionOutOfRange index 0)), none)
  | .rollback _ index, some session =>
    let (result, session) := session.rollback index
    (.rolledBack result, some session)
  | .reset _, _ => (.wasReset, none)
  | .summarize id, held =>
    let session := held.getD (.new id)
    (.summaries session.summaries, some session)
  | .snapshot id, held =>
    let session := held.getD (.new id)
    (.snapshot session.snapshot, some session)

theorem answer_eq (operation : Operation) (store : Store) :
    operation.answer store = (operation.act (Table.get? store operation.id)).1 := by
  cases operation with
  | getOrCreate id =>
    rw [Operation.answer, getOrCreate_eq, (store.ensure_eq id).1]
    rfl
  | commit id draft time =>
    rw [Operation.answer, (store.commit_eq id draft time).1]
    rfl
  | rollback id index =>
    simp only [Operation.answer, Operation.id, rollback]
    cases Table.get? store id <;> rfl
  | reset id => rfl
  | summarize id =>
    rw [Operation.answer, summaries_eq]
    rfl
  | snapshot id =>
    rw [Operation.answer, snapshot_eq]
    rfl

/-- An operation is felt under its own name only. -/
theorem get?_apply (operation : Operation) (store : Store) (other : String) :
    Table.get? (operation.apply store) other =
      if operation.id = other then (operation.act (Table.get? store operation.id)).2
      else Table.get? store other := by
  cases operation with
  | getOrCreate id =>
    rw [Operation.apply, getOrCreate_eq, get?_ensure]
    rfl
  | commit id draft time =>
    rw [Operation.apply, get?_commit]
    rfl
  | rollback id index =>
    cases found : Table.get? store id with
    | none =>
      have unchanged : (Operation.rollback id index).apply store = store := by
        simp [Operation.apply, rollback, found]
      rw [unchanged, Operation.id]
      split
      · rename_i same
        rw [← same, found]
        rfl
      · rfl
    | some session =>
      have moved : (Operation.rollback id index).apply store =
          Table.insert store id (session.rollback index).2 := by
        simp [Operation.apply, rollback, found]
      rw [moved, Table.get?_insert, Operation.id, found]
      rfl
  | reset id =>
    rw [Operation.apply, reset, Table.get?_erase]
    rfl
  | summarize id =>
    rw [Operation.apply, summaries, get?_ensure]
    rfl
  | snapshot id =>
    rw [Operation.apply, snapshot, get?_ensure]
    rfl

inductive Move where
  | start (client : Nat) (operation : Operation)
  | finish (client : Nat)

structure Finished where
  client : Nat
  operation : Operation
  answer : Answer

structure World where
  store : Store
  missed : Table Nat String
  finished : List Finished

namespace World

def initial : World := ⟨empty, [], []⟩

def step (world : World) : Move → Option World
  | .start client operation =>
    if (Table.get? world.missed client).isSome then none
    else match operation with
      | .getOrCreate id =>
        match Table.get? world.store id with
        | some session => some { world with
            finished := world.finished ++ [⟨client, .getOrCreate id, .session session⟩] }
        | none => some { world with missed := Table.insert world.missed client id }
      | other => some { world with
          store := other.apply world.store
          finished := world.finished ++ [⟨client, other, other.answer world.store⟩] }
  | .finish client =>
    match Table.get? world.missed client with
    | none => none
    | some id =>
      let (session, store) := world.store.ensure id
      some ⟨store, Table.erase world.missed client,
        world.finished ++ [⟨client, .getOrCreate id, .session session⟩]⟩

inductive Reachable : World → Prop
  | initial : Reachable initial
  | step {world next : World} {move : Move} (reachable : Reachable world)
      (moved : world.step move = some next) : Reachable next

def subject? (world : World) : Move → Option String
  | .start _ operation => some operation.id
  | .finish client => Table.get? world.missed client

def onlyLooks : Move → Bool
  | .start _ (.getOrCreate _) | .start _ (.summarize _) | .start _ (.snapshot _) => true
  | .finish _ => true
  | _ => false

/-- A step is the miss of a look, or it is the last of an operation, which then has done what
it does at once. -/
theorem step_cases {world next : World} {move : Move} (moved : world.step move = some next) :
    (next.store = world.store ∧ next.finished = world.finished) ∨
      ∃ client operation, next.store = operation.apply world.store ∧
        next.finished = world.finished ++ [⟨client, operation, operation.answer world.store⟩] ∧
        world.subject? move = some operation.id ∧
        (onlyLooks move = true → onlyLooks (.start client operation) = true) := by
  cases move with
  | finish client =>
    simp only [step] at moved
    split at moved
    · cases moved
    · rename_i id missed
      obtain rfl := Option.some.inj moved
      refine .inr ⟨client, .getOrCreate id, ?_, ?_, missed, fun _ => rfl⟩
      · rw [Operation.apply, getOrCreate_eq]
      · rw [Operation.answer, getOrCreate_eq]
  | start client operation =>
    simp only [step] at moved
    split at moved
    · cases moved
    · split at moved
      · rename_i id
        split at moved
        · rename_i session found
          obtain rfl := Option.some.inj moved
          refine .inr ⟨client, .getOrCreate id, ?_, ?_, rfl, fun looks => looks⟩
          · simp [Operation.apply, getOrCreate, found]
          · simp [Operation.answer, getOrCreate, found]
        · obtain rfl := Option.some.inj moved
          exact .inl ⟨rfl, rfl⟩
      · obtain rfl := Option.some.inj moved
        exact .inr ⟨client, operation, rfl, rfl, rfl, fun looks => looks⟩

def own (world : World) (id : String) : List Finished :=
  world.finished.filter fun finished => finished.operation.id = id

/-- A name holds what the operations on it give, and they returned what they then return. -/
def InStep (world : World) (id : String) : Prop :=
  Table.get? world.store id = Table.get? (after ((world.own id).map Finished.operation)) id ∧
    (world.own id).map Finished.answer = answers ((world.own id).map Finished.operation)

/-- A step keeps every name in step with its own operations. -/
theorem inStep_step {world next : World} {move : Move} (moved : world.step move = some next)
    {id : String} (before : world.InStep id) : next.InStep id := by
  obtain ⟨held, returned⟩ := before
  rcases step_cases moved with ⟨store, finished⟩ | ⟨client, operation, store, finished, _, _⟩
  · have same : next.own id = world.own id := by rw [own, own, finished]
    unfold InStep
    rw [store, same]
    exact ⟨held, returned⟩
  · by_cases about : operation.id = id
    · have longer : next.own id =
          world.own id ++ [⟨client, operation, operation.answer world.store⟩] := by
        rw [own, own, finished, List.filter_append, List.filter_cons_of_pos (by simpa using about)]
        rfl
      unfold InStep
      rw [longer, List.map_append, List.map_append, List.map_singleton, List.map_singleton,
        after_concat, answers_concat, store, get?_apply, get?_apply, answer_eq, answer_eq, about, held,
        returned]
      exact ⟨rfl, rfl⟩
    · -- An operation on another name is not among those of this one, nor felt in the store.
      have same : next.own id = world.own id := by
        rw [own, own, finished, List.filter_append, List.filter_cons_of_neg (by simpa using about)]
        exact List.append_nil _
      unfold InStep
      rw [same, store, get?_apply, if_neg about]
      exact ⟨held, returned⟩

theorem inStep_of_reachable {world : World} (reachable : Reachable world) (id : String) :
    world.InStep id := by
  induction reachable with
  | initial => exact ⟨rfl, rfl⟩
  | step _ moved before => exact inStep_step moved before

private theorem get?_step_of_ne {world next : World} {move : Move} (moved : world.step move = some next)
    {other : String} (different : world.subject? move ≠ some other) :
    Table.get? next.store other = Table.get? world.store other := by
  rcases step_cases moved with ⟨store, _⟩ | ⟨client, operation, store, _, subject, _⟩
  · rw [store]
  · rw [store, get?_apply, if_neg fun same => different (by rw [subject, same])]

/-- An operation that only looks leaves a session that exists as it is. -/
theorem get?_apply_of_onlyLooks {client : Nat} {operation : Operation}
    (looks : onlyLooks (.start client operation) = true) {store : Store} {id : String}
    {session : Session} (found : Table.get? store id = some session) :
    Table.get? (operation.apply store) id = some session := by
  rw [get?_apply]
  split
  · rename_i about
    rw [about, found]
    cases operation with
    | getOrCreate | summarize | snapshot => rfl
    | commit | rollback | reset => cases looks
  · exact found

private theorem get?_step_of_onlyLooks {world next : World} {move : Move}
    (moved : world.step move = some next) (looks : onlyLooks move = true) {id : String}
    {session : Session} (found : Table.get? world.store id = some session) :
    Table.get? next.store id = some session := by
  rcases step_cases moved with ⟨store, _⟩ | ⟨client, operation, store, _, _, kept⟩
  · rw [store]
    exact found
  · rw [store]
    exact get?_apply_of_onlyLooks (kept looks) found

structure Isolated (world : World) (id : String) : Prop where
  inStep : world.InStep id
  versions : (world.store.sessionOf id).versions =
    (Ledger.of id ((world.own id).map Finished.operation)).versions
  apart : ∀ move next, world.step move = some next → world.subject? move ≠ some id →
    Table.get? next.store id = Table.get? world.store id
  looks : ∀ move next session, world.step move = some next → onlyLooks move = true →
    Table.get? world.store id = some session → Table.get? next.store id = some session

/-- Whatever steps clients have taken, each name holds the session that its own operations
give in the order of their last steps, each of them returned what it returns when they follow
one another, no step is felt under another name, and looking changes no session that exists. -/
theorem isolated_of_reachable {world : World} (reachable : Reachable world) (id : String) :
    world.Isolated id where
  inStep := inStep_of_reachable reachable id
  versions := by
    have describes := describes_after ((world.own id).map Finished.operation) id
    rw [← describes.versions, sessionOf, (inStep_of_reachable reachable id).1, sessionOf]
  apart := fun _ _ moved different => get?_step_of_ne moved different
  looks := fun _ _ _ moved looks found => get?_step_of_onlyLooks moved looks found

/-- A client looks in vain, another commits and a third resets another name before the first
goes on: it gets the session with the commit. -/
theorem isolated_of_late_finish : ∃ world, Reachable world ∧
    world.finished.map Finished.client = [1, 2, 0] ∧
      (world.store.sessionOf "a").versions.length = 1 ∧ world.Isolated "a" := by
  let draft : Draft := ⟨.empty, ⟨"", []⟩, "", "a card"⟩
  have first : Reachable ⟨empty, [(0, "a")], []⟩ :=
    .step .initial (show initial.step (.start 0 (.getOrCreate "a")) = _ from rfl)
  have second := Reachable.step first
    (show step _ (.start 1 (.commit "a" draft (.ofMilliseconds 0))) = _ from rfl)
  have third := Reachable.step second (show step _ (.start 2 (.reset "b")) = _ from rfl)
  have fourth := Reachable.step third (show step _ (.finish 0) = _ from rfl)
  exact ⟨_, fourth, rfl, rfl, isolated_of_reachable fourth "a"⟩

end World

end UiPlan.Store
