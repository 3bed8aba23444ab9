import UiPlan.Proofs.Service.Deeds
import UiPlan.Proofs.Service.Exchange
import UiPlan.Proofs.Service.Exclusion

/-! Any number of calls, taking their steps in any order. A call that has the lock of its session
finds the session as it left it until it changes it, since the others that are at work are at
work on other sessions, and calls without a lock change none. So a version that a generation
commits follows the session that its planner was told of.
-/
namespace UiPlan.Service

structure Party where
  call : Call
  task : Task
  deeds : List Deed := []

def Task.deed? : Task → State → Option Deed
  | .free (.act action _), state => some ⟨action, (action.perform state).1⟩
  | .inside _ (.act action _) _, state => some ⟨action, (action.perform state).1⟩
  | _, _ => none

def Party.step (party : Party) (state : State) : Option (Party × State) :=
  (party.task.step state).map fun (task, next) =>
    ({ party with task := task, deeds := party.deeds ++ (party.task.deed? state).toList }, next)

/-- Calls that are under way, and the state they have led to. At any time a call may come or one
of them may take a step, and anything but the sessions and the locks may change by itself. -/
inductive Underway (service : Service) : List Party → State → Prop
  | start {state : State} (unlocked : state.locks = .none) : Underway service [] state
  | call {parties : List Party} {state : State} (underway : Underway service parties state)
      (call : Call) : Underway service (⟨call, (service.job call).task, []⟩ :: parties) state
  | step {before after : List Party} {party next : Party} {state nextState : State}
      (underway : Underway service (before ++ party :: after) state)
      (stepped : party.step state = some (next, nextState)) :
      Underway service (before ++ next :: after) nextState
  | world {parties : List Party} {state other : State} (underway : Underway service parties state)
      (store : other.store = state.store) (locks : other.locks = state.locks) :
      Underway service parties other

def Guarded.Keeps (work : Guarded) (call : Call) : Prop :=
  work.id = call.id ∧ work.body.Follows (Lawful call) (fun _ _ => True) []

/-- What holds of a call while it is under way. Inside its lock the sessions it has read are
still what they were, until it changes one. -/
def Party.Fits (store : Store) (party : Party) : Prop :=
  match party.task with
  | .free body => body.Yields (fun action => action.changes = false) fun _ => True
  | .arriving work | .referring _ work | .queued _ _ work =>
    party.deeds = [] ∧ work.Keeps party.call
  | .inside _ body work => work.id = party.call.id ∧
    body.Follows (Lawful party.call) (fun _ _ => True) party.deeds ∧
      (Quiet party.deeds →
        ∀ session ∈ reads party.deeds, Table.get? store work.id = some session)
  | .leaving _ _ _ | .unlocking _ _ _ | .dropping _ _ _ => True

theorem fits_call (service : Service) (store : Store) (call : Call) :
    Party.Fits store ⟨call, (service.job call).task, []⟩ := by
  cases call with
  | generate id prompt =>
    cases objected : Prompt.objection? prompt with
    | some objection =>
      have free : service.job (.generate id prompt) = .free (turnAway objection) := by
        simp only [job, objected]
      rw [free]
      exact ⟨rfl, fun _ => trivial⟩
    | none =>
      have guarded : service.job (.generate id prompt) = .guarded (.generate service id prompt) := by
        simp only [job, objected]
      have follows : (Guarded.generate service id prompt).body.Follows (Lawful (.generate id prompt))
          (fun _ _ => True) [] :=
        follows_bind (follows_generation service id prompt) fun _ _ _ => trivial
      rw [guarded]
      exact ⟨rfl, rfl, follows⟩
  | rollback id index =>
    have apart : ∀ other prompt, Call.rollback id index ≠ .generate other prompt := by simp
    exact ⟨rfl, rfl, lawful_of_ne rfl apart, fun _ => ⟨lawful_of_ne trivial apart, fun _ => trivial⟩⟩
  | reset id =>
    have apart : ∀ other prompt, Call.reset id ≠ .generate other prompt := by simp
    exact ⟨rfl, rfl, lawful_of_ne rfl apart, fun _ => trivial⟩
  | versions id => exact ⟨rfl, fun _ => trivial⟩
  | snapshot id => exact ⟨rfl, fun _ => trivial⟩

/-- A call keeps what it relies on by its own steps. -/
theorem Party.Fits.step {party next : Party} {state nextState : State}
    (fits : party.Fits state.store) (stepped : party.step state = some (next, nextState)) :
    next.Fits nextState.store := by
  obtain ⟨⟨task, after⟩, taken, same⟩ := Option.map_eq_some_iff.mp stepped
  obtain ⟨rfl, rfl⟩ := Prod.mk.inj same
  obtain ⟨call, current, deeds⟩ := party
  have moved := Task.moved_of_step taken
  dsimp only at moved
  cases moved with
  | act => exact fits.2 _
  | arrive => exact ⟨List.append_eq_nil_iff.mpr ⟨fits.1, rfl⟩, fits.2⟩
  | join => exact ⟨List.append_eq_nil_iff.mpr ⟨fits.1, rfl⟩, fits.2⟩
  | enter turn =>
    obtain ⟨idle, own, follows⟩ := fits
    obtain rfl : deeds = [] := idle
    exact ⟨own, follows, by nofun⟩
  | @actInside lock action rest work =>
    obtain ⟨own, ⟨lawful, follows⟩, current⟩ := fits
    let deed : Deed := ⟨action, (action.perform state).1⟩
    refine ⟨own, follows _, fun (quiet : Quiet (deeds ++ [deed])) session
      (inside : session ∈ reads (deeds ++ [deed])) => ?_⟩
    obtain ⟨before, last⟩ := quiet_append.mp quiet
    rw [reads, List.filterMap_append, List.mem_append] at inside
    rcases inside with earlier | now
    · have unchanging : action.changes = false := last deed List.mem_cons_self
      exact get?_perform_of_quiet unchanging (current before session earlier)
    · obtain ⟨_, only, read⟩ := List.mem_filterMap.mp now
      rw [List.mem_singleton.mp only] at read
      exact get?_perform_of_read (own ▸ lawful.1) read
  | finish =>
    unfold Task.finished
    split <;> trivial
  | release => trivial
  | unlock => trivial
  | drop => exact ⟨rfl, fun _ => trivial⟩

/-- A step of another call changes no session that is there, unless it has the lock of it. -/
theorem kept_of_step {party next : Party} {state nextState : State}
    (fits : party.Fits state.store) (stepped : party.step state = some (next, nextState))
    {id : String} (away : party.task.occupies id = false) {session : Session}
    (found : Table.get? state.store id = some session) :
    Table.get? nextState.store id = some session := by
  obtain ⟨⟨task, after⟩, taken, same⟩ := Option.map_eq_some_iff.mp stepped
  obtain ⟨rfl, rfl⟩ := Prod.mk.inj same
  obtain ⟨call, current, deeds⟩ := party
  have moved := Task.moved_of_step taken
  dsimp only at moved
  cases moved with
  | act => exact get?_perform_of_quiet fits.1 found
  | @actInside lock action rest work =>
    have different : id ≠ work.id := by
      rintro rfl
      simp [Task.occupies] at away
    have within : action.Within work.id := fits.1 ▸ fits.2.1.1.1
    rw [get?_perform_of_within within different, found]
  | _ => exact found

/-- What a call relies on, it can rely on while others keep the session it is at work on. -/
theorem Party.Fits.keep {party : Party} {store after : Store} (fits : party.Fits store)
    (kept : ∀ id, party.task.occupies id = true → ∀ session,
      Table.get? store id = some session → Table.get? after id = some session) :
    party.Fits after := by
  obtain ⟨call, task, deeds⟩ := party
  cases task with
  | inside lock body work =>
    obtain ⟨own, follows, current⟩ := fits
    refine ⟨own, follows, fun quiet session inside => ?_⟩
    exact kept work.id (by simp [Task.occupies]) session (current quiet session inside)
  | _ => exact fits

structure Settled (parties : List Party) (state : State) : Prop where
  orderly : Orderly (parties.map Party.task) state.locks
  fits : ∀ party ∈ parties, party.Fits state.store

theorem Settled.perm {parties others : List Party} {state : State} (settled : Settled parties state)
    (same : parties.Perm others) : Settled others state where
  orderly := settled.orderly.perm (same.map Party.task)
  fits := fun party inside => settled.fits party (same.mem_iff.mpr inside)

theorem Settled.step {others : List Party} {party next : Party} {state nextState : State}
    (settled : Settled (party :: others) state)
    (stepped : party.step state = some (next, nextState)) : Settled (next :: others) nextState := by
  have own := settled.fits party List.mem_cons_self
  have orderly : Orderly (party.task :: others.map Party.task) state.locks := settled.orderly
  obtain ⟨⟨task, after⟩, taken, same⟩ := Option.map_eq_some_iff.mp stepped
  refine ⟨?_, fun other inside => ?_⟩
  · obtain ⟨rfl, rfl⟩ := Prod.mk.inj same
    exact orderly.moved (Task.moved_of_step taken)
  · rcases List.mem_cons.mp inside with rfl | later
    · exact own.step stepped
    · refine (settled.fits other (List.mem_cons_of_mem _ later)).keep
        fun id occupied session found => ?_
      have away := orderly.away_of_occupies (List.mem_map_of_mem later) occupied
      exact kept_of_step own stepped away found

/-- Whatever steps calls have taken, their locks are in order and each can rely on what it has read. -/
theorem settled_of_underway {service : Service} {parties : List Party} {state : State}
    (underway : Underway service parties state) : Settled parties state := by
  induction underway with
  | start unlocked =>
    exact ⟨unlocked ▸ .start, fun party inside => by cases inside⟩
  | @call parties state _ call settled =>
    refine ⟨settled.orderly.come ?_, fun party inside => ?_⟩
    · cases service.job call <;> rfl
    · rcases List.mem_cons.mp inside with rfl | earlier
      · exact fits_call service state.store call
      · exact settled.fits party earlier
  | step _ stepped settled =>
    exact ((settled.perm List.perm_middle).step stepped).perm List.perm_middle.symm
  | world _ store locks settled =>
    exact ⟨locks ▸ settled.orderly, store ▸ settled.fits⟩

def Task.after : Nat → Task → State → Option (Task × State)
  | 0, task, state => some (task, state)
  | steps + 1, task, state => (task.step state).bind fun moved => moved.1.after steps moved.2

theorem underway_after {service : Service} (before : List Party) {others : List Party} {call : Call}
    (steps : Nat) :
    ∀ {task next : Task} {deeds : List Deed} {state nextState : State},
      Underway service (before ++ ⟨call, task, deeds⟩ :: others) state →
        task.after steps state = some (next, nextState) →
          ∃ done, Underway service (before ++ ⟨call, next, done⟩ :: others) nextState := by
  induction steps with
  | zero =>
    intro task next deeds state nextState underway taken
    obtain ⟨rfl, rfl⟩ := Prod.mk.inj (Option.some.inj taken)
    exact ⟨deeds, underway⟩
  | succ steps more =>
    intro task next deeds state nextState underway taken
    obtain ⟨⟨moved, movedState⟩, stepped, rest⟩ := Option.bind_eq_some_iff.mp taken
    have one : Party.step ⟨call, task, deeds⟩ state =
        some (⟨call, moved, deeds ++ (task.deed? state).toList⟩, movedState) := by
      rw [Party.step, stepped]
      rfl
    exact more (underway.step one) rest

/-- The task comes to be another by steps of its own. -/
def Task.Comes (task : Task) (state : State) (next : Task) (nextState : State) : Prop :=
  ∃ steps, task.after steps state = some (next, nextState)

namespace Task.Comes

variable {task middle next : Task} {state middleState nextState : State}

theorem refl : task.Comes state task state := ⟨0, rfl⟩

theorem step (stepped : task.step state = some (middle, middleState))
    (comes : middle.Comes middleState next nextState) : task.Comes state next nextState := by
  obtain ⟨steps, taken⟩ := comes
  refine ⟨steps + 1, ?_⟩
  rw [Task.after, stepped]
  exact taken

theorem trans (first : task.Comes state middle middleState)
    (second : middle.Comes middleState next nextState) : task.Comes state next nextState := by
  obtain ⟨steps, taken⟩ := first
  induction steps generalizing task state with
  | zero =>
    obtain ⟨rfl, rfl⟩ := Prod.mk.inj (Option.some.inj taken)
    exact second
  | succ steps more =>
    obtain ⟨⟨moved, movedState⟩, stepped, rest⟩ := Option.bind_eq_some_iff.mp taken
    exact .step stepped (more rest)

end Task.Comes

/-- A process that is moved on takes its actions one by one, be it with a lock or without. -/
theorem comes_advance {α : Type} (wrap : Process α → Task)
    (acts : ∀ action rest state, action.isReady state = true →
      (wrap (.act action rest)).step state =
        some (wrap (rest (action.perform state).1), (action.perform state).2))
    (body : Process α) (state : State) :
    (wrap body).Comes state (wrap (body.advance state).1) (body.advance state).2 := by
  induction body generalizing state with
  | done result => exact .refl
  | act action rest more =>
    rw [Process.advance]
    split
    · rename_i ready
      exact .step (acts action rest state ready) (more _ _)
    · exact .refl

/-- What follows the work is done at once by the schedule, and in steps by the task. -/
theorem comes_finished (lock : Nat) (result : Result) (work : Guarded) (state : State) :
    (Task.finished lock result work).Comes state (.free (.done result))
      (work.leave lock result state) := by
  have unlocking (state : State) : (Task.unlocking lock result work).Comes state (.free (.done result))
      ((state.withLocks ((state.locks.unlock lock).drop lock)).record (work.closing result)) :=
    .step rfl (.step rfl (.step rfl .refl))
  unfold Task.finished Guarded.leave
  cases work.releases result with
  | true => exact .step rfl (unlocking (state.withLocks (state.locks.release work.id lock)))
  | false => exact unlocking state

theorem comes_advanceInside (lock : Nat) (body : Process Result) (work : Guarded) (state : State) :
    (Task.inside lock body work).Comes state (Task.advanceInside lock body work state).1
      (Task.advanceInside lock body work state).2 := by
  have acted : (Task.inside lock body work).Comes state
      (.inside lock (body.advance state).1 work) (body.advance state).2 :=
    comes_advance (Task.inside lock · work) (fun action rest state ready => by
      simp [Task.step, Process.step, ready]) body state
  rw [Task.advanceInside]
  cases advanced : body.advance state with
  | mk moved after =>
  rw [advanced] at acted
  cases moved with
  | act action rest => exact acted
  | done result =>
    exact acted.trans (.step rfl (comes_finished lock result work after))

theorem comes_advanceQueued (lock ticket : Nat) (work : Guarded) (state : State) :
    (Task.queued lock ticket work).Comes state (Task.advanceQueued lock ticket work state).1
      (Task.advanceQueued lock ticket work state).2 := by
  rw [Task.advanceQueued]
  split
  · rename_i turn
    exact .step (by rw [Task.step, if_pos turn]) (comes_advanceInside lock work.body work state)
  · exact .refl

private theorem comes_taskAdvance (task : Task) (state : State) :
    task.Comes state (task.advance state).1 (task.advance state).2 := by
  cases task with
  | free body =>
    exact comes_advance Task.free (fun action rest state ready => by
      simp [Task.step, Process.step, ready]) body state
  | arriving work => exact .step rfl (.step rfl (comes_advanceQueued _ _ work _))
  | queued lock ticket work => exact comes_advanceQueued lock ticket work state
  | inside lock body work => exact comes_advanceInside lock body work state
  | _ => exact .refl

private theorem underway_advanceAll {service : Service} (parties : List Party) :
    ∀ {before : List Party} {state : State}, Underway service (before ++ parties) state →
      ∃ moved, moved.map Party.task = (advanceAll (parties.map Party.task) state).1 ∧
        Underway service (before ++ moved) (advanceAll (parties.map Party.task) state).2 := by
  induction parties with
  | nil => exact fun underway => ⟨[], rfl, underway⟩
  | cons party others more =>
    intro before state underway
    obtain ⟨steps, taken⟩ := comes_taskAdvance party.task state
    obtain ⟨done, advanced⟩ := underway_after before steps underway taken
    rw [← List.singleton_append, ← List.append_assoc] at advanced
    obtain ⟨moved, tasks, all⟩ := more advanced
    refine ⟨⟨party.call, (party.task.advance state).1, done⟩ :: moved, ?_, ?_⟩
    · rw [List.map_cons, tasks]
      rfl
    · rw [List.append_assoc] at all
      exact all

private theorem underway_runRounds {service : Service} (rounds : Nat) :
    ∀ {parties : List Party} {state : State}, Underway service parties state →
      ∃ moved, moved.map Party.task = (runRounds rounds (parties.map Party.task) state).1 ∧
        Underway service moved (runRounds rounds (parties.map Party.task) state).2 := by
  induction rounds with
  | zero => exact fun {parties _} underway => ⟨parties, rfl, underway⟩
  | succ rounds more =>
    intro parties state underway
    have alone : Underway service ([] ++ parties) state := underway
    obtain ⟨moved, tasks, advanced⟩ := underway_advanceAll parties alone
    rw [runRounds]
    dsimp only
    split
    · exact ⟨moved, tasks, advanced⟩
    · rename_i time _
      have waited : Underway service moved (State.wait _ time) := .world advanced rfl rfl
      rw [← tasks]
      exact more waited

/-- The schedule that is run takes the steps in one of the orders. -/
theorem underway_performAll (service : Service) (calls : List Call) {state : State}
    (unlocked : state.locks = .none) :
    ∃ parties, Underway service parties (performAll service calls state).2 ∧
      (parties.map Party.task).filterMap Task.result? = (performAll service calls state).1 := by
  have begun : Underway service (calls.map fun call => ⟨call, (service.job call).task, []⟩) state := by
    induction calls with
    | nil => exact .start unlocked
    | cons call rest underway => exact .call underway call
  obtain ⟨parties, tasks, underway⟩ := underway_runRounds (waitsPerCall * calls.length + 1) begun
  rw [List.map_map] at tasks underway
  exact ⟨parties, underway, by rw [tasks]; rfl⟩

/-- However the steps of the calls follow one another, at most one call is at work on a session at
a time; a call changes sessions only while it is; and when a generation is about to commit, the
session is the one it read and told the planner of, so the new version comes right after those
it read. -/
theorem exclusion_of_underway {service : Service} {parties : List Party} {state : State}
    (underway : Underway service parties state) :
    (∀ id, parties.countP (fun party => party.task.occupies id) ≤ 1) ∧
    (∀ party ∈ parties, ∀ action rest, party.task = .free (.act action rest) →
      action.changes = false) ∧
    ∀ party ∈ parties, ∀ id prompt, party.call = .generate id prompt →
      ∀ lock target draft rest work, party.task = .inside lock (.act (.commit target draft) rest) work →
        target = id ∧ ∃ session, Table.get? state.store id = some session ∧
          reads party.deeds = [session] ∧
          (told party.deeds).head? =
            some (Prompt.plannerContext prompt session.history session.livePlan) ∧
          ∀ outcome, (Action.perform (.commit target draft) state).1 = .ok outcome →
            outcome.version.index = session.versions.length := by
  have settled := settled_of_underway underway
  refine ⟨fun id => ?_, fun party inside action rest free => ?_, ?_⟩
  · have one := settled.orderly.occupied_le id
    rw [List.countP_map] at one
    exact one
  · have fits := settled.fits party inside
    rw [Party.Fits, free] at fits
    exact fits.1
  · intro party inside id prompt generates lock target draft rest work about
    have fits := settled.fits party inside
    rw [Party.Fits, about] at fits
    obtain ⟨home, ⟨⟨within, lawful⟩, _⟩, current⟩ := fits
    -- The call has the lock and has changed nothing yet, so what it read is what is there.
    have own : party.call.id = id := by rw [generates]; rfl
    obtain rfl : target = id := within.trans own
    obtain ⟨session, prepared⟩ := lawful target prompt draft generates rfl
    have found : Table.get? state.store target = some session := by
      rw [← home.trans own]
      exact current prepared.quiet session (by simp [prepared.read])
    exact ⟨rfl, session, found, prepared.read, prepared.told, fun _ => index_of_commit found⟩

private theorem locks_advance {α : Type} (process : Process α) (state : State) :
    (process.advance state).2.locks = state.locks := by
  induction process generalizing state with
  | done value => rfl
  | act action next step =>
    rw [Process.advance]
    split
    · exact (step _ _).trans (perform_kept action state).1
    · rfl

theorem advance_bind {α β : Type} {process : Process α} {value : α} {state middle : State}
    (advanced : process.advance state = (.done value, middle)) (rest : α → Process β) :
    (process >>= rest).advance state = (rest value).advance middle := by
  induction process generalizing state with
  | done own =>
    obtain ⟨same, rfl⟩ := Prod.mk.inj advanced
    obtain rfl := Process.done.inj same
    rfl
  | act action next step =>
    rw [Process.advance] at advanced
    split at advanced
    · rename_i ready
      refine (if_pos ready).trans ?_
      exact step _ advanced
    · cases advanced

private theorem advance_openSession {id : String} {state : State}
    (opens : Table.get? state.outages .getOrCreate = none) :
    (openSession id).advance state = (.done (.ok (state.store.sessionOf id)),
      { state with store := (state.store.ensure id).2 }) := by
  obtain ⟨made, _⟩ := state.store.ensure_eq id
  have looked : (Process.perform (.look id)).advance state =
      (.done (.ok (Table.get? state.store id)), state) := by
    simp [Process.perform, Process.advance, Action.isReady, Action.perform, State.access, opens]
  rw [openSession, advance_bind looked]
  cases found : Table.get? state.store id with
  | some session => simp [pure, Process.advance, Store.sessionOf, Store.ensure, found]
  | none =>
    rw [← made]
    rfl

/-- An oracle that takes no time is not waited for. -/
theorem advance_ask (service : Service) (stage : Oracle.Stage) (context : String) {state : State}
    (swift : state.delay = 0) :
    ∃ next, Asked state [(stage, context)] next ∧ (service.ask stage context).advance state =
      (.done ((state.hears service.timeout 0).mapError fun error => .oracle error.category), next) := by
  obtain ⟨answer, asked⟩ := asked_consult state stage context service.timeout
  rcases consulted : state.consult stage context service.timeout with ⟨reply, middle⟩
  rw [consulted] at answer asked
  have ready : reply.time ≤ middle.clock := by
    simp only [State.consult, swift, Nat.zero_le, if_true] at consulted
    obtain ⟨rfl, rfl⟩ := Prod.mk.inj consulted
    exact Nat.le_refl _
  have told : (Process.perform (.consult stage context service.timeout)).advance state =
      (.done reply, middle) := by
    simp [Process.perform, Process.advance, Action.isReady, Action.perform, consulted]
  have waited : (Process.perform (.await reply.time)).advance middle =
      (.done (), middle.wait reply.time) := by
    simp [Process.perform, Process.advance, Action.isReady, Action.perform, ready]
  rw [ask, advance_bind told, advance_bind waited, ← answer]
  exact ⟨_, (asked.wait reply.time).record _, rfl⟩

private theorem advance_propose {service : Service} (context : String) {state : State} {plan : Plan}
    (swift : state.delay = 0) (offered : service.Offers (state.hears service.timeout 0) plan) :
    ∃ next, Asked state [(.planner, context)] next ∧
      (service.propose context).advance state = (.done (.ok plan), next) := by
  obtain ⟨next, asked, advanced⟩ := advance_ask service .planner context swift
  obtain ⟨text, answered, parsed, valid⟩ := offered
  have read : service.interpret text = .ok plan := by simp [interpret, parsed, valid]
  rw [answered, mapError_ok] at advanced
  refine ⟨next, asked, ?_⟩
  rw [propose, advance_bind advanced]
  simp only [read]
  rfl

theorem comes_bind {α β : Type} {process : Process α} {value : α} {state middle : State}
    (advanced : process.advance state = (.done value, middle)) (lock : Nat) (work : Guarded)
    (rest : α → Process β) (close : β → Process Result) :
    (Task.inside lock ((process >>= rest) >>= close) work).Comes state
      (.inside lock (rest value >>= close) work) middle := by
  have comes := comes_advance (fun process => Task.inside lock ((process >>= rest) >>= close) work)
    (fun action rest state ready => by simp [Task.step, Process.step, bind, Process.bind, ready])
    process state
  rw [advanced] at comes
  exact comes

/-- A generation whose answers come at once comes to its commit. -/
theorem comes_commit {service : Service} (id prompt : String) {state : State} {plan : Plan}
    {explanation : String} (lock : Nat) (work : Guarded) (swift : state.delay = 0)
    (opens : Table.get? state.outages .getOrCreate = none)
    (offered : service.Offers (state.hears service.timeout 0) plan)
    (explains : state.hears service.timeout 1 = .ok explanation) :
    ∃ next, next.locks = state.locks ∧
      (Task.inside lock (Guarded.generate service id prompt).body work).Comes state
        (.inside lock (.act
          (.commit id ⟨plan, Program.compile service.registry plan, explanation, prompt⟩)
          fun answer => .done ((answer.mapError Failure.ofSession).map Response.outcome)) work)
        next := by
  let session := state.store.sessionOf id
  let opened : State := { state with store := (state.store.ensure id).2 }
  have opening : (openSession id).advance state = (.done (.ok session), opened) :=
    advance_openSession opens
  have swiftly : opened.delay = 0 := swift
  obtain ⟨proposed, asked, proposing⟩ := advance_propose
    (Prompt.plannerContext prompt session.history session.livePlan) swiftly offered
  have heard : proposed.hears service.timeout 0 = .ok explanation :=
    (asked.hears service.timeout 0).trans explains
  obtain ⟨next, askedAgain, explaining⟩ := advance_ask service .explainer
    (Prompt.explainerContext prompt plan session.isModification) (asked.delay.trans swift)
  rw [heard, mapError_ok] at explaining
  refine ⟨next, ?_, ?_⟩
  · have first := congrArg (·.2.locks) proposing
    have second := congrArg (·.2.locks) explaining
    rw [locks_advance] at first second
    exact second.symm.trans first.symm
  · refine (comes_bind opening lock work _ _).trans ?_
    refine (comes_bind proposing lock work _ _).trans ?_
    exact comes_bind explaining lock work _ _

theorem comes_queued (work : Guarded) (state : State) :
    let referred := state.locks.refer work.id
    let joined := referred.2.join referred.1
    (Task.arriving work).Comes state (.queued referred.1 joined.1 work) (state.withLocks joined.2) :=
  .step rfl (.step rfl .refl)

/-- A generation is about to commit while a reset of its session waits for the lock. -/
theorem exclusion_of_waiting_reset : ∃ generation reset state draft rest work waiting,
    Underway ⟨.standard, true, 1000⟩ [generation, reset] state ∧
      generation.call = .generate "a" "b" ∧
      generation.task = .inside 0 (.act (.commit "a" draft) rest) work ∧
      reset.task = .queued 0 1 waiting ∧
      (∀ id, [generation, reset].countP (fun party => party.task.occupies id) ≤ 1) ∧
      ∃ session, Table.get? state.store "a" = some session ∧ reads generation.deeds = [session] ∧
        (told generation.deeds).head? =
          some (Prompt.plannerContext "b" session.history session.livePlan) := by
  let service : Service := ⟨.standard, true, 1000⟩
  let start : State := { answers := [.ok "\x7b\"layout\":\"hi\"\x7d", .ok "A greeting."] }
  let generate := Guarded.generate service "a" "b"
  let held : State := start.withLocks ⟨[("a", 0)], [(0, ⟨1, 1, 0⟩)], 1⟩
  have admitted : Prompt.objection? "b" = none := by decide +kernel
  have arriving : (job service (.generate "a" "b")).task = .arriving generate := by
    simp only [job, admitted, Job.task]
    rfl
  have begun : Underway service
      [⟨.generate "a" "b", .arriving generate, []⟩, ⟨.reset "a", .arriving (.reset "a"), []⟩]
      start := by
    rw [← arriving]
    exact .call (.call (.start rfl) (.reset "a")) (.generate "a" "b")
  have offered : service.Offers (held.hears service.timeout 0) ⟨some (.text "hi")⟩ := by
    refine ⟨_, rfl, ?_, ?_⟩
    · simp only [String.reduceToList]
      rfl
    · simp [Check.violations, Check.structureViolations, Check.nodeViolations,
        Check.propViolations, Check.propViolationsAt]
  have entered : (Task.arriving generate).Comes start (.inside 0 generate.body generate) held :=
    (comes_queued generate start).trans (.step rfl .refl)
  -- The generation takes the lock and comes to its commit, asking the oracle on the way.
  obtain ⟨state, locks, working⟩ := comes_commit "a" "b" 0 generate rfl rfl offered rfl
  obtain ⟨steps, taken⟩ := entered.trans working
  obtain ⟨deeds, worked⟩ := underway_after [] steps begun taken
  -- The reset joins the same lock, whose turn is still that of the generation.
  have queued := comes_queued (.reset "a") state
  rw [locks] at queued
  obtain ⟨more, joined⟩ := queued
  obtain ⟨idle, waiting⟩ := underway_after [_] more worked joined
  obtain ⟨single, _, commits⟩ := exclusion_of_underway waiting
  obtain ⟨_, session, found, own, context, _⟩ :=
    commits _ List.mem_cons_self "a" "b" rfl 0 "a" _ _ generate rfl
  exact ⟨_, _, _, _, _, generate, .reset "a", waiting, rfl, rfl, rfl, single,
    session, found, own, context⟩

end UiPlan.Service
