import UiPlan.Service.Schedule

/-! Tasks that share locks. A lock counts the tasks that hold a reference to it and serves its
tickets in order, so one task at a time has it. An entry is taken out only by a task that alone
refers to the lock in it. So as long as a task has yet to leave its work, the entry of its
session is its lock, and tasks inside the same session have the same lock, of which there is one
holder.
-/
namespace UiPlan.Service

namespace Locks

/-- A change to one lock leaves the others as they are. -/
theorem mutex_set (locks : Locks) (lock other : Nat) (change : Mutex → Mutex) :
    (locks.set lock (change (locks.mutex lock))).mutex other =
      if lock = other then change (locks.mutex other) else locks.mutex other := by
  unfold Locks.mutex set
  rw [Table.get?_insert]
  split
  · rename_i same
    rw [same]
    rfl
  · rfl

theorem mutex_refer (locks : Locks) (id : String) (other : Nat) :
    (locks.refer id).2.mutex other = if (locks.refer id).1 = other then
      { locks.mutex other with references := (locks.mutex other).references + 1 }
      else locks.mutex other := by
  have entered : (locks.enter id).2.mutex other = locks.mutex other := by
    unfold enter
    split <;> rfl
  rw [← entered]
  exact (locks.enter id).2.mutex_set (locks.enter id).1 other
    fun mutex => { mutex with references := mutex.references + 1 }

theorem entry_refer (locks : Locks) (id : String) :
    Table.get? (locks.refer id).2.entries id = some (locks.refer id).1 := by
  have entered : Table.get? (locks.enter id).2.entries id = some (locks.enter id).1 := by
    unfold enter
    split
    · assumption
    · rw [Table.get?_insert, if_pos rfl]
  exact entered

private theorem entry_refer_of_some {locks : Locks} {id other : String} {lock : Nat}
    (found : Table.get? locks.entries other = some lock) :
    Table.get? (locks.refer id).2.entries other = some lock := by
  have entered : Table.get? (locks.enter id).2.entries other = some lock := by
    unfold enter
    split
    · exact found
    · rename_i absent
      rw [Table.get?_insert, if_neg, found]
      rintro rfl
      rw [absent] at found
      cases found
  exact entered

theorem mutex_join (locks : Locks) (lock other : Nat) :
    (locks.join lock).2.mutex other = if lock = other then
      { locks.mutex other with issued := (locks.mutex other).issued + 1 }
      else locks.mutex other :=
  locks.mutex_set lock other fun mutex => { mutex with issued := mutex.issued + 1 }

theorem mutex_release (locks : Locks) (id : String) (lock other : Nat) :
    (locks.release id lock).mutex other = locks.mutex other := by
  unfold release
  split <;> rfl

/-- An entry that is taken out was the lock that the task gives up, and it alone referred to it. -/
theorem entry_release {locks : Locks} {id other : String} {lock held : Nat}
    (found : Table.get? locks.entries other = some held) :
    Table.get? (locks.release id lock).entries other = some held ∨
      held = lock ∧ (locks.mutex lock).references ≤ 1 := by
  unfold release
  split
  · rename_i alone
    by_cases same : id = other
    · subst same
      rw [found] at alone
      exact .inr ⟨Option.some.inj alone.1, alone.2⟩
    · left
      rw [Table.get?_erase, if_neg same, found]
  · exact .inl found

theorem mutex_unlock (locks : Locks) (lock other : Nat) :
    (locks.unlock lock).mutex other = if lock = other then
      { locks.mutex other with served := (locks.mutex other).served + 1 }
      else locks.mutex other :=
  locks.mutex_set lock other fun mutex => { mutex with served := mutex.served + 1 }

theorem mutex_drop (locks : Locks) (lock other : Nat) :
    (locks.drop lock).mutex other = if lock = other then
      if (locks.mutex other).references ≤ 1 then .idle
      else { locks.mutex other with references := (locks.mutex other).references - 1 }
      else locks.mutex other := by
  by_cases few : (locks.mutex lock).references ≤ 1
  · have erased : locks.drop lock = { locks with mutexes := Table.erase locks.mutexes lock } :=
      if_pos few
    rw [erased]
    split
    · rename_i same
      subst same
      rw [if_pos few, Locks.mutex, Table.get?_erase, if_pos rfl]
      rfl
    · rename_i different
      rw [Locks.mutex, Table.get?_erase, if_neg different]
      rfl
  · have fewer : locks.drop lock = locks.set lock
        { locks.mutex lock with references := (locks.mutex lock).references - 1 } := if_neg few
    have set := locks.mutex_set lock other
      fun mutex => { mutex with references := mutex.references - 1 }
    rw [fewer, set]
    split
    · rename_i same
      subst same
      rw [if_neg few]
    · rfl

theorem entries_drop (locks : Locks) (lock : Nat) : (locks.drop lock).entries = locks.entries := by
  unfold drop
  dsimp only
  split <;> rfl

end Locks

/-- Locks and outages are no business of an action. -/
theorem perform_kept (action : Action) (state : State) :
    (action.perform state).2.locks = state.locks ∧
      (action.perform state).2.outages = state.outages := by
  have access {α : Type} (access : Access) (use : Store → Except Session.Error α × Store) :
      (state.access access use).2.locks = state.locks ∧
        (state.access access use).2.outages = state.outages := by
    unfold State.access
    split <;> exact ⟨rfl, rfl⟩
  cases action with
  | ensure _ | await _ => exact ⟨rfl, rfl⟩
  | consult stage context timeout =>
    simp only [Action.perform, State.consult]
    split <;> exact ⟨rfl, rfl⟩
  | record metrics =>
    simp only [Action.perform, State.record]
    split <;> exact ⟨rfl, rfl⟩
  | _ => exact access _ _

theorem Process.step_eq_some {α : Type} {process next : Process α} {state nextState : State}
    (stepped : process.step state = some (next, nextState)) :
    ∃ action rest, process = .act action rest ∧ next = rest (action.perform state).1 ∧
      nextState = (action.perform state).2 := by
  cases process with
  | done value => cases stepped
  | act action rest =>
    rw [step] at stepped
    split at stepped
    · obtain ⟨rfl, rfl⟩ := Prod.mk.inj (Option.some.inj stepped)
      exact ⟨action, rest, rfl, rfl, rfl⟩
    · cases stepped

namespace Task

/-- What one step of a task can be. -/
inductive Moved (state : State) : Task → Task → State → Prop
  | act {action : Action} {rest : action.Answer → Process Result} :
      Moved state (.free (.act action rest)) (.free (rest (action.perform state).1))
        (action.perform state).2
  | arrive {work : Guarded} :
      Moved state (.arriving work) (.referring (state.locks.refer work.id).1 work)
        (state.withLocks (state.locks.refer work.id).2)
  | join {lock : Nat} {work : Guarded} :
      Moved state (.referring lock work) (.queued lock (state.locks.join lock).1 work)
        (state.withLocks (state.locks.join lock).2)
  | enter {lock ticket : Nat} {work : Guarded} (turn : state.locks.isTurn lock ticket) :
      Moved state (.queued lock ticket work) (.inside lock work.body work) state
  | actInside {lock : Nat} {action : Action} {rest : action.Answer → Process Result}
      {work : Guarded} :
      Moved state (.inside lock (.act action rest) work)
        (.inside lock (rest (action.perform state).1) work) (action.perform state).2
  | finish {lock : Nat} {result : Result} {work : Guarded} :
      Moved state (.inside lock (.done result) work) (finished lock result work) state
  | release {lock : Nat} {result : Result} {work : Guarded} :
      Moved state (.leaving lock result work) (.unlocking lock result work)
        (state.withLocks (state.locks.release work.id lock))
  | unlock {lock : Nat} {result : Result} {work : Guarded} :
      Moved state (.unlocking lock result work) (.dropping lock result work)
        (state.withLocks (state.locks.unlock lock))
  | drop {lock : Nat} {result : Result} {work : Guarded} :
      Moved state (.dropping lock result work) (.free (work.afterwards result))
        (state.withLocks (state.locks.drop lock))

theorem moved_of_step {task next : Task} {state nextState : State}
    (stepped : task.step state = some (next, nextState)) : task.Moved state next nextState := by
  cases task with
  | free body =>
    obtain ⟨⟨rest, after⟩, acted, same⟩ := Option.map_eq_some_iff.mp stepped
    obtain ⟨action, answer, rfl, rfl, rfl⟩ := Process.step_eq_some acted
    obtain ⟨rfl, rfl⟩ := Prod.mk.inj same
    exact .act
  | arriving work =>
    obtain ⟨rfl, rfl⟩ := Prod.mk.inj (Option.some.inj stepped)
    exact .arrive
  | referring lock work =>
    obtain ⟨rfl, rfl⟩ := Prod.mk.inj (Option.some.inj stepped)
    exact .join
  | queued lock ticket work =>
    rw [step] at stepped
    split at stepped
    · rename_i turn
      obtain ⟨rfl, rfl⟩ := Prod.mk.inj (Option.some.inj stepped)
      exact .enter turn
    · cases stepped
  | inside lock body work =>
    cases body with
    | done result =>
      obtain ⟨rfl, rfl⟩ := Prod.mk.inj (Option.some.inj stepped)
      exact .finish
    | act action rest =>
      obtain ⟨⟨body, after⟩, acted, same⟩ := Option.map_eq_some_iff.mp stepped
      obtain ⟨other, answer, found, rfl, rfl⟩ := Process.step_eq_some acted
      obtain ⟨rfl, rfl⟩ := Prod.mk.inj same
      rw [found]
      exact .actInside
  | leaving lock result work =>
    obtain ⟨rfl, rfl⟩ := Prod.mk.inj (Option.some.inj stepped)
    exact .release
  | unlocking lock result work =>
    obtain ⟨rfl, rfl⟩ := Prod.mk.inj (Option.some.inj stepped)
    exact .unlock
  | dropping lock result work =>
    obtain ⟨rfl, rfl⟩ := Prod.mk.inj (Option.some.inj stepped)
    exact .drop

@[simp] def lock? : Task → Option Nat
  | .free _ | .arriving _ => none
  | .referring lock _ | .queued lock _ _ | .inside lock _ _ => some lock
  | .leaving lock _ _ | .unlocking lock _ _ | .dropping lock _ _ => some lock

@[simp] def refers (lock : Nat) (task : Task) : Bool := task.lock? = some lock

@[simp] def holds (lock : Nat) : Task → Bool
  | .inside other _ _ | .leaving other _ _ | .unlocking other _ _ => other = lock
  | _ => false

@[simp] def ticket? (lock : Nat) : Task → Option Nat
  | .queued other ticket _ => if other = lock then some ticket else none
  | _ => none

@[simp] def entry? : Task → Option (String × Nat)
  | .referring lock work | .queued lock _ work => some (work.id, lock)
  | .inside lock _ work | .leaving lock _ work => some (work.id, lock)
  | _ => none

/-- Whether the task has taken the lock of a session and not yet finished its work on it. -/
def occupies (id : String) : Task → Bool
  | .inside _ _ work | .leaving _ _ work => work.id = id
  | _ => false

theorem refers_of_entry {task : Task} {id : String} {lock : Nat}
    (entry : task.entry? = some (id, lock)) : task.refers lock := by
  cases task <;> simp_all

private theorem refers_of_holds {task : Task} {lock : Nat} (holds : task.holds lock) : task.refers lock := by
  cases task <;> simp_all

private theorem refers_of_ticket {task : Task} {lock ticket : Nat} (drawn : task.ticket? lock = some ticket) :
    task.refers lock := by
  cases task <;> simp_all

end Task

/-- What a lock knows of the tasks that refer to it: how many there are, how many of them have
it, and which tickets wait for it. -/
structure Fair (references holders : Nat) (tickets : List Nat) (mutex : Mutex) : Prop where
  counted : mutex.references = references
  single : holders ≤ 1
  room : mutex.served + holders ≤ mutex.issued
  waiting : ∀ ticket ∈ tickets, mutex.served + holders ≤ ticket ∧ ticket < mutex.issued
  distinct : tickets.Nodup

namespace Fair

variable {references holders : Nat} {tickets : List Nat} {mutex : Mutex}

theorem idle : Fair 0 0 [] .idle where
  counted := rfl
  single := by omega
  room := Nat.le_refl _
  waiting := nofun
  distinct := .nil

theorem refer (fair : Fair references holders tickets mutex) :
    Fair (references + 1) holders tickets { mutex with references := mutex.references + 1 } :=
  ⟨congrArg (· + 1) fair.counted, fair.single, fair.room, fair.waiting, fair.distinct⟩

theorem join (fair : Fair references holders tickets mutex) :
    Fair references holders (mutex.issued :: tickets) { mutex with issued := mutex.issued + 1 } where
  counted := fair.counted
  single := fair.single
  room := Nat.le_succ_of_le fair.room
  waiting := by
    intro ticket inside
    rcases List.mem_cons.mp inside with rfl | earlier
    · exact ⟨fair.room, Nat.lt_succ_self _⟩
    · have bounds := fair.waiting ticket earlier
      exact ⟨bounds.1, Nat.lt_succ_of_lt bounds.2⟩
  distinct := by
    refine List.nodup_cons.mpr ⟨fun inside => ?_, fair.distinct⟩
    exact Nat.lt_irrefl _ (fair.waiting _ inside).2

/-- The ticket whose turn it is can only be served when nobody has the lock. -/
theorem enter (fair : Fair references holders (mutex.served :: tickets) mutex) :
    Fair references (holders + 1) tickets mutex := by
  have turn := fair.waiting mutex.served (by simp)
  have fresh := List.nodup_cons.mp fair.distinct
  refine ⟨fair.counted, by omega, by omega, fun ticket inside => ?_, fresh.2⟩
  have bounds := fair.waiting ticket (by simp [inside])
  have other : ticket ≠ mutex.served := by
    rintro rfl
    exact fresh.1 inside
  omega

theorem unlock (fair : Fair references (holders + 1) tickets mutex) :
    Fair references holders tickets { mutex with served := mutex.served + 1 } := by
  have single := fair.single
  have room := fair.room
  refine ⟨fair.counted, by omega, by dsimp only; omega, fun ticket inside => ?_, fair.distinct⟩
  have bounds := fair.waiting ticket inside
  dsimp only
  omega

theorem drop (fair : Fair (references + 1) holders tickets mutex) :
    Fair references holders tickets { mutex with references := mutex.references - 1 } :=
  ⟨by rw [fair.counted]; rfl, fair.single, fair.room, fair.waiting, fair.distinct⟩

end Fair

structure Orderly (tasks : List Task) (locks : Locks) : Prop where
  entered : ∀ task ∈ tasks, ∀ id lock, task.entry? = some (id, lock) →
    Table.get? locks.entries id = some lock
  fair : ∀ lock, Fair (tasks.countP (Task.refers lock)) (tasks.countP (Task.holds lock))
    (tasks.filterMap (Task.ticket? lock)) (locks.mutex lock)

namespace Orderly

variable {tasks others rest : List Task} {task next : Task} {locks : Locks}

/-- The order of the tasks says nothing. Only their tickets have an order, by which the
locks serve them. -/
theorem perm (orderly : Orderly tasks locks) (same : tasks.Perm others) : Orderly others locks where
  entered := fun task inside => orderly.entered task (same.mem_iff.mpr inside)
  fair := by
    intro lock
    have fair := orderly.fair lock
    rw [same.countP_eq, same.countP_eq] at fair
    have tickets := same.filterMap (Task.ticket? lock)
    exact ⟨fair.counted, fair.single, fair.room,
      fun ticket inside => fair.waiting ticket (tickets.mem_iff.mpr inside),
      tickets.nodup_iff.mp fair.distinct⟩

/-- What the locks see of the first task, and of those after it. -/
theorem fair_cons (orderly : Orderly (task :: rest) locks) (lock : Nat) :
    Fair (rest.countP (Task.refers lock) + if task.refers lock then 1 else 0)
      (rest.countP (Task.holds lock) + if task.holds lock then 1 else 0)
      ((task.ticket? lock).toList ++ rest.filterMap (Task.ticket? lock)) (locks.mutex lock) := by
  have fair := orderly.fair lock
  rw [List.countP_cons, List.countP_cons, List.filterMap_cons] at fair
  cases ticket : task.ticket? lock <;> (rw [ticket] at fair; exact fair)

theorem own (orderly : Orderly (task :: rest) locks) :
    ∀ id lock, task.entry? = some (id, lock) → Table.get? locks.entries id = some lock :=
  orderly.entered task List.mem_cons_self

theorem entered_cons (orderly : Orderly (task :: rest) locks) :
    ∀ other ∈ rest, ∀ id lock, other.entry? = some (id, lock) →
      Table.get? locks.entries id = some lock :=
  fun other inside => orderly.entered other (List.mem_cons_of_mem _ inside)

theorem of_cons
    (own : ∀ id lock, task.entry? = some (id, lock) → Table.get? locks.entries id = some lock)
    (entered : ∀ other ∈ rest, ∀ id lock, other.entry? = some (id, lock) →
      Table.get? locks.entries id = some lock)
    (fair : ∀ lock, Fair (rest.countP (Task.refers lock) + if task.refers lock then 1 else 0)
      (rest.countP (Task.holds lock) + if task.holds lock then 1 else 0)
      ((task.ticket? lock).toList ++ rest.filterMap (Task.ticket? lock)) (locks.mutex lock)) :
    Orderly (task :: rest) locks where
  entered := by
    intro other inside
    rcases List.mem_cons.mp inside with rfl | later
    · exact own
    · exact entered other later
  fair := by
    intro lock
    have fair := fair lock
    rw [List.countP_cons, List.countP_cons, List.filterMap_cons]
    cases ticket : task.ticket? lock <;> (rw [ticket] at fair; exact fair)

theorem start : Orderly [] .none := ⟨nofun, fun _ => .idle⟩

/-- A task comes that has yet to refer to a lock. -/
theorem come (orderly : Orderly rest locks) (fresh : task.lock? = none) :
    Orderly (task :: rest) locks := by
  refine of_cons (fun id lock entry => ?_) orderly.entered fun lock => ?_
  · have refers := of_decide_eq_true (Task.refers_of_entry entry)
    rw [fresh] at refers
    cases refers
  · cases task with
    | free _ | arriving _ => simpa using orderly.fair lock
    | _ => cases fresh

/-- A step after which the locks see the task as before, or no longer need its entry. -/
theorem unseen (orderly : Orderly (task :: rest) locks)
    (entry : next.entry? = task.entry? ∨ next.entry? = none)
    (refers : ∀ lock, next.refers lock = task.refers lock)
    (holds : ∀ lock, next.holds lock = task.holds lock)
    (ticket : ∀ lock, next.ticket? lock = task.ticket? lock) : Orderly (next :: rest) locks := by
  refine of_cons (fun id lock found => ?_) orderly.entered_cons fun lock => ?_
  · rcases entry with same | vacant
    · exact orderly.own id lock (same ▸ found)
    · rw [vacant] at found
      cases found
  · rw [refers, holds, ticket]
    exact orderly.fair_cons lock

theorem arrive {work : Guarded} (orderly : Orderly (.arriving work :: rest) locks) :
    Orderly (.referring (locks.refer work.id).1 work :: rest) (locks.refer work.id).2 := by
  refine of_cons (fun id lock found => ?_) (fun other inside id lock found => ?_) fun lock => ?_
  · obtain ⟨rfl, rfl⟩ := Prod.mk.inj (Option.some.inj found)
    exact locks.entry_refer work.id
  · exact Locks.entry_refer_of_some (orderly.entered_cons other inside id lock found)
  · have fair := orderly.fair_cons lock
    rw [Locks.mutex_refer]
    by_cases same : (locks.refer work.id).1 = lock
    · subst same
      simpa using fair.refer
    · simpa [same] using fair

theorem join {lock : Nat} {work : Guarded} (orderly : Orderly (.referring lock work :: rest) locks) :
    Orderly (.queued lock (locks.join lock).1 work :: rest) (locks.join lock).2 := by
  refine of_cons orderly.own orderly.entered_cons fun other => ?_
  have fair := orderly.fair_cons other
  rw [Locks.mutex_join]
  by_cases same : lock = other
  · subst same
    simpa [Locks.join] using fair.join
  · simpa [same] using fair

theorem enter {lock ticket : Nat} {work : Guarded} (body : Process Result)
    (orderly : Orderly (.queued lock ticket work :: rest) locks) (turn : locks.isTurn lock ticket) :
    Orderly (.inside lock body work :: rest) locks := by
  refine of_cons orderly.own orderly.entered_cons fun other => ?_
  have fair := orderly.fair_cons other
  by_cases same : lock = other
  · subst same
    have served : (locks.mutex lock).served = ticket := by simpa [Locks.isTurn] using turn
    subst served
    have waiting : Fair (rest.countP (Task.refers lock) + 1) (rest.countP (Task.holds lock))
        ((locks.mutex lock).served :: rest.filterMap (Task.ticket? lock)) (locks.mutex lock) := by
      simpa using fair
    simpa using waiting.enter
  · simpa [same] using fair

private theorem fair_of_unreferred {lock : Nat} (unreferred : rest.countP (Task.refers lock) = 0) :
    Fair (rest.countP (Task.refers lock)) (rest.countP (Task.holds lock))
      (rest.filterMap (Task.ticket? lock)) .idle := by
  have absent := List.countP_eq_zero.mp unreferred
  have holders : rest.countP (Task.holds lock) = 0 :=
    List.countP_eq_zero.mpr fun task inside holds => absent task inside (Task.refers_of_holds holds)
  have tickets : rest.filterMap (Task.ticket? lock) = [] := by
    refine List.filterMap_eq_nil_iff.mpr fun task inside => ?_
    refine Option.eq_none_iff_forall_ne_some.mpr fun ticket drawn => ?_
    exact absent task inside (Task.refers_of_ticket drawn)
  rw [unreferred, holders, tickets]
  exact .idle

/-- When the entry is taken out, no other task of the session relies on it, since that task
would refer to the same lock. -/
theorem release {lock : Nat} {result : Result} {work : Guarded}
    (orderly : Orderly (.leaving lock result work :: rest) locks) :
    Orderly (.unlocking lock result work :: rest) (locks.release work.id lock) := by
  refine of_cons (by nofun) (fun other inside id held found => ?_) fun other => ?_
  · rcases Locks.entry_release (orderly.entered_cons other inside id held found) with kept | ⟨same, few⟩
    · exact kept
    · have counted := (orderly.fair_cons lock).counted
      have one : 0 < rest.countP (Task.refers lock) :=
        List.countP_pos_iff.mpr ⟨other, inside, Task.refers_of_entry (same ▸ found)⟩
      simp only [Task.refers, Task.lock?, decide_true, if_true] at counted one
      omega
  · rw [Locks.mutex_release]
    exact orderly.fair_cons other

theorem unlock {lock : Nat} {result : Result} {work : Guarded}
    (orderly : Orderly (.unlocking lock result work :: rest) locks) :
    Orderly (.dropping lock result work :: rest) (locks.unlock lock) := by
  refine of_cons (by nofun) orderly.entered_cons fun other => ?_
  have fair := orderly.fair_cons other
  rw [Locks.mutex_unlock]
  by_cases same : lock = other
  · subst same
    have held : Fair (rest.countP (Task.refers lock) + 1) (rest.countP (Task.holds lock) + 1)
        (rest.filterMap (Task.ticket? lock)) (locks.mutex lock) := by
      simpa using fair
    simpa using held.unlock
  · simpa [same] using fair

theorem drop {lock : Nat} {result : Result} {work : Guarded} (body : Process Result)
    (orderly : Orderly (.dropping lock result work :: rest) locks) :
    Orderly (.free body :: rest) (locks.drop lock) := by
  refine of_cons (by nofun) (fun other inside id held found => ?_) fun other => ?_
  · rw [Locks.entries_drop]
    exact orderly.entered_cons other inside id held found
  have fair := orderly.fair_cons other
  rw [Locks.mutex_drop]
  by_cases same : lock = other
  · subst same
    have referred : Fair (rest.countP (Task.refers lock) + 1) (rest.countP (Task.holds lock))
        (rest.filterMap (Task.ticket? lock)) (locks.mutex lock) := by
      simpa using fair
    by_cases few : (locks.mutex lock).references ≤ 1
    · have unreferred : rest.countP (Task.refers lock) = 0 := by
        have counted := referred.counted
        omega
      simpa [few] using fair_of_unreferred unreferred
    · simpa [few] using referred.drop
  · simpa [same] using fair

/-- One step of any task, whatever the others are in the middle of. -/
theorem moved {state nextState : State} (orderly : Orderly (task :: rest) state.locks)
    (step : task.Moved state next nextState) : Orderly (next :: rest) nextState.locks := by
  cases step with
  | act =>
    rw [(perform_kept _ _).1]
    exact orderly.unseen (.inl rfl) (fun _ => rfl) (fun _ => rfl) fun _ => rfl
  | arrive => exact orderly.arrive
  | join => exact orderly.join
  | enter turn => exact orderly.enter _ turn
  | actInside =>
    rw [(perform_kept _ _).1]
    exact orderly.unseen (.inl rfl) (fun _ => rfl) (fun _ => rfl) fun _ => rfl
  | finish =>
    unfold Task.finished
    split
    · exact orderly.unseen (.inl rfl) (fun _ => rfl) (fun _ => rfl) fun _ => rfl
    · exact orderly.unseen (.inr rfl) (fun _ => rfl) (fun _ => rfl) fun _ => rfl
  | release => exact orderly.release
  | unlock => exact orderly.unlock
  | drop => exact orderly.drop _

/-- At most one task is at work on a session. -/
theorem occupied_le (orderly : Orderly tasks locks) (id : String) :
    tasks.countP (Task.occupies id) ≤ 1 := by
  have holds {lock : Nat} (entered : Table.get? locks.entries id = some lock) :
      ∀ task ∈ tasks, task.occupies id → task.holds lock := by
    intro task inside occupies
    cases task with
    | inside held _ work | leaving held _ work =>
      obtain rfl : work.id = id := by simpa [Task.occupies] using occupies
      have own := orderly.entered _ inside work.id held rfl
      rw [entered] at own
      simp [Option.some.inj own]
    | _ => simp [Task.occupies] at occupies
  cases entered : Table.get? locks.entries id with
  | some lock =>
    calc tasks.countP (Task.occupies id)
      _ ≤ tasks.countP (Task.holds lock) := List.countP_mono_left (holds entered)
      _ ≤ 1 := (orderly.fair lock).single
  | none =>
    have absent : tasks.countP (Task.occupies id) = 0 := by
      refine List.countP_eq_zero.mpr fun task inside occupies => ?_
      cases task with
      | inside held _ work | leaving held _ work =>
        obtain rfl : work.id = id := by simpa [Task.occupies] using occupies
        have own := orderly.entered _ inside work.id held rfl
        rw [entered] at own
        cases own
      | _ => simp [Task.occupies] at occupies
    omega

/-- While another task is at work on a session, the first is not. -/
theorem away_of_occupies (orderly : Orderly (task :: rest) locks) {other : Task} {id : String}
    (inside : other ∈ rest) (occupies : other.occupies id) : task.occupies id = false := by
  have one := orderly.occupied_le id
  have positive : 0 < rest.countP (Task.occupies id) := List.countP_pos_iff.mpr ⟨other, inside, occupies⟩
  rw [List.countP_cons] at one
  cases both : task.occupies id with
  | false => rfl
  | true =>
    rw [both, if_pos rfl] at one
    omega

end Orderly

end UiPlan.Service
