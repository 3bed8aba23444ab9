import UiPlan.Proofs.Service.Processes
import UiPlan.Proofs.Session.Isolation

/-! What a call does by and by, whatever it is answered: which sessions it touches and changes,
and what it has read and told the planner when it commits. Nothing is said here of when the other
calls act.
-/
namespace UiPlan.Service

structure Deed where
  action : Action
  answer : action.Answer

def Deed.read? : Deed → Option Session
  | ⟨.look _, .ok found⟩ => found
  | ⟨.ensure _, session⟩ => some session
  | _ => none

def Deed.told? : Deed → Option String
  | ⟨.consult .planner context _, _⟩ => some context
  | _ => none

def reads (deeds : List Deed) : List Session := deeds.filterMap Deed.read?

def told (deeds : List Deed) : List String := deeds.filterMap Deed.told?

def Action.changes : Action → Bool
  | .commit _ _ | .rollback _ _ | .reset _ => true
  | _ => false

def Action.Within (id : String) : Action → Prop
  | .look target | .ensure target | .commit target _ | .rollback target _ => target = id
  | .reset target | .summarize target | .snapshot target => target = id
  | .consult _ _ _ | .await _ | .record _ => True

def Quiet (deeds : List Deed) : Prop := ∀ deed ∈ deeds, deed.action.changes = false

theorem quiet_append {deeds more : List Deed} : Quiet (deeds ++ more) ↔ Quiet deeds ∧ Quiet more := by
  simp [Quiet, or_imp, forall_and]

theorem store_access {α : Type} (state : State) (access : Access)
    (use : Store → Except Session.Error α × Store) :
    (state.access access use).2.store = state.store ∨
      (state.access access use).2.store = (use state.store).2 := by
  unfold State.access
  split
  · exact .inl rfl
  · exact .inr rfl

/-- Other sessions than the one an action is about stay as they are. -/
theorem get?_perform_of_within {action : Action} {id other : String} (within : action.Within id)
    (different : other ≠ id) (state : State) :
    Table.get? (action.perform state).2.store other = Table.get? state.store other := by
  have kept {α : Type} (access : Access) (use : Store → Except Session.Error α × Store)
      (same : Table.get? (use state.store).2 other = Table.get? state.store other) :
      Table.get? (state.access access use).2.store other = Table.get? state.store other := by
    rcases store_access state access use with unchanged | used
    · rw [unchanged]
    · rw [used, same]
  have ensured : Table.get? (state.store.ensure id).2 other = Table.get? state.store other := by
    rw [Store.get?_ensure, if_neg (Ne.symm different)]
  cases action with
  | look target => exact kept _ _ rfl
  | ensure target =>
    obtain rfl : target = id := within
    exact ensured
  | commit target draft =>
    obtain rfl : target = id := within
    refine kept _ _ ?_
    dsimp only
    rw [Store.get?_commit, if_neg (Ne.symm different)]
  | rollback target index =>
    obtain rfl : target = id := within
    have moved := Store.get?_apply (.rollback target index) state.store other
    rw [Store.Operation.id, if_neg (Ne.symm different)] at moved
    exact kept _ _ moved
  | reset target =>
    obtain rfl : target = id := within
    refine kept _ _ ?_
    dsimp only
    rw [Store.reset, Table.get?_erase, if_neg (Ne.symm different)]
  | summarize target | snapshot target =>
    obtain rfl : target = id := within
    exact kept _ _ ensured
  | consult stage context timeout =>
    simp only [Action.perform, State.consult]
    split <;> rfl
  | await time => rfl
  | record metrics => exact congrArg (Table.get? · other) (store_record state metrics)

theorem get?_perform_of_quiet {action : Action} (quiet : action.changes = false) {state : State}
    {id : String} {session : Session} (found : Table.get? state.store id = some session) :
    Table.get? (action.perform state).2.store id = some session := by
  have kept {α : Type} (access : Access) (use : Store → Except Session.Error α × Store)
      (same : Table.get? (use state.store).2 id = some session) :
      Table.get? (state.access access use).2.store id = some session := by
    rcases store_access state access use with unchanged | used
    · rw [unchanged, found]
    · rw [used, same]
  have ensured (target : String) : Table.get? (state.store.ensure target).2 id = some session := by
    rw [Store.get?_ensure]
    split
    · rename_i same
      rw [same, Store.sessionOf, found]
      rfl
    · exact found
  cases action with
  | look target => exact kept _ _ found
  | ensure target => exact ensured target
  | commit _ _ | rollback _ _ | reset _ => cases quiet
  | summarize target | snapshot target => exact kept _ _ (ensured target)
  | consult stage context timeout =>
    simp only [Action.perform, State.consult]
    split <;> exact found
  | await time => exact found
  | record metrics =>
    rw [← found]
    exact congrArg (Table.get? · id) (store_record state metrics)

/-- A session that was read is there. -/
theorem get?_perform_of_read {action : Action} {id : String} (within : action.Within id)
    {state : State} {session : Session}
    (read : Deed.read? ⟨action, (action.perform state).1⟩ = some session) :
    Table.get? (action.perform state).2.store id = some session := by
  cases action with
  | look target =>
    obtain rfl : target = id := within
    cases fails : Table.get? state.outages .getOrCreate with
    | some text => simp [Action.perform, State.access, fails, Deed.read?] at read
    | none => simpa [Action.perform, State.access, fails, Deed.read?] using read
  | ensure target =>
    obtain rfl : target = id := within
    obtain rfl := Option.some.inj read
    simp [Action.perform, Store.get?_ensure, Store.ensure_eq]
  | _ => cases read

/-- A commit puts its version behind those of the session. -/
theorem index_of_commit {id : String} {draft : Session.Draft} {state : State} {session : Session}
    (found : Table.get? state.store id = some session) {outcome : Session.Outcome}
    (committed : (Action.perform (.commit id draft) state).1 = .ok outcome) :
    outcome.version.index = session.versions.length := by
  have held : state.store.sessionOf id = session := by rw [Store.sessionOf, found]; rfl
  cases fails : Table.get? state.outages .commit with
  | some text => simp [Action.perform, State.access, fails] at committed
  | none =>
    simp only [Action.perform, State.access, fails] at committed
    rw [← Except.ok.inj committed, (state.store.commit_eq _ _ _).1, held]
    rfl

/-- Whatever the answers are, every action follows the rule, given what was done before, and what
comes of it at the end is as it should be. -/
def Process.Follows {α : Type} (rule : List Deed → Action → Prop) (ends : List Deed → α → Prop) :
    List Deed → Process α → Prop
  | deeds, .done value => ends deeds value
  | deeds, .act action next => rule deeds action ∧
    ∀ answer, (next answer).Follows rule ends (deeds ++ [⟨action, answer⟩])

theorem follows_bind {α β : Type} {rule : List Deed → Action → Prop} {first : List Deed → α → Prop}
    {ends : List Deed → β → Prop} {process : Process α} {rest : α → Process β} {deeds : List Deed}
    (begun : process.Follows rule first deeds)
    (goes : ∀ after value, first after value → (rest value).Follows rule ends after) :
    (process >>= rest).Follows rule ends deeds := by
  induction process generalizing deeds with
  | done value => exact goes deeds value begun
  | act action next step => exact ⟨begun.1, fun answer => step answer (begun.2 answer)⟩

structure Prepared (prompt : String) (session : Session) (deeds : List Deed) : Prop where
  read : reads deeds = [session]
  told : (told deeds).head? =
    some (Prompt.plannerContext prompt session.history session.livePlan)
  quiet : Quiet deeds

def Call.id : Call → String
  | .generate id _ | .rollback id _ | .reset id | .versions id | .snapshot id => id

def Lawful (call : Call) (deeds : List Deed) (action : Action) : Prop :=
  action.Within call.id ∧ ∀ id prompt draft, call = .generate id prompt →
    action = .commit id draft → ∃ session, Prepared prompt session deeds

theorem lawful_of_ne {call : Call} {deeds : List Deed} {action : Action}
    (within : action.Within call.id) (apart : ∀ id prompt, call ≠ .generate id prompt) :
    Lawful call deeds action :=
  ⟨within, fun id prompt _ same => absurd same (apart id prompt)⟩

/-- What was done in between has neither read nor changed a session. -/
structure Continued (deeds : List Deed) (contexts : List String) (after : List Deed) : Prop where
  reads : reads after = reads deeds
  told : told after = told deeds ++ contexts
  quiet : Quiet deeds → Quiet after

theorem Continued.trans {deeds middle after : List Deed} {contexts more : List String}
    (first : Continued deeds contexts middle) (second : Continued middle more after) :
    Continued deeds (contexts ++ more) after where
  reads := second.reads.trans first.reads
  told := by rw [second.told, first.told, List.append_assoc]
  quiet := fun quiet => second.quiet (first.quiet quiet)

section Generation

variable (service : Service) {call : Call} {deeds : List Deed}

theorem follows_record (metrics : List Metric) :
    (Process.perform (.record metrics)).Follows (Lawful call)
      (fun after _ => Continued deeds [] after) deeds := by
  refine ⟨⟨trivial, nofun⟩, fun answer => ⟨?_, ?_, ?_⟩⟩
  · simp [reads, Deed.read?]
  · simp [told, Deed.told?]
  · exact fun quiet => quiet_append.mpr ⟨quiet, by simp [Quiet, Action.changes]⟩

theorem follows_ask (stage : Oracle.Stage) (context : String) :
    (service.ask stage context).Follows (Lawful call)
      (fun after _ => Continued deeds (if stage = .planner then [context] else []) after) deeds := by
  refine ⟨⟨trivial, nofun⟩, fun reply => ⟨⟨trivial, nofun⟩, fun _ => ?_⟩⟩
  change Process.Follows _ _ _ (Process.perform (.record _) >>= _)
  refine follows_bind (follows_record _) fun after _ recorded => ?_
  have asked : Continued deeds (if stage = .planner then [context] else [])
      (deeds ++ [⟨.consult stage context service.timeout, reply⟩] ++ [⟨.await reply.time, ()⟩]) := by
    refine ⟨?_, ?_, fun quiet => ?_⟩
    · simp [reads, Deed.read?]
    · cases stage <;> simp [told, Deed.told?]
    · simp only [quiet_append]
      exact ⟨⟨quiet, by simp [Quiet, Action.changes]⟩, by simp [Quiet, Action.changes]⟩
  have all := asked.trans recorded
  rw [List.append_nil] at all
  exact all

/-- Whatever comes of it, the planner is told the context first. -/
theorem follows_propose (context : String) :
    (service.propose context).Follows (Lawful call)
      (fun after _ => ∃ more, Continued deeds (context :: more) after) deeds := by
  refine follows_bind (follows_ask service .planner context) fun asked answer first => ?_
  cases answer with
  | error failure => exact ⟨[], first⟩
  | ok text =>
    cases read : service.interpret text with
    | ok plan =>
      simp only [read]
      exact ⟨[], first⟩
    | error rejection =>
      simp only [read]
      refine follows_bind (follows_record _) fun counted _ recorded => ?_
      refine follows_bind (follows_ask service .planner _) fun after second again => ?_
      have all := (first.trans recorded).trans again
      cases second with
      | error failure => exact ⟨_, all⟩
      | ok other => exact ⟨_, all⟩

private theorem follows_openSession (id : String) (own : call.id = id) :
    (openSession id).Follows (Lawful call)
      (fun after result => ∀ session, result = .ok session →
        reads after = [session] ∧ told after = [] ∧ Quiet after) [] := by
  refine ⟨⟨own.symm, nofun⟩, fun found => ?_⟩
  cases found with
  | error failure => nofun
  | ok found =>
    cases found with
    | some session =>
      intro other same
      obtain rfl := Except.ok.inj same
      exact ⟨rfl, rfl, by simp [Quiet, Action.changes]⟩
    | none =>
      refine ⟨⟨own.symm, nofun⟩, fun made other same => ?_⟩
      obtain rfl := Except.ok.inj same
      exact ⟨rfl, rfl, by simp [Quiet, Action.changes]⟩

private theorem follows_finish {id prompt : String} {session : Session} (isModification : Bool) (plan : Plan)
    (prepared : Prepared prompt session deeds) :
    (service.finish id prompt isModification plan).Follows (Lawful (.generate id prompt))
      (fun _ _ => True) deeds := by
  refine follows_bind (follows_ask service .explainer _) fun after answer asked => ?_
  cases answer with
  | error failure => trivial
  | ok explanation =>
    refine ⟨⟨rfl, fun other again draft same _ => ?_⟩, fun outcome => trivial⟩
    obtain ⟨rfl, rfl⟩ := Call.generate.inj same
    refine ⟨session, asked.reads.trans prepared.read, ?_, asked.quiet prepared.quiet⟩
    have silent : told after = told deeds := by simpa using asked.told
    rw [silent]
    exact prepared.told

/-- A generation touches one session only, and it commits nothing before it has read the session and
told the planner of it. -/
theorem follows_generation (id prompt : String) :
    (service.generation id prompt).Follows (Lawful (.generate id prompt)) (fun _ _ => True) [] := by
  refine follows_bind (follows_openSession id rfl) fun opened result found => ?_
  cases result with
  | error error => trivial
  | ok session =>
    obtain ⟨read, silent, quiet⟩ := found session rfl
    refine follows_bind (follows_propose service _) fun after verdict proposed => ?_
    obtain ⟨more, continued⟩ := proposed
    have prepared : Prepared prompt session after := by
      refine ⟨continued.reads.trans read, ?_, continued.quiet quiet⟩
      rw [continued.told, silent]
      rfl
    cases verdict with
    | error failure => trivial
    | ok plan => exact follows_finish service _ plan prepared

end Generation

end UiPlan.Service
