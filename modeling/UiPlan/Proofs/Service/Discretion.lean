import Mathlib.Data.List.Forall2
import UiPlan.Http.Router
import UiPlan.Proofs.Service.Processes

/-! Of an oracle's error only its category counts. Two runs of the same calls against scripts that
differ in nothing but the texts of their errors cannot be told apart: not by what the calls
return, not by what the oracle is asked, not by what is stored. A process is judged by what it
does with one reply of the oracle; that it does the same with any reply like it carries over to
its runs.
-/
namespace UiPlan

namespace Oracle

/-- Answers that agree but for the text of an error, where both texts point to one category. -/
inductive Alike : Answer → Answer → Prop
  | same (answer : Answer) : Alike answer answer
  | transport {text other : String} (category : Category.ofText text = Category.ofText other) :
      Alike (.error (.transport text)) (.error (.transport other))
  | configuration {text other : String} (category : Category.ofText text = Category.ofText other) :
      Alike (.error (.configuration text)) (.error (.configuration other))

/-- What the service keeps of answers that are alike is the same. -/
theorem Alike.kept {first second : Answer} (alike : Alike first second) :
    first.isOk = second.isOk ∧
      first.mapError (fun error => Service.Failure.oracle error.category) =
        second.mapError fun error => Service.Failure.oracle error.category := by
  cases alike with
  | same => exact ⟨rfl, rfl⟩
  | transport category | configuration category =>
    exact ⟨rfl, congrArg (fun category => Except.error (Service.Failure.oracle category)) category⟩

end Oracle

namespace Service

open Oracle (Answer)

structure State.Alike (state other : State) : Prop where
  answers : List.Forall₂ Oracle.Alike state.answers other.answers
  rest : other = { state with answers := other.answers }

def Action.Alike : (action : Action) → action.Answer → action.Answer → Prop
  | .consult _ _ _, first, second =>
    first.time = second.time ∧ Oracle.Alike first.answer second.answer
  | _, first, second => first = second

namespace State.Alike

variable {state other : State}

theorem withLocks (alike : state.Alike other) (locks : Locks) :
    (state.withLocks locks).Alike (other.withLocks locks) :=
  ⟨alike.answers, congrArg (State.withLocks · locks) alike.rest⟩

theorem locks (alike : state.Alike other) : other.locks = state.locks := by rw [alike.rest]

theorem clock (alike : state.Alike other) : other.clock = state.clock := by rw [alike.rest]

theorem record (alike : state.Alike other) (metrics : List Metric) :
    (state.record metrics).Alike (other.record metrics) := by
  obtain ⟨answers, rest⟩ := alike
  rw [rest]
  unfold State.record
  dsimp only
  split <;> exact ⟨answers, rfl⟩

theorem access {α : Type} (alike : state.Alike other) (access : Access)
    (use : Store → Except Session.Error α × Store) :
    (state.access access use).1 = (other.access access use).1 ∧
      (state.access access use).2.Alike (other.access access use).2 := by
  obtain ⟨answers, rest⟩ := alike
  rw [rest]
  unfold State.access
  dsimp only
  split <;> exact ⟨rfl, answers, rfl⟩

theorem nextAnswer (alike : state.Alike other) : Oracle.Alike state.nextAnswer other.nextAnswer := by
  unfold State.nextAnswer
  obtain ⟨answers, -⟩ := alike
  generalize state.answers = first, other.answers = second at answers
  cases answers with
  | nil => exact .same _
  | cons first _ => exact first

theorem consult (alike : state.Alike other) (stage : Oracle.Stage) (context : String)
    (timeout : Nat) :
    Action.Alike (.consult stage context timeout) (state.consult stage context timeout).1
        (other.consult stage context timeout).1 ∧
      (state.consult stage context timeout).2.Alike (other.consult stage context timeout).2 := by
  have next := alike.nextAnswer
  obtain ⟨answers, rest⟩ := alike
  have behind : List.Forall₂ Oracle.Alike state.answers.tail other.answers.tail := by
    simpa only [List.drop_one] using List.forall₂_drop 1 answers
  rw [rest] at next ⊢
  unfold State.consult
  dsimp only
  split
  · exact ⟨⟨rfl, next⟩, behind, rfl⟩
  · exact ⟨⟨rfl, .same _⟩, behind, rfl⟩

theorem perform (alike : state.Alike other) (action : Action) :
    action.Alike (action.perform state).1 (action.perform other).1 ∧
      (action.perform state).2.Alike (action.perform other).2 := by
  cases action with
  | look id => exact alike.access _ _
  | ensure id =>
    obtain ⟨answers, rest⟩ := alike
    rw [rest]
    exact ⟨rfl, answers, rfl⟩
  | commit id draft =>
    simp only [Action.perform, alike.clock]
    exact alike.access _ _
  | rollback id index => exact alike.access _ _
  | reset id => exact alike.access _ _
  | summarize id => exact alike.access _ _
  | snapshot id => exact alike.access _ _
  | consult stage context timeout => exact alike.consult stage context timeout
  | await time =>
    obtain ⟨answers, rest⟩ := alike
    rw [rest]
    exact ⟨rfl, answers, rfl⟩
  | record metrics => exact ⟨rfl, alike.record metrics⟩

end State.Alike

namespace Process

variable {α β : Type}

/-- A process that goes on in the same way after answers that are alike. -/
def Discreet : Process α → Prop
  | .done _ => True
  | .act action next =>
    (∀ first second, action.Alike first second → next first = next second) ∧
      ∀ answer, (next answer).Discreet

theorem discreet_bind {process : Process α} {rest : α → Process β} (begun : process.Discreet)
    (goes : ∀ value, (rest value).Discreet) : (process >>= rest).Discreet := by
  induction process with
  | done value => exact goes value
  | act action next step =>
    refine ⟨fun first second alike => ?_, fun answer => step answer (begun.2 answer)⟩
    exact congrArg (·.bind rest) (begun.1 first second alike)

/-- All actions but a question to the oracle have one answer that is alike to it. -/
theorem discreet_perform_bind {action : Action} {rest : action.Answer → Process β}
    (blunt : ∀ first second, action.Alike first second → first = second)
    (goes : ∀ answer, (rest answer).Discreet) : (perform action >>= rest).Discreet :=
  ⟨fun first second alike => by rw [blunt first second alike], goes⟩

/-- Runs of a discreet process in alike states return the same. -/
theorem run_alike {process : Process α} (discreet : process.Discreet) {state other : State}
    (alike : state.Alike other) :
    (process.run state).1 = (process.run other).1 ∧
      (process.run state).2.Alike (process.run other).2 := by
  induction process generalizing state other with
  | done value => exact ⟨rfl, alike⟩
  | act action next step =>
    obtain ⟨answers, after⟩ := alike.perform action
    have same := discreet.1 _ _ answers
    have goes := step _ (discreet.2 (action.perform state).1) after
    simp only [run]
    rw [← same]
    exact goes

end Process

open Process (discreet_bind discreet_perform_bind)

variable (service : Service)

/-- The one place where the oracle's reply is looked at. -/
theorem discreet_ask (stage : Oracle.Stage) (context : String) :
    (service.ask stage context).Discreet := by
  refine ⟨?_, fun reply => discreet_perform_bind (fun _ _ _ => rfl) fun _ =>
    discreet_perform_bind (fun _ _ _ => rfl) fun _ => trivial⟩
  rintro ⟨time, first⟩ ⟨other, second⟩ ⟨times, alike : Oracle.Alike first second⟩
  obtain rfl : time = other := times
  obtain ⟨answered, result⟩ := alike.kept
  simp only [Process.bind, result]
  rw [answered]

private theorem discreet_propose (context : String) : (service.propose context).Discreet := by
  refine discreet_bind (discreet_ask service .planner context) fun answer => ?_
  cases answer with
  | error failure => trivial
  | ok text =>
    cases read : service.interpret text with
    | ok plan =>
      simp only [read]
      trivial
    | error rejection =>
      simp only [read]
      refine discreet_perform_bind (fun _ _ _ => rfl) fun _ => ?_
      refine discreet_bind (discreet_ask service .planner _) fun second => ?_
      cases second <;> trivial

private theorem discreet_openSession (id : String) : (openSession id).Discreet := by
  refine discreet_perform_bind (fun _ _ same => same) fun found => ?_
  cases found with
  | error failure => trivial
  | ok session =>
    cases session with
    | some session => trivial
    | none => exact discreet_perform_bind (fun _ _ same => same) fun _ => trivial

private theorem discreet_finish (id prompt : String) (isModification : Bool) (plan : Plan) :
    (service.finish id prompt isModification plan).Discreet := by
  refine discreet_bind (discreet_ask service .explainer _) fun answer => ?_
  cases answer with
  | error failure => trivial
  | ok explanation => exact discreet_perform_bind (fun _ _ same => same) fun _ => trivial

private theorem discreet_generation (id prompt : String) : (service.generation id prompt).Discreet := by
  refine discreet_bind (discreet_openSession id) fun opened => ?_
  cases opened with
  | error error => trivial
  | ok session =>
    refine discreet_bind (discreet_propose service _) fun proposed => ?_
    cases proposed with
    | error failure => trivial
    | ok plan => exact discreet_finish service id prompt _ plan

private theorem discreet_generate (id prompt : String) :
    (Guarded.generate service id prompt).body.Discreet :=
  discreet_bind (discreet_generation service id prompt) fun _ => trivial

private theorem discreet_rollback (id : String) (index : Int) : (Guarded.rollback id index).body.Discreet :=
  discreet_perform_bind (fun _ _ same => same) fun _ =>
    discreet_perform_bind (fun _ _ _ => rfl) fun _ => trivial

private theorem discreet_reset (id : String) : (Guarded.reset id).body.Discreet :=
  discreet_perform_bind (fun _ _ same => same) fun _ => trivial

private theorem discreet_turnAway (objection : Prompt.Objection) : (turnAway objection).Discreet :=
  discreet_perform_bind (fun _ _ _ => rfl) fun _ => trivial

private theorem discreet_summarizing (id : String) : (summarizing id).Discreet :=
  discreet_perform_bind (fun _ _ same => same) fun _ => trivial

private theorem discreet_snapshotting (id : String) : (snapshotting id).Discreet :=
  discreet_perform_bind (fun _ _ same => same) fun _ => trivial

/-- Work under a lock does the same in alike states if its actions do. -/
theorem guarded_run_alike {work : Guarded} (discreet : work.body.Discreet) {state other : State}
    (alike : state.Alike other) :
    (work.run state).1 = (work.run other).1 ∧ (work.run state).2.Alike (work.run other).2 := by
  unfold Guarded.run
  rw [alike.locks]
  obtain ⟨result, after⟩ := Process.run_alike discreet
    (alike.withLocks ((state.locks.refer work.id).2.join (state.locks.refer work.id).1).2)
  dsimp only
  rw [← result]
  refine ⟨rfl, ?_⟩
  unfold Guarded.leave
  rw [after.locks]
  exact (after.withLocks _).record _

/-- Calls in alike states return the same and leave alike states. -/
theorem perform_alike (call : Call) {state other : State} (alike : state.Alike other) :
    (service.perform call state).1 = (service.perform call other).1 ∧
      (service.perform call state).2.Alike (service.perform call other).2 := by
  cases call with
  | generate id prompt =>
    simp only [perform, job]
    split
    · exact Process.run_alike (discreet_turnAway _) alike
    · exact guarded_run_alike (discreet_generate service id prompt) alike
  | rollback id index => exact guarded_run_alike (discreet_rollback id index) alike
  | reset id => exact guarded_run_alike (discreet_reset id) alike
  | versions id => exact Process.run_alike (discreet_summarizing id) alike
  | snapshot id => exact Process.run_alike (discreet_snapshotting id) alike

def performEach : List Call → State → List Result × State
  | [], state => ([], state)
  | call :: rest, state =>
    let (result, state) := service.perform call state
    let (results, state) := performEach rest state
    (result :: results, state)

private theorem performEach_results_alike (calls : List Call) {state other : State}
    (alike : state.Alike other) :
    (service.performEach calls state).1 = (service.performEach calls other).1 ∧
      (service.performEach calls state).2.Alike (service.performEach calls other).2 := by
  induction calls generalizing state other with
  | nil => exact ⟨rfl, alike⟩
  | cons call rest step =>
    obtain ⟨result, after⟩ := perform_alike service call alike
    obtain ⟨results, last⟩ := step after
    exact ⟨congrArg₂ List.cons result results, last⟩

/-- Whatever state the calls begin in, scripts that differ in the texts of errors only, where each
text keeps its category, lead to the same results, the same replies to clients with their
status and body, the same requests to the oracle, and the same sessions in the store. -/
theorem performEach_blind (calls : List Call) (state : State) {script other : List Answer}
    (alike : List.Forall₂ Oracle.Alike script other) :
    let first := service.performEach calls { state with answers := script }
    let second := service.performEach calls { state with answers := other }
    first.1 = second.1 ∧
      first.1.map Http.resultReply = second.1.map Http.resultReply ∧
        first.2.calls = second.2.calls ∧ first.2.store = second.2.store := by
  intro first second
  have begun : State.Alike { state with answers := script } { state with answers := other } :=
    ⟨alike, rfl⟩
  obtain ⟨results, last⟩ := performEach_results_alike service calls begun
  refine ⟨results, congrArg _ results, ?_, ?_⟩
  · exact (congrArg State.calls last.rest).symm
  · exact (congrArg State.store last.rest).symm

/-- A secret in the text of an error makes no difference. -/
theorem performEach_blind_secret :
    List.Forall₂ Oracle.Alike
        [.error (.transport "HTTP 500: secret-key-123 stack"), .error (.configuration "quota")]
        [.error (.transport "connection refused"), .error (.configuration "rate limit")] ∧
      let first := performEach ⟨.standard, true, 1000⟩ [.generate "a" "b", .generate "a" "c"]
        { answers := [.error (.transport "HTTP 500: secret-key-123 stack"),
            .error (.configuration "quota")] }
      let second := performEach ⟨.standard, true, 1000⟩ [.generate "a" "b", .generate "a" "c"]
        { answers := [.error (.transport "connection refused"),
            .error (.configuration "rate limit")] }
      first.1 = second.1 ∧
        first.1.map Http.resultReply = second.1.map Http.resultReply ∧
          first.2.calls = second.2.calls ∧ first.2.store = second.2.store := by
  have alike : List.Forall₂ Oracle.Alike
      [.error (.transport "HTTP 500: secret-key-123 stack"), .error (.configuration "quota")]
      [.error (.transport "connection refused"), .error (.configuration "rate limit")] :=
    .cons (.transport (by decide)) (.cons (.configuration (by decide)) .nil)
  exact ⟨alike, performEach_blind ⟨.standard, true, 1000⟩ _ {} alike⟩

end Service

end UiPlan
