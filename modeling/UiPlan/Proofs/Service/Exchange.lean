import UiPlan.Proofs.Service.Processes
import UiPlan.Proofs.Session.Isolation

/-! What a generation asks the oracle, and what comes of it. The planner is asked once, and once
more with a correction if its first answer came but was no use; the explainer is asked when a
plan was accepted, and when it answers the version is committed. All this is said of the
answers that the oracle has ready, whatever they are, so every way out of a generation is
covered, and on all of them but the last the sessions stay what they were.
-/
namespace UiPlan

namespace Prompt

/-- A prompt that says nothing, or in which one of the phrases stands in any case. -/
def Objectionable (prompt : String) : Prop :=
  Text.trim prompt.toList = [] ∨
    ∃ phrase ∈ ["ignore previous", "ignore above", "disregard", "system prompt", "you are now"],
      phrase.toList <:+: Text.lower prompt.toList

private theorem mentionsAny_iff {phrases : List String} {text : String} :
    mentionsAny phrases text = true ↔
      ∃ phrase ∈ phrases, phrase.toList <:+: Text.lower text.toList := by
  simp [mentionsAny, Text.contains_iff]

theorem objection?_eq_none_iff {prompt : String} :
    objection? prompt = none ↔ ¬Objectionable prompt := by
  unfold objection? Objectionable
  have phrases := @mentionsAny_iff suspiciousPhrases prompt
  rw [suspiciousPhrases] at phrases
  rw [← phrases, ← suspiciousPhrases]
  by_cases blank : Text.trim prompt.toList = [] <;>
    by_cases mentions : mentionsAny suspiciousPhrases prompt = true <;> simp [blank, mentions]

private theorem infix_intercalate {separator : String} {parts : List String} {part : String}
    (inside : part ∈ parts) : part.toList <:+: (separator.intercalate parts).toList := by
  rw [String.toList_intercalate]
  induction parts with
  | nil => cases inside
  | cons first rest step =>
    cases rest with
    | nil =>
      rw [List.mem_singleton.mp inside]
      simp
    | cons next rest =>
      rw [List.map_cons, List.map_cons, List.intercalate_cons_cons, ← List.map_cons]
      rcases List.mem_cons.mp inside with rfl | later
      · exact ⟨[], _, by rw [List.nil_append, List.append_assoc]⟩
      · exact (step later).trans (List.suffix_append _ _).isInfix

end Prompt

namespace Service

open Oracle (Answer Stage)

def State.hears (state : State) (timeout place : Nat) : Answer :=
  if state.delay ≤ timeout then state.answers[place]?.getD Oracle.unprepared
  else .error (.timeout timeout)

/-- A state in which the oracle has been asked, and of the rest only the clock and the record
of metrics may differ, or who holds which lock. -/
structure Asked (state : State) (made : List (Stage × String)) (next : State) : Prop where
  store : next.store = state.store
  outages : next.outages = state.outages
  delay : next.delay = state.delay
  answers : next.answers = state.answers.drop made.length
  calls : next.calls = state.calls ++ made

namespace Asked

variable {state middle next : State} {made more : List (Stage × String)}

theorem trans (first : Asked state made middle) (second : Asked middle more next) :
    Asked state (made ++ more) next where
  store := second.store.trans first.store
  outages := second.outages.trans first.outages
  delay := second.delay.trans first.delay
  answers := by rw [second.answers, first.answers, List.drop_drop, List.length_append]
  calls := by rw [second.calls, first.calls, List.append_assoc]

theorem record (asked : Asked state made next) (metrics : List Metric) :
    Asked state made (next.record metrics) := by
  unfold State.record
  split <;> exact ⟨asked.store, asked.outages, asked.delay, asked.answers, asked.calls⟩

theorem wait (asked : Asked state made next) (time : Nat) : Asked state made (next.wait time) :=
  ⟨asked.store, asked.outages, asked.delay, asked.answers, asked.calls⟩

theorem hears (asked : Asked state made next) (timeout place : Nat) :
    next.hears timeout place = state.hears timeout (made.length + place) := by
  unfold State.hears
  rw [asked.delay, asked.answers, List.getElem?_drop]

end Asked

theorem run_followed {α β : Type} (process : Process α) (rest : α → Process β) (state : State) :
    (process >>= rest).run state = (rest (process.run state).1).run (process.run state).2 :=
  process.run_bind rest state

private theorem run_record {α : Type} (metrics : List Metric) (rest : Unit → Process α) (state : State) :
    (Process.perform (.record metrics) >>= rest).run state = (rest ()).run (state.record metrics) :=
  rfl

theorem asked_consult (state : State) (stage : Stage) (context : String) (timeout : Nat) :
    (state.consult stage context timeout).1.answer = state.hears timeout 0 ∧
      Asked state [(stage, context)] (state.consult stage context timeout).2 := by
  have drop : state.answers.tail = state.answers.drop 1 := List.drop_one.symm
  unfold State.consult State.hears
  split
  · exact ⟨by simp [State.nextAnswer, List.head?_eq_getElem?], ⟨rfl, rfl, rfl, drop, rfl⟩⟩
  · exact ⟨rfl, ⟨rfl, rfl, rfl, drop, rfl⟩⟩

theorem run_ask (service : Service) (stage : Stage) (context : String) (state : State) :
    ∃ next, Asked state [(stage, context)] next ∧ (service.ask stage context).run state =
      ((state.hears service.timeout 0).mapError fun error => .oracle error.category, next) := by
  obtain ⟨answer, asked⟩ := asked_consult state stage context service.timeout
  rw [← answer]
  exact ⟨_, (asked.wait _).record _, rfl⟩

/-- An answer that holds a plan, and the plan breaks no rule. -/
def Offers (service : Service) (answer : Answer) (plan : Plan) : Prop :=
  ∃ text, answer = .ok text ∧ Plan.parse text.toList = .ok plan ∧
    Check.violations service.registry service.strict plan = []

private theorem correction_eq (rejection : Rejection) (context : String) :
    ∃ correction, rejection.correction context = context ++ correction ∧
      ∀ violations, rejection = .invalid violations → ∀ violation ∈ violations,
        violation.message.toList <:+: correction.toList := by
  cases rejection with
  | unreadable =>
    exact ⟨_, by rw [Rejection.correction, Prompt.jsonCorrection, String.append_assoc], nofun⟩
  | invalid violations =>
    refine ⟨"\n\nYour previous output had these errors:\n" ++
      ("\n".intercalate (violations.map Check.Violation.message) ++
        "\n\nPlease fix and return valid JSON using ONLY allowed components."), ?_, ?_⟩
    · simp only [Rejection.correction, Prompt.violationCorrection, String.append_assoc]
    · intro others same violation inside
      obtain rfl := Rejection.invalid.inj same
      have listed : violation.message ∈ violations.map Check.Violation.message :=
        List.mem_map_of_mem inside
      rw [String.toList_append, String.toList_append]
      exact (Prompt.infix_intercalate listed).trans
        ((List.prefix_append _ _).isInfix.trans (List.suffix_append _ _).isInfix)

/-- An answer is judged by the plan in it, and a rejection knows what was wrong. -/
theorem interpret_cases (service : Service) (text : String) :
    (∃ plan, service.interpret text = .ok plan ∧ service.Offers (.ok text) plan) ∨
      ∃ rejection, service.interpret text = .error rejection ∧
        (∀ plan, ¬service.Offers (.ok text) plan) ∧
        ∀ plan, Plan.parse text.toList = .ok plan →
          rejection = .invalid (Check.violations service.registry service.strict plan) := by
  unfold interpret Offers
  cases parsed : Plan.parse text.toList with
  | error error =>
    refine .inr ⟨.unreadable, rfl, ?_, nofun⟩
    rintro plan ⟨other, same, read, _⟩
    obtain rfl := Except.ok.inj same
    rw [parsed] at read
    cases read
  | ok plan =>
    cases broken : Check.violations service.registry service.strict plan with
    | nil => exact .inl ⟨plan, by simp [broken], text, rfl, parsed, broken⟩
    | cons violation rest =>
      refine .inr ⟨.invalid (violation :: rest), by simp [broken], ?_, ?_⟩
      · rintro other ⟨again, same, read, clean⟩
        obtain rfl := Except.ok.inj same
        obtain rfl := Except.ok.inj (parsed.symm.trans read)
        rw [broken] at clean
        cases clean
      · intro other same
        rw [← Except.ok.inj same, broken]

/-- The ways in which a plan is asked for: what the planner is told at each call, what it
answers, and what comes of it. -/
inductive Planning (service : Service) (context : String) (hears : Nat → Answer) :
    List String → Except Failure Plan → Prop
  | silent {error : Oracle.Error} (unanswered : hears 0 = .error error) :
      Planning service context hears [context] (.error (.oracle error.category))
  | accepted {plan : Plan} (offered : service.Offers (hears 0) plan) :
      Planning service context hears [context] (.ok plan)
  | silentAgain {text : String} {rejection : Rejection} {error : Oracle.Error}
      (answered : hears 0 = .ok text) (refused : service.interpret text = .error rejection)
      (unanswered : hears 1 = .error error) :
      Planning service context hears [context, rejection.correction context]
        (.error (.oracle error.category))
  | acceptedAgain {text : String} {rejection : Rejection} {plan : Plan}
      (answered : hears 0 = .ok text) (refused : service.interpret text = .error rejection)
      (offered : service.Offers (hears 1) plan) :
      Planning service context hears [context, rejection.correction context] (.ok plan)
  | refusedAgain {text again : String} {rejection other : Rejection}
      (answered : hears 0 = .ok text) (refused : service.interpret text = .error rejection)
      (answeredAgain : hears 1 = .ok again) (useless : service.interpret again = .error other) :
      Planning service context hears [context, rejection.correction context]
        (.error (other.failure again))

private theorem planning_again {service : Service} {context text : String} {rejection : Rejection}
    {hears : Nat → Answer} (answered : hears 0 = .ok text)
    (refused : service.interpret text = .error rejection) :
    Planning service context hears [context, rejection.correction context] (match hears 1 with
      | .error error => .error (.oracle error.category)
      | .ok again => (service.interpret again).mapError (Rejection.failure again)) := by
  cases answeredAgain : hears 1 with
  | error error => exact .silentAgain answered refused answeredAgain
  | ok again =>
    dsimp only
    rcases interpret_cases service again with ⟨plan, read, offered⟩ | ⟨other, useless, _, _⟩
    · rw [read]
      exact .acceptedAgain answered refused (answeredAgain ▸ offered)
    · rw [useless]
      exact .refusedAgain answered refused answeredAgain useless

private theorem run_propose {service : Service} {context : String} {state next : State}
    {verdict : Except Failure Plan} (ran : (service.propose context).run state = (verdict, next)) :
    ∃ planned, Asked state (planned.map (Prod.mk .planner)) next ∧
      Planning service context (state.hears service.timeout) planned verdict := by
  obtain ⟨first, asked, ranFirst⟩ := run_ask service .planner context state
  rw [propose, run_followed, ranFirst] at ran
  cases answered : state.hears service.timeout 0 with
  | error error =>
    rw [answered] at ran
    obtain ⟨rfl, rfl⟩ := Prod.mk.inj ran
    exact ⟨[context], asked, .silent answered⟩
  | ok text =>
    rw [answered, mapError_ok] at ran
    dsimp only at ran
    rcases interpret_cases service text with ⟨plan, read, offered⟩ | ⟨rejection, refused, _, _⟩
    · rw [read] at ran
      obtain ⟨rfl, rfl⟩ := Prod.mk.inj ran
      exact ⟨[context], asked, .accepted (answered ▸ offered)⟩
    · -- The second answer is the one after the first, and there is no third.
      have retried := asked.record (Metric.retry rejection.reason)
      obtain ⟨second, askedAgain, ranSecond⟩ :=
        run_ask service .planner (rejection.correction context)
          (first.record (Metric.retry rejection.reason))
      have both := retried.trans askedAgain
      have place : (first.record (Metric.retry rejection.reason)).hears service.timeout 0 =
          state.hears service.timeout 1 := retried.hears service.timeout 0
      rw [place] at ranSecond
      rw [refused] at ran
      dsimp only at ran
      rw [run_record, run_followed, ranSecond] at ran
      have planning : Planning service context (state.hears service.timeout)
          [context, rejection.correction context] _ := planning_again answered refused
      refine ⟨[context, rejection.correction context], ?_⟩
      cases answeredAgain : state.hears service.timeout 1 with
      | error error =>
        rw [answeredAgain] at ran planning
        obtain ⟨rfl, rfl⟩ := Prod.mk.inj ran
        exact ⟨both, planning⟩
      | ok again =>
        rw [answeredAgain] at ran planning
        obtain ⟨rfl, rfl⟩ := Prod.mk.inj ran
        exact ⟨both, planning⟩

namespace Planning

variable {service : Service} {context : String} {hears : Nat → Answer} {planned : List String}
  {verdict : Except Failure Plan}

theorem head (planning : Planning service context hears planned verdict) :
    planned.head? = some context := by
  cases planning <;> rfl

theorem length_cases (planning : Planning service context hears planned verdict) :
    planned.length = 1 ∨ planned.length = 2 := by
  cases planning <;> simp

theorem not_offers_of_refused {text : String} {rejection : Rejection}
    (refused : service.interpret text = .error rejection) (plan : Plan) :
    ¬service.Offers (.ok text) plan := by
  rcases interpret_cases service text with ⟨other, read, _⟩ | ⟨_, _, noPlan, _⟩
  · rw [read] at refused
    cases refused
  · exact noPlan plan

/-- The planner is asked again exactly when its first answer came and offers no plan. -/
theorem again_iff (planning : Planning service context hears planned verdict) :
    planned.length = 2 ↔ ∃ text, hears 0 = .ok text ∧ ∀ plan, ¬service.Offers (hears 0) plan := by
  cases planning with
  | silent unanswered => simp [unanswered]
  | accepted offered =>
    constructor
    · intro two
      cases two
    · rintro ⟨_, _, noPlan⟩
      exact absurd offered (noPlan _)
  | silentAgain answered refused _ | acceptedAgain answered refused _
  | refusedAgain answered refused _ _ =>
    refine ⟨fun _ => ⟨_, answered, fun plan => ?_⟩, fun _ => rfl⟩
    rw [answered]
    exact not_offers_of_refused refused plan

/-- The second request is the first with a correction, which lists what was wrong with the
plan in the first answer, if there was one. -/
theorem corrected (planning : Planning service context hears planned verdict) {retry : String}
    (second : planned[1]? = some retry) :
    ∃ correction, retry = context ++ correction ∧
      ∀ text plan, hears 0 = .ok text → Plan.parse text.toList = .ok plan →
        ∀ violation ∈ Check.violations service.registry service.strict plan,
          violation.message.toList <:+: correction.toList := by
  have told {text : String} {rejection : Rejection} (answered : hears 0 = .ok text)
      (refused : service.interpret text = .error rejection) :
      ∃ correction, rejection.correction context = context ++ correction ∧
        ∀ text plan, hears 0 = .ok text → Plan.parse text.toList = .ok plan →
          ∀ violation ∈ Check.violations service.registry service.strict plan,
            violation.message.toList <:+: correction.toList := by
    obtain ⟨correction, same, lists⟩ := correction_eq rejection context
    refine ⟨correction, same, fun other plan heard parsed => ?_⟩
    obtain rfl := Except.ok.inj (answered.symm.trans heard)
    rcases interpret_cases service text with ⟨_, read, _⟩ | ⟨_, again, _, wrong⟩
    · rw [read] at refused
      cases refused
    · obtain rfl := Except.error.inj (refused.symm.trans again)
      exact lists _ (wrong plan parsed)
  cases planning with
  | silent _ | accepted _ => cases second
  | silentAgain answered refused _ | acceptedAgain answered refused _
  | refusedAgain answered refused _ _ =>
    obtain rfl := Option.some.inj second
    exact told answered refused

/-- The plan that comes of it is in the last answer. -/
theorem offered {plan : Plan} (planning : Planning service context hears planned (.ok plan)) :
    service.Offers (hears (planned.length - 1)) plan := by
  cases planning with
  | accepted offered => exact offered
  | acceptedAgain _ _ offered => exact offered

theorem isOk_iff (planning : Planning service context hears planned verdict) :
    (∃ plan, verdict = .ok plan) ↔
      ∃ place plan, place < planned.length ∧ service.Offers (hears place) plan := by
  constructor
  · rintro ⟨plan, rfl⟩
    have asked := planning.length_cases
    exact ⟨planned.length - 1, plan, by omega, planning.offered⟩
  · rintro ⟨place, plan, inside, offered⟩
    have silent {error : Oracle.Error} (unanswered : hears place = .error error) : False := by
      obtain ⟨text, answered, _⟩ := offered
      rw [unanswered] at answered
      cases answered
    cases planning with
    | accepted _ | acceptedAgain _ _ _ => exact ⟨_, rfl⟩
    | silent unanswered =>
      obtain rfl : place = 0 := by simpa using inside
      exact (silent unanswered).elim
    | silentAgain answered refused unanswered =>
      obtain rfl | rfl : place = 0 ∨ place = 1 := by
        simp only [List.length_cons, List.length_nil] at inside
        omega
      · exact (not_offers_of_refused refused plan (answered ▸ offered)).elim
      · exact (silent unanswered).elim
    | refusedAgain answered refused answeredAgain useless =>
      obtain rfl | rfl : place = 0 ∨ place = 1 := by
        simp only [List.length_cons, List.length_nil] at inside
        omega
      · exact (not_offers_of_refused refused plan (answered ▸ offered)).elim
      · exact (not_offers_of_refused useless plan (answeredAgain ▸ offered)).elim

end Planning

private theorem run_openSession {id : String} {state : State}
    (works : Table.get? state.outages .getOrCreate = none) :
    (openSession id).run state =
      (.ok (state.store.sessionOf id), { state with store := (state.store.ensure id).2 }) := by
  obtain ⟨made, _⟩ := state.store.ensure_eq id
  unfold openSession
  rw [run_followed]
  simp only [Process.perform, Process.run, Action.perform, State.access, works]
  cases found : Table.get? state.store id with
  | some session => simp [pure, Process.run, Store.sessionOf, Store.ensure, found]
  | none =>
    rw [← made]
    rfl

/-- The ways in which an accepted plan ends, by what the explainer answers: what comes of it
and what is stored then. -/
inductive Finishing (service : Service) (id prompt : String) (plan : Plan) (heard : Answer)
    (state : State) : Except Failure Session.Outcome → Store → Prop
  | silent {error : Oracle.Error} (unanswered : heard = .error error) :
      Finishing service id prompt plan heard state (.error (.oracle error.category)) state.store
  | unsaved {explanation text : String} (answered : heard = .ok explanation)
      (fails : Table.get? state.outages .commit = some text) :
      Finishing service id prompt plan heard state (.error (.store (.store text))) state.store
  | saved {explanation : String} {outcome : Session.Outcome} {stored : Store} {time : Timestamp}
      (answered : heard = .ok explanation) (works : Table.get? state.outages .commit = none)
      (committed : state.store.commit id
        ⟨plan, Program.compile service.registry plan, explanation, prompt⟩ time = (outcome, stored)) :
      Finishing service id prompt plan heard state (.ok outcome) stored

private theorem run_finish {service : Service} {id prompt : String} {isModification : Bool} {plan : Plan}
    {state next : State} {result : Except Failure Session.Outcome}
    (ran : (service.finish id prompt isModification plan).run state = (result, next)) :
    next.calls = state.calls ++ [(.explainer, Prompt.explainerContext prompt plan isModification)] ∧
      Finishing service id prompt plan (state.hears service.timeout 0) state result next.store := by
  obtain ⟨heard, asked, ranAsk⟩ :=
    run_ask service .explainer (Prompt.explainerContext prompt plan isModification) state
  rw [finish, run_followed, ranAsk] at ran
  cases answered : state.hears service.timeout 0 with
  | error error =>
    rw [answered] at ran
    obtain ⟨rfl, rfl⟩ := Prod.mk.inj ran
    exact ⟨asked.calls, asked.store ▸ .silent rfl⟩
  | ok explanation =>
    rw [answered, mapError_ok] at ran
    dsimp only at ran
    rw [run_followed] at ran
    simp only [Process.perform, Process.run, Action.perform, State.access, asked.outages] at ran
    cases fails : Table.get? state.outages .commit with
    | some text =>
      rw [fails] at ran
      obtain ⟨rfl, rfl⟩ := Prod.mk.inj ran
      exact ⟨asked.calls, asked.store ▸ .unsaved rfl fails⟩
    | none =>
      rw [fails, asked.store] at ran
      obtain ⟨rfl, rfl⟩ := Prod.mk.inj ran
      exact ⟨asked.calls, .saved rfl fails rfl⟩

namespace Finishing

variable {service : Service} {id prompt : String} {plan : Plan} {heard : Answer} {state : State}
  {result : Except Failure Session.Outcome} {stored : Store}

theorem isOk_iff (finishing : Finishing service id prompt plan heard state result stored) :
    (∃ outcome, result = .ok outcome) ↔
      (∃ explanation, heard = .ok explanation) ∧ Table.get? state.outages .commit = none := by
  cases finishing with
  | silent unanswered => simp [unanswered]
  | unsaved answered fails => simp [fails]
  | saved answered works committed => simp [answered, works]

theorem unchanged {failure : Failure}
    (finishing : Finishing service id prompt plan heard state (.error failure) stored) :
    stored = state.store := by
  cases finishing <;> rfl

theorem committed {outcome : Session.Outcome}
    (finishing : Finishing service id prompt plan heard state (.ok outcome) stored) :
    ∃ explanation time, heard = .ok explanation ∧
      let draft : Session.Draft := ⟨plan, Program.compile service.registry plan, explanation, prompt⟩
      outcome = (state.store.commit id draft time).1 ∧ stored = (state.store.commit id draft time).2 := by
  cases finishing with
  | saved answered works committed =>
    exact ⟨_, _, answered, (congrArg Prod.fst committed).symm, (congrArg Prod.snd committed).symm⟩

end Finishing

/-- What a generation does whose prompt is admitted, told by what the planner and the explainer
were asked, in this order, and by what the oracle had ready when it began. -/
structure Exchange (service : Service) (state : State) (id prompt : String)
    (planned explained : List String) (result : Except Failure Session.Outcome) (final : Store) :
    Prop where
  first : planned.head? = some (Prompt.plannerContext prompt (state.store.sessionOf id).history
    (state.store.sessionOf id).livePlan)
  bounded : (planned.length = 1 ∨ planned.length = 2) ∧ explained.length ≤ 1
  retried : planned.length = 2 ↔ ∃ text, state.hears service.timeout 0 = .ok text ∧
    ∀ plan, ¬service.Offers (state.hears service.timeout 0) plan
  corrected : ∀ retry, planned[1]? = some retry → ∃ correction,
    retry = Prompt.plannerContext prompt (state.store.sessionOf id).history
      (state.store.sessionOf id).livePlan ++ correction ∧
    ∀ text plan, state.hears service.timeout 0 = .ok text → Plan.parse text.toList = .ok plan →
      ∀ violation ∈ Check.violations service.registry service.strict plan,
        violation.message.toList <:+: correction.toList
  accepted : explained.length = 1 ↔ ∃ place plan, place < planned.length ∧
    service.Offers (state.hears service.timeout place) plan
  succeeds : (∃ outcome, result = .ok outcome) ↔ explained.length = 1 ∧
    (∃ explanation, state.hears service.timeout planned.length = .ok explanation) ∧
      Table.get? state.outages .commit = none
  committed : ∀ outcome, result = .ok outcome → ∃ plan explanation time,
    service.Offers (state.hears service.timeout (planned.length - 1)) plan ∧
    state.hears service.timeout planned.length = .ok explanation ∧
    let session := state.store.sessionOf id
    let draft : Session.Draft := ⟨plan, Program.compile service.registry plan, explanation, prompt⟩
    let version := draft.version session.versions.length time
    explained = [Prompt.explainerContext prompt plan session.isModification] ∧
    outcome = ⟨version, session.versions.length + 1⟩ ∧
    (final.sessionOf id).versions = session.versions ++ [version] ∧
    ∀ other, Table.get? final other =
      if id = other then some (session.commit draft time).2 else Table.get? state.store other
  untouched : ∀ failure, result = .error failure → ∀ other, Table.get? final other =
    if id = other then some (state.store.sessionOf id) else Table.get? state.store other

section

variable {service : Service} {state : State} {id prompt : String} {planned : List String}
  {final : Store}

/-- A generation that comes to no plan asks nothing more and leaves the store alone. -/
theorem exchange_of_failed {failure : Failure}
    (planning : Planning service (Prompt.plannerContext prompt (state.store.sessionOf id).history
      (state.store.sessionOf id).livePlan) (state.hears service.timeout) planned (.error failure))
    (kept : ∀ other, Table.get? final other =
      if id = other then some (state.store.sessionOf id) else Table.get? state.store other) :
    Exchange service state id prompt planned [] (.error failure) final where
  first := planning.head
  bounded := ⟨planning.length_cases, by simp⟩
  retried := planning.again_iff
  corrected := fun _ second => planning.corrected second
  accepted := by
    rw [← planning.isOk_iff]
    simp
  succeeds := by simp
  committed := by simp
  untouched := fun _ _ => kept

/-- A generation that has a plan ends as its explanation and the commit do. -/
theorem exchange_of_accepted {plan : Plan} {middle : State}
    {result : Except Failure Session.Outcome}
    (planning : Planning service (Prompt.plannerContext prompt (state.store.sessionOf id).history
      (state.store.sessionOf id).livePlan) (state.hears service.timeout) planned (.ok plan))
    (kept : ∀ other, Table.get? middle.store other =
      if id = other then some (state.store.sessionOf id) else Table.get? state.store other)
    (outages : middle.outages = state.outages)
    (last : middle.hears service.timeout 0 = state.hears service.timeout planned.length)
    (ended : Finishing service id prompt plan (middle.hears service.timeout 0) middle result final) :
    Exchange service state id prompt planned
      [Prompt.explainerContext prompt plan (state.store.sessionOf id).isModification] result final where
  first := planning.head
  bounded := ⟨planning.length_cases, by simp⟩
  retried := planning.again_iff
  corrected := fun _ second => planning.corrected second
  accepted := by
    rw [← planning.isOk_iff]
    simp
  succeeds := by
    rw [ended.isOk_iff, last, outages]
    simp
  committed := by
    -- The commit finds the session that the generation has opened, be it an old or a new one.
    have own : middle.store.sessionOf id = state.store.sessionOf id := by
      rw [Store.sessionOf, kept, if_pos rfl, Option.getD_some]
    rintro outcome rfl
    obtain ⟨explanation, time, heard, outcome, stored⟩ := ended.committed
    refine ⟨plan, explanation, time, planning.offered, last.symm.trans heard, rfl, ?_, ?_,
      fun other => ?_⟩
    · rw [outcome, (middle.store.commit_eq _ _ _).1, own]
      rfl
    · rw [stored, (middle.store.commit_eq _ _ _).2, if_pos rfl, own]
      rfl
    · rw [stored, middle.store.get?_commit, own, kept]
      split <;> rfl
  untouched := by
    rintro failure rfl other
    rw [ended.unchanged]
    exact kept other

end

/-- A generation whose session can be opened is an exchange with the oracle, and asks it nothing else. -/
theorem exchange_of_run {service : Service} {id prompt : String} {state next : State}
    {result : Except Failure Session.Outcome} (works : Table.get? state.outages .getOrCreate = none)
    (ran : (service.generation id prompt).run state = (result, next)) :
    ∃ planned explained, next.calls = state.calls ++
        (planned.map (Prod.mk .planner) ++ explained.map (Prod.mk .explainer)) ∧
      Exchange service state id prompt planned explained result next.store := by
  let session := state.store.sessionOf id
  let opened : State := { state with store := (state.store.ensure id).2 }
  rw [generation, run_followed, run_openSession works] at ran
  dsimp only at ran
  rw [run_followed] at ran
  rcases proposed : (service.propose
    (Prompt.plannerContext prompt session.history session.livePlan)).run opened with ⟨verdict, middle⟩
  rw [proposed] at ran
  dsimp only at ran
  obtain ⟨planned, asked, planningOpened⟩ := run_propose proposed
  -- Opening the session changes nothing that the oracle says.
  have planning : Planning service (Prompt.plannerContext prompt session.history session.livePlan)
    (state.hears service.timeout) planned verdict := planningOpened
  have kept (other : String) : Table.get? middle.store other =
      if id = other then some session else Table.get? state.store other := by
    rw [asked.store]
    exact Store.get?_ensure state.store id other
  cases verdict with
  | error failure =>
    obtain ⟨rfl, rfl⟩ := Prod.mk.inj ran
    refine ⟨planned, [], ?_, exchange_of_failed planning kept⟩
    rw [asked.calls, List.map_nil, List.append_nil]
  | ok plan =>
    obtain ⟨calls, ended⟩ := run_finish ran
    have last : middle.hears service.timeout 0 = state.hears service.timeout planned.length := by
      rw [asked.hears, List.length_map]
      rfl
    refine ⟨planned, _, ?_, exchange_of_accepted planning kept asked.outages last ended⟩
    rw [calls, asked.calls, List.append_assoc]
    rfl

/-- The lock is taken before a generation and let go after it, and nothing else is done. -/
theorem perform_generate (service : Service) (id : String) {prompt : String}
    (admitted : Prompt.objection? prompt = none) (state : State) :
    ∃ locks, ∀ outcome worked,
      (service.generation id prompt).run (state.withLocks locks) = (outcome, worked) →
        (service.perform (.generate id prompt) state).1 = outcome.map Response.outcome ∧
        (service.perform (.generate id prompt) state).2.calls = worked.calls ∧
        (service.perform (.generate id prompt) state).2.store = worked.store := by
  refine ⟨((state.locks.refer id).2.join (state.locks.refer id).1).2, fun outcome worked ran => ?_⟩
  have body : (Guarded.generate service id prompt).body.run
      (state.withLocks ((state.locks.refer id).2.join (state.locks.refer id).1).2) =
        (outcome.map Response.outcome, worked) := by
    rw [Guarded.generate, run_followed, ran]
    rfl
  have guarded : service.perform (.generate id prompt) state =
      (outcome.map Response.outcome, (Guarded.generate service id prompt).leave
        (state.locks.refer id).1 (outcome.map Response.outcome) worked) := by
    simp only [perform, job, admitted, Job.run, Guarded.run]
    exact congrArg (fun done : Result × State => (done.1,
      (Guarded.generate service id prompt).leave (state.locks.refer id).1 done.1 done.2)) body
  rw [guarded]
  exact ⟨rfl, calls_record _ _, store_record _ _⟩

private theorem offers_unique {service : Service} {answer : Answer} {plan other : Plan}
    (first : service.Offers answer plan) (second : service.Offers answer other) : plan = other := by
  obtain ⟨text, answered, read, _⟩ := first
  obtain ⟨again, same, reread, _⟩ := second
  obtain rfl := Except.ok.inj (answered.symm.trans same)
  exact Except.ok.inj (read.symm.trans reread)

/-- A generation whose first answer offers a plan and whose second explains it commits this plan. -/
theorem committed_of_offer {service : Service} (id : String) {prompt explanation : String} {state : State}
    {plan : Plan} (admitted : Prompt.objection? prompt = none)
    (opens : Table.get? state.outages .getOrCreate = none)
    (commits : Table.get? state.outages .commit = none)
    (offered : service.Offers (state.hears service.timeout 0) plan)
    (explains : state.hears service.timeout 1 = .ok explanation) :
    ∃ time, Table.get? (service.perform (.generate id prompt) state).2.store id =
      some ((state.store.sessionOf id).commit
        ⟨plan, Program.compile service.registry plan, explanation, prompt⟩ time).2 := by
  obtain ⟨locks, done⟩ := perform_generate service id admitted state
  rcases ran : (service.generation id prompt).run (state.withLocks locks) with ⟨result, next⟩
  have opening : Table.get? (state.withLocks locks).outages .getOrCreate = none := opens
  obtain ⟨planned, explained, _, exchange⟩ := exchange_of_run opening ran
  have single : planned.length = 1 := by
    refine exchange.bounded.1.resolve_right fun two => ?_
    obtain ⟨_, _, useless⟩ := exchange.retried.mp two
    exact useless plan offered
  have asked : explained.length = 1 := exchange.accepted.mpr ⟨0, plan, by omega, offered⟩
  obtain ⟨outcome, ended⟩ := exchange.succeeds.mpr ⟨asked, ⟨explanation, single ▸ explains⟩, commits⟩
  obtain ⟨last, heard, time, again, answered, _, _, _, stored⟩ := exchange.committed outcome ended
  rw [single] at again answered
  obtain rfl : last = plan := offers_unique again offered
  obtain rfl : heard = explanation := Except.ok.inj (answered.symm.trans explains)
  refine ⟨time, ?_⟩
  rw [(done _ _ ran).2.2, stored, if_pos rfl]
  rfl

end Service

end UiPlan
