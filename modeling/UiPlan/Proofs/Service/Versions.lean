import UiPlan.Proofs.Engine.Rendering
import UiPlan.Proofs.Service.Exchange

/-! Every version that the service stores is valid and can be shown. A plan reaches a commit
only through the validator, its artifact is the one the compiler gives, and the program of
a plan that was read renders to a tree unless a prop holds a double.
-/
namespace UiPlan.Service

open Process (Yields yields_bind yields_perform)

def Accepts (service : Service) (plan : Plan) : Prop :=
  Check.violations service.registry service.strict plan = [] ∧ plan.Regular

/-- A version that holds an accepted plan and what the compiler makes of it. -/
def Sound (service : Service) (version : Session.Version) : Prop :=
  service.Accepts version.plan ∧
    version.code = (Program.compile service.registry version.plan).code ∧
      version.usedComponents = (Program.compile service.registry version.plan).usedComponents

abbrev Safe (service : Service) : Action → Prop := Action.Fit service.Sound

variable (service : Service)

theorem accepts_of_interpret {text : String} {plan : Plan} (ok : service.interpret text = .ok plan) :
    service.Accepts plan := by
  unfold interpret at ok
  split at ok
  · cases ok
  · rename_i read parsed
    split at ok
    · rename_i valid
      obtain rfl := Except.ok.inj ok
      exact ⟨valid, Plan.regular_of_parse parsed⟩
    · cases ok

theorem yields_ask (stage : Oracle.Stage) (context : String) :
    (service.ask stage context).Yields service.Safe fun _ => True := by
  refine yields_bind (yields_perform trivial) fun reply _ => ?_
  refine yields_bind (yields_perform trivial) fun _ _ => ?_
  exact yields_bind (yields_perform trivial) fun _ _ => trivial

/-- A proposed plan is accepted, whether it was the first or the second answer. -/
theorem yields_propose (context : String) :
    (service.propose context).Yields service.Safe fun result =>
      ∀ plan, result = .ok plan → service.Accepts plan := by
  refine yields_bind (yields_ask service .planner context) fun answer _ => ?_
  cases answer with
  | error failure => exact fun _ same => by cases same
  | ok text =>
    cases read : service.interpret text with
    | ok plan =>
      simp only [read]
      intro other same
      obtain rfl := Except.ok.inj same
      exact accepts_of_interpret service read
    | error rejection =>
      -- The second answer is judged like the first, and there is no third.
      simp only [read]
      refine yields_bind (yields_perform trivial) fun _ _ => ?_
      refine yields_bind (yields_ask service .planner _) fun second _ => ?_
      cases second with
      | error failure => exact fun _ same => by cases same
      | ok again =>
        intro plan same
        cases reread : service.interpret again with
        | error other =>
          rw [reread] at same
          cases same
        | ok other =>
          rw [reread] at same
          obtain rfl := Except.ok.inj same
          exact accepts_of_interpret service reread

private theorem yields_openSession (id : String) :
    (openSession id).Yields service.Safe fun _ => True := by
  refine yields_bind (yields_perform trivial) fun found _ => ?_
  cases found with
  | error failure => trivial
  | ok session =>
    cases session with
    | some session => trivial
    | none => exact yields_bind (yields_perform trivial) fun _ _ => trivial

private theorem yields_finish (id prompt : String) (isModification : Bool) {plan : Plan}
    (accepted : service.Accepts plan) :
    (service.finish id prompt isModification plan).Yields service.Safe fun _ => True := by
  refine yields_bind (yields_ask service .explainer _) fun answer _ => ?_
  cases answer with
  | error failure => trivial
  | ok explanation =>
    exact yields_bind (yields_perform fun _ _ => ⟨accepted, rfl, rfl⟩) fun _ _ => trivial

private theorem yields_generation (id prompt : String) :
    (service.generation id prompt).Yields service.Safe fun _ => True := by
  refine yields_bind (yields_openSession service id) fun opened _ => ?_
  cases opened with
  | error error => trivial
  | ok session =>
    refine yields_bind (yields_propose service _) fun proposed accepted => ?_
    cases proposed with
    | error failure => trivial
    | ok plan => exact yields_finish service id prompt _ (accepted plan rfl)

private theorem yields_job (call : Call) : (service.job call).Yields service.Safe := by
  cases call with
  | generate id prompt =>
    simp only [job]
    split
    · rename_i objection _
      change (turnAway objection).Yields service.Safe fun _ => True
      exact yields_bind (yields_perform trivial) fun _ _ => trivial
    · change (Guarded.generate service id prompt).body.Yields service.Safe fun _ => True
      exact yields_bind (yields_generation service id prompt) fun _ _ => trivial
  | rollback id index =>
    change (Guarded.rollback id index).body.Yields service.Safe fun _ => True
    refine yields_bind (yields_perform trivial) fun _ _ => ?_
    exact yields_bind (yields_perform trivial) fun _ _ => trivial
  | reset id =>
    change (Guarded.reset id).body.Yields service.Safe fun _ => True
    exact yields_bind (yields_perform trivial) fun _ _ => trivial
  | versions id =>
    change (summarizing id).Yields service.Safe fun _ => True
    exact yields_bind (yields_perform trivial) fun _ _ => trivial
  | snapshot id =>
    change (snapshotting id).Yields service.Safe fun _ => True
    exact yields_bind (yields_perform trivial) fun _ _ => trivial

/-- A call adds no version that is not sound. -/
theorem all_sound_perform (call : Call) {state : State} (all : state.store.All service.Sound) :
    Store.All service.Sound (service.perform call state).2.store :=
  all_job_run (yields_job service call) all

/-- A state that calls can lead to. Before each call everything but the store may be as it
likes: what the oracle will answer and how fast, which uses of the store fail, the clock,
the locks. -/
inductive Reachable : State → Prop
  | start {state : State} (empty : state.store = .empty) : Reachable state
  | world {state other : State} (reachable : Reachable state) (same : other.store = state.store) :
      Reachable other
  | call {state : State} (reachable : Reachable state) (call : Call) :
      Reachable (service.perform call state).2

theorem all_sound_of_reachable {state : State} (reachable : service.Reachable state) :
    state.store.All service.Sound := by
  induction reachable with
  | start empty =>
    rw [empty]
    intro entry inside
    cases inside
  | world _ same step =>
    rw [same]
    exact step
  | call _ call step => exact all_sound_perform service call step

/-- In every reachable state, every version of every session passes the validator, holds
what the compiler makes of its plan, and renders to a tree if its plan holds no doubles. -/
theorem stored_versions_valid {strict : Bool} {timeout : Nat} {state : State}
    (reachable : Reachable ⟨.standard, strict, timeout⟩ state) :
    ∀ entry ∈ state.store, ∀ version ∈ entry.2.versions,
      Check.violations .standard strict version.plan = [] ∧
        version.code = (Program.compile .standard version.plan).code ∧
          version.usedComponents = (Program.compile .standard version.plan).usedComponents ∧
            (version.plan.Integral → ∃ tree, Engine.standard.render version.code = .ok (.tree tree)) := by
  intro entry inside version member
  obtain ⟨⟨valid, regular⟩, code, used⟩ := all_sound_of_reachable _ reachable entry inside version member
  refine ⟨valid, code, used, fun integral => ?_⟩
  rw [code]
  exact Engine.render_compile regular integral

def titled : Plan := ⟨some (.element "Card" [("title", .str "A")] [.text "x"])⟩

private theorem valid_titled : Check.violations .standard true titled = [] := by
  have known : Registry.standard.contains "Card" = true := by decide
  have strict : Check.propViolations .standard titled = [] := by decide
  rw [Check.violations, if_pos rfl, strict]
  simp [Check.structureViolations, titled, Check.nodeViolations, Check.childViolations,
    Check.typeViolations, known]

/-- After a generation whose answer is a card with a title, the card is stored and can be shown. -/
theorem stored_versions_valid_titled : ∃ state, Reachable ⟨.standard, true, 1000⟩ state ∧
    ∃ entry ∈ state.store, ∃ version ∈ entry.2.versions, version.plan = titled ∧
      Check.violations .standard true version.plan = [] ∧
        version.code = (Program.compile .standard version.plan).code ∧
          version.usedComponents = (Program.compile .standard version.plan).usedComponents ∧
            ∃ tree, Engine.standard.render version.code = .ok (.tree tree) := by
  let service : Service := ⟨.standard, true, 1000⟩
  let start : State := { answers := [.ok ("\x7b\"layout\":\x7b\"type\":\"Card\"," ++
    "\"props\":\x7b\"title\":\"A\"\x7d,\"children\":[\"x\"]\x7d\x7d"), .ok "A card."] }
  have reachable : service.Reachable (service.perform (.generate "a" "b") start).2 :=
    .call (.start rfl) (.generate "a" "b")
  have admitted : Prompt.objection? "b" = none := by decide +kernel
  have offered : service.Offers (start.hears service.timeout 0) titled := by
    refine ⟨_, rfl, ?_, valid_titled⟩
    simp only [String.toList_append, String.reduceToList]
    rfl
  obtain ⟨time, stored⟩ := committed_of_offer "a" admitted rfl rfl offered rfl
  refine ⟨_, reachable, _, Table.mem_of_get? stored, _, List.mem_singleton.mpr rfl, rfl, ?_⟩
  obtain ⟨valid, code, used, shows⟩ := stored_versions_valid reachable _ (Table.mem_of_get? stored) _
    (List.mem_singleton.mpr rfl)
  have integral : titled.Integral := by
    simp [Plan.Integral, titled, Plan.elements, Plan.Node.elements, Plan.Node.elementsOf,
      Json.isIntegral, Json.every, Json.isWhole]
  exact ⟨valid, code, used, shows integral⟩

end UiPlan.Service
