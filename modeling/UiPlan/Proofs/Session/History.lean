import UiPlan.Session.Store
import UiPlan.Proofs.Table

/-! The history of a session. What a session holds is determined by the operations on it:
the commits since its last reset, and which of them the last commit or rollback that
succeeded made live. These two are read off the operations alone, in a ledger, and every
operation on the store keeps each session in step with its ledger.
-/
namespace UiPlan

namespace Store

open Session (Draft Error Outcome Snapshot Turn Version shownIndex)

inductive Operation where
  | getOrCreate (id : String)
  | commit (id : String) (draft : Draft) (time : Timestamp)
  | rollback (id : String) (index : Int)
  | reset (id : String)
  | summarize (id : String)
  | snapshot (id : String)

def Operation.apply : Operation → Store → Store
  | .getOrCreate id, store => (store.getOrCreate id).2
  | .commit id draft time, store => (store.commit id draft time).2
  | .rollback id index, store => (store.rollback id index).2
  | .reset id, store => store.reset id
  | .summarize id, store => (store.summaries id).2
  | .snapshot id, store => (store.snapshot id).2

def after (operations : List Operation) : Store :=
  operations.foldl (fun store operation => operation.apply store) .empty

structure Ledger where
  commits : List (Draft × Timestamp)
  live : Option Nat

namespace Ledger

def empty : Ledger := ⟨[], none⟩

def enter (id : String) (ledger : Ledger) : Operation → Ledger
  | .commit other draft time =>
    if other = id then ⟨ledger.commits ++ [(draft, time)], some ledger.commits.length⟩ else ledger
  | .rollback other index =>
    if other = id ∧ 0 ≤ index ∧ index < ledger.commits.length then
      { ledger with live := some index.toNat }
    else ledger
  | .reset other => if other = id then empty else ledger
  | _ => ledger

def of (id : String) (operations : List Operation) : Ledger := operations.foldl (enter id) empty

def versions (ledger : Ledger) : List Version :=
  ledger.commits.mapIdx fun index commit => commit.1.version index commit.2

def history (ledger : Ledger) : List Turn :=
  ledger.commits.flatMap fun commit => [⟨.user, commit.1.prompt⟩,
    ⟨.assistant, "Generated UI based on: \"" ++ commit.1.prompt ++ "\""⟩]

def live? (ledger : Ledger) : Option Version := ledger.live.bind fun index => ledger.versions[index]?

end Ledger

/-- The session that exists, or would be made, under a name. -/
def sessionOf (store : Store) (id : String) : Session := (Table.get? store id).getD (.new id)

theorem sessionOf_insert (store : Store) (id other : String) (session : Session) :
    sessionOf (Table.insert store id session) other =
      if id = other then session else store.sessionOf other := by
  unfold sessionOf
  rw [Table.get?_insert]
  split <;> rfl

theorem ensure_eq (store : Store) (id : String) :
    (store.ensure id).1 = store.sessionOf id ∧
      ∀ other, sessionOf (store.ensure id).2 other = store.sessionOf other := by
  unfold ensure
  split
  · rename_i session found
    exact ⟨by simp [sessionOf, found], fun _ => rfl⟩
  · rename_i absent
    refine ⟨by simp [sessionOf, absent], fun other => ?_⟩
    rw [sessionOf_insert]
    split
    · rename_i same
      simp [sessionOf, ← same, absent]
    · rfl

theorem getOrCreate_eq (store : Store) (id : String) : store.getOrCreate id = store.ensure id := by
  unfold getOrCreate
  split
  · rename_i session found
    simp [ensure, found]
  · rfl

theorem summaries_eq (store : Store) (id : String) :
    (store.summaries id).1 = (store.sessionOf id).summaries :=
  congrArg Session.summaries (store.ensure_eq id).1

theorem snapshot_eq (store : Store) (id : String) :
    (store.snapshot id).1 = (store.sessionOf id).snapshot :=
  congrArg Session.snapshot (store.ensure_eq id).1

theorem commit_eq (store : Store) (id : String) (draft : Draft) (time : Timestamp) :
    (store.commit id draft time).1 = ((store.sessionOf id).commit draft time).1 ∧
      ∀ other, sessionOf (store.commit id draft time).2 other =
        if id = other then ((store.sessionOf id).commit draft time).2 else store.sessionOf other := by
  obtain ⟨own, others⟩ := store.ensure_eq id
  unfold commit
  rw [← own]
  refine ⟨rfl, fun other => ?_⟩
  rw [sessionOf_insert]
  split
  · rfl
  · exact others other

theorem rollback_of_none {store : Store} {id : String} {index : Int}
    (absent : (store.sessionOf id).version? index = none) :
    store.rollback id index =
      (.error (.versionOutOfRange index (store.sessionOf id).versions.length), store) := by
  unfold rollback
  split
  · rename_i unknown
    simp [sessionOf, unknown, Session.new]
  · rename_i session found
    have known : store.sessionOf id = session := by simp [sessionOf, found]
    rw [known] at absent ⊢
    simp only [Session.rollback, absent, Table.insert_of_get? found]

theorem rollback_of_some {store : Store} {id : String} {index : Int} {version : Version}
    (present : (store.sessionOf id).version? index = some version) :
    store.rollback id index =
      (.ok ⟨version, (store.sessionOf id).versions.length⟩,
        Table.insert store id { store.sessionOf id with
          livePlan := some version.plan
          liveVersion := some version.index }) := by
  unfold rollback
  split
  · rename_i unknown
    simp [sessionOf, unknown, Session.new, Session.version?] at present
  · rename_i session found
    have known : store.sessionOf id = session := by simp [sessionOf, found]
    rw [known] at present ⊢
    simp only [Session.rollback, present]

private theorem sessionOf_rollback_of_ne {store : Store} {id other : String} (different : other ≠ id)
    (index : Int) : sessionOf (store.rollback other index).2 id = store.sessionOf id := by
  cases found : (store.sessionOf other).version? index with
  | none => rw [rollback_of_none found]
  | some version => rw [rollback_of_some found, sessionOf_insert, if_neg different]

theorem length_versions (ledger : Ledger) : ledger.versions.length = ledger.commits.length := by
  simp [Ledger.versions]

theorem getElem?_versions (ledger : Ledger) (index : Nat) :
    ledger.versions[index]? = ledger.commits[index]?.map fun commit => commit.1.version index commit.2 := by
  simp [Ledger.versions]

structure Ledger.Describes (ledger : Ledger) (session : Session) : Prop where
  versions : session.versions = ledger.versions
  history : session.history = ledger.history
  liveVersion : session.liveVersion = ledger.live
  livePlan : session.livePlan = ledger.live?.map Version.plan
  bound : ∀ index, ledger.live = some index → index < ledger.commits.length
  started : ledger.live = none → ledger.commits = []

namespace Ledger.Describes

variable {ledger : Ledger} {session : Session}

theorem new (id : String) : Ledger.empty.Describes (.new id) where
  versions := rfl
  history := rfl
  liveVersion := rfl
  livePlan := rfl
  bound := by simp [Ledger.empty]
  started := fun _ => rfl

theorem version?_of_commits (describes : ledger.Describes session) {index : Nat}
    {draft : Draft} {time : Timestamp} (committed : ledger.commits[index]? = some (draft, time)) :
    session.version? index = some (draft.version index time) := by
  rw [Session.version?, if_pos (Int.natCast_nonneg index), describes.versions, Int.toNat_natCast,
    getElem?_versions, committed, Option.map_some]

theorem version?_outside (describes : ledger.Describes session) {index : Int}
    (outside : ¬(0 ≤ index ∧ index < ledger.commits.length)) : session.version? index = none := by
  rw [Session.version?, describes.versions]
  split
  · rename_i low
    rw [List.getElem?_eq_none_iff, length_versions]
    omega
  · rfl

theorem commit (describes : ledger.Describes session) (draft : Draft) (time : Timestamp) :
    Ledger.Describes ⟨ledger.commits ++ [(draft, time)], some ledger.commits.length⟩
      (session.commit draft time).2 where
  versions := by
    simp [Session.commit, describes.versions, Ledger.versions, List.mapIdx_append]
  history := by
    simp [Session.commit, describes.history, Ledger.history, Session.turns]
  liveVersion := by
    simp [Session.commit, describes.versions, length_versions, Session.Draft.version]
  livePlan := by
    simp [Session.commit, Ledger.live?, getElem?_versions, Session.Draft.version]
  bound := by simp
  started := by simp

theorem rollback (describes : ledger.Describes session) {index : Nat} {draft : Draft}
    {time : Timestamp} (committed : ledger.commits[index]? = some (draft, time)) :
    Ledger.Describes { ledger with live := some index }
      { session with livePlan := some draft.plan, liveVersion := some index } where
  versions := describes.versions
  history := describes.history
  liveVersion := rfl
  livePlan := by
    rw [Ledger.live?, Option.bind_some]
    change _ = Option.map Version.plan ledger.versions[index]?
    rw [getElem?_versions, committed]
    rfl
  bound := by
    intro other same
    obtain rfl := Option.some.inj same
    exact (List.getElem?_eq_some_iff.mp committed).1
  started := by simp

end Ledger.Describes

private theorem describes_rollback {ledger : Ledger} {store : Store} {id : String}
    (describes : ledger.Describes (store.sessionOf id)) (index : Int) :
    (ledger.enter id (.rollback id index)).Describes (sessionOf (store.rollback id index).2 id) := by
  rw [Ledger.enter]
  by_cases valid : 0 ≤ index ∧ index < ledger.commits.length
  · -- Only an index of a commit moves the ledger, and only that one is a version.
    obtain ⟨place, rfl⟩ := Int.eq_ofNat_of_zero_le valid.1
    have inside : place < ledger.commits.length := Int.ofNat_lt.mp valid.2
    have committed := List.getElem?_eq_getElem inside
    rw [if_pos ⟨rfl, valid⟩, rollback_of_some (describes.version?_of_commits committed),
      sessionOf_insert, if_pos rfl]
    exact describes.rollback committed
  · rw [if_neg fun both => valid both.2, rollback_of_none (describes.version?_outside valid)]
    exact describes

/-- An operation keeps the ledger in step with the session, whichever of the two it is about. -/
theorem describes_apply {ledger : Ledger} {store : Store} {id : String}
    (describes : ledger.Describes (store.sessionOf id)) (operation : Operation) :
    (ledger.enter id operation).Describes (sessionOf (operation.apply store) id) := by
  cases operation with
  | getOrCreate other =>
    rw [Operation.apply, getOrCreate_eq, (store.ensure_eq other).2]
    exact describes
  | summarize other =>
    rw [Operation.apply, summaries, (store.ensure_eq other).2]
    exact describes
  | snapshot other =>
    rw [Operation.apply, snapshot, (store.ensure_eq other).2]
    exact describes
  | commit other draft time =>
    rw [Operation.apply, (store.commit_eq other draft time).2, Ledger.enter]
    split
    · rename_i same
      rw [same]
      exact describes.commit draft time
    · exact describes
  | reset other =>
    rw [Operation.apply, reset, sessionOf, Table.get?_erase, Ledger.enter]
    split
    · exact .new id
    · exact describes
  | rollback other index =>
    rw [Operation.apply]
    by_cases same : other = id
    · subst same
      exact describes_rollback describes index
    · rw [Ledger.enter, if_neg fun both => same both.1, sessionOf_rollback_of_ne same]
      exact describes

/-- After any operations every session is in step with its ledger. -/
theorem describes_after (operations : List Operation) (id : String) :
    (Ledger.of id operations).Describes ((after operations).sessionOf id) := by
  -- The ledger and the store go through the operations side by side, from any start.
  have run : ∀ {ledger : Ledger} {store : Store}, ledger.Describes (store.sessionOf id) →
      (operations.foldl (Ledger.enter id) ledger).Describes
        (sessionOf (operations.foldl (fun store operation => operation.apply store) store) id) := by
    induction operations with
    | nil => exact fun describes => describes
    | cons operation rest step => exact fun describes => step (describes_apply describes operation)
  exact run (.new id)

theorem Ledger.Describes.live? {ledger : Ledger} {session : Session}
    (describes : ledger.Describes session) : session.live? = ledger.live? := by
  rw [Session.live?, Ledger.live?, describes.liveVersion, describes.versions]

end Store

end UiPlan
