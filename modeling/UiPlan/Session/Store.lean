import UiPlan.Session.Basic
import UiPlan.Table

/-! The store of sessions by name. A session comes into being when it is first looked for,
except by a rollback, which leaves unknown names unknown. Looking for a session is two
steps, since between the look and the making of a new session others may act.
-/
namespace UiPlan

abbrev Store := Table String Session

namespace Store

open Session (Draft Error Outcome Snapshot Summary)

def empty : Store := []

def ensure (store : Store) (id : String) : Session × Store :=
  match store.get? id with
  | some session => (session, store)
  | none => (.new id, store.insert id (.new id))

def getOrCreate (store : Store) (id : String) : Session × Store :=
  match store.get? id with
  | some session => (session, store)
  | none => store.ensure id

def commit (store : Store) (id : String) (draft : Draft) (time : Timestamp) : Outcome × Store :=
  let (session, store) := store.ensure id
  let (outcome, session) := session.commit draft time
  (outcome, store.insert id session)

def rollback (store : Store) (id : String) (index : Int) : Except Error Outcome × Store :=
  match store.get? id with
  | none => (.error (.versionOutOfRange index 0), store)
  | some session =>
    let (result, session) := session.rollback index
    (result, store.insert id session)

def reset (store : Store) (id : String) : Store := store.erase id

def summaries (store : Store) (id : String) : List Summary × Store :=
  let (session, store) := store.ensure id
  (session.summaries, store)

def snapshot (store : Store) (id : String) : Snapshot × Store :=
  let (session, store) := store.ensure id
  (session.snapshot, store)

def size (store : Store) : Nat := store.length

end Store

end UiPlan
