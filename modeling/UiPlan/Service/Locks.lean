import UiPlan.Table

/-! The locks of sessions. A call takes the lock that is entered for its session, or enters
a new one, and holds a reference to it. Whoever joins a lock draws a ticket, and tickets
are served in order. An entry may be taken out while calls still hold its lock; a later
call then enters another lock for the same session, so locks are told apart by number.
-/
namespace UiPlan.Service

structure Mutex where
  references : Nat
  issued : Nat
  served : Nat
  deriving DecidableEq, Repr

def Mutex.idle : Mutex := ⟨0, 0, 0⟩

structure Locks where
  entries : Table String Nat
  mutexes : Table Nat Mutex
  next : Nat

namespace Locks

def none : Locks := ⟨[], [], 0⟩

def mutex (locks : Locks) (lock : Nat) : Mutex := (Table.get? locks.mutexes lock).getD .idle

def set (locks : Locks) (lock : Nat) (mutex : Mutex) : Locks :=
  { locks with mutexes := Table.insert locks.mutexes lock mutex }

def enter (locks : Locks) (id : String) : Nat × Locks :=
  match Table.get? locks.entries id with
  | some lock => (lock, locks)
  | .none =>
    (locks.next, { locks with
      entries := Table.insert locks.entries id locks.next
      next := locks.next + 1 })

def refer (locks : Locks) (id : String) : Nat × Locks :=
  let (lock, locks) := locks.enter id
  let mutex := locks.mutex lock
  (lock, locks.set lock { mutex with references := mutex.references + 1 })

def join (locks : Locks) (lock : Nat) : Nat × Locks :=
  let mutex := locks.mutex lock
  (mutex.issued, locks.set lock { mutex with issued := mutex.issued + 1 })

def isTurn (locks : Locks) (lock ticket : Nat) : Bool := (locks.mutex lock).served = ticket

/-- Takes the entry of a session out if it still is this lock and nobody but the caller
holds a reference. -/
def release (locks : Locks) (id : String) (lock : Nat) : Locks :=
  if Table.get? locks.entries id = some lock ∧ (locks.mutex lock).references ≤ 1 then
    { locks with entries := Table.erase locks.entries id }
  else locks

def unlock (locks : Locks) (lock : Nat) : Locks :=
  let mutex := locks.mutex lock
  locks.set lock { mutex with served := mutex.served + 1 }

def drop (locks : Locks) (lock : Nat) : Locks :=
  let mutex := locks.mutex lock
  if mutex.references ≤ 1 then { locks with mutexes := Table.erase locks.mutexes lock }
  else locks.set lock { mutex with references := mutex.references - 1 }

end Locks

end UiPlan.Service
