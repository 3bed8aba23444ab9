/-! Tables that keep the order in which their keys were first inserted. Inserting
under a key that is already there replaces the value where it stands. The view
of a table is `get?`; each operation has one lemma about it.
-/
namespace UiPlan

abbrev Table (κ : Type) (α : Type u) := List (κ × α)

namespace Table

variable {κ : Type} {α : Type u} [DecidableEq κ]

def get? : Table κ α → κ → Option α
  | [], _ => none
  | (k, value) :: rest, key => if k = key then some value else get? rest key

def insert : Table κ α → κ → α → Table κ α
  | [], key, value => [(key, value)]
  | (k, old) :: rest, key, value =>
    if k = key then (k, value) :: rest else (k, old) :: insert rest key value

def erase : Table κ α → κ → Table κ α
  | [], _ => []
  | (k, value) :: rest, key =>
    if k = key then erase rest key else (k, value) :: erase rest key

def keys (table : Table κ α) : List κ := table.map Prod.fst

def has (table : Table κ α) (key : κ) : Bool := (table.get? key).isSome

def ofEntries (entries : List (κ × α)) : Table κ α :=
  entries.foldl (fun table entry => insert table entry.1 entry.2) []

@[simp] theorem get?_nil (key : κ) : get? ([] : Table κ α) key = none := rfl

theorem get?_insert (table : Table κ α) (key other : κ) (value : α) :
    (table.insert key value).get? other = if key = other then some value else table.get? other := by
  induction table with
  | nil => rfl
  | cons entry rest step =>
    obtain ⟨k, old⟩ := entry
    by_cases same : k = key
    · subst same
      by_cases here : k = other <;> simp [insert, get?, here]
    · by_cases here : k = other
      · subst here
        simp [insert, get?, same, Ne.symm same]
      · simp [insert, get?, same, here, step]

theorem get?_erase (table : Table κ α) (key other : κ) :
    (table.erase key).get? other = if key = other then none else table.get? other := by
  induction table with
  | nil => simp [erase]
  | cons entry rest step =>
    obtain ⟨k, old⟩ := entry
    by_cases same : k = key
    · subst same
      by_cases here : k = other
      · subst here
        simpa [erase] using step
      · simpa [erase, get?, here] using step
    · by_cases here : k = other
      · subst here
        simp [erase, get?, same, Ne.symm same]
      · simp [erase, get?, same, here, step]

theorem has_iff_mem_keys (table : Table κ α) (key : κ) :
    table.has key = true ↔ key ∈ table.keys := by
  induction table with
  | nil => simp [has, keys]
  | cons entry rest step =>
    obtain ⟨k, old⟩ := entry
    by_cases same : k = key
    · simp [has, keys, get?, same]
    · simp only [has, keys, get?, same, if_false, List.map_cons, List.mem_cons] at step ⊢
      rw [step]
      simp [Ne.symm same]

theorem keys_insert (table : Table κ α) (key : κ) (value : α) :
    (table.insert key value).keys = if key ∈ table.keys then table.keys else table.keys ++ [key] := by
  induction table with
  | nil => rfl
  | cons entry rest step =>
    obtain ⟨k, old⟩ := entry
    simp only [keys] at step
    by_cases same : k = key
    · simp [insert, keys, same]
    · by_cases member : key ∈ rest.map Prod.fst <;>
        simp [insert, keys, same, step, member, Ne.symm same]

end Table

end UiPlan
