import UiPlan.Table

/-! Tables whose keys are distinct. A table that was built by inserting never holds a key
twice, and entries with distinct keys are a table as they stand.
-/
namespace UiPlan.Table

variable {κ : Type} {α : Type u} [DecidableEq κ]

theorem nodup_keys_insert {table : Table κ α} (distinct : table.keys.Nodup) (key : κ) (value : α) :
    (table.insert key value).keys.Nodup := by
  rw [keys_insert]
  split
  · exact distinct
  · rename_i absent
    rw [List.nodup_append]
    exact ⟨distinct, by simp, by simp; rintro k inside rfl; exact absent inside⟩

theorem mem_insert {table : Table κ α} {key : κ} {value : α} {entry : κ × α}
    (inside : entry ∈ table.insert key value) : entry = (key, value) ∨ entry ∈ table := by
  induction table with
  | nil => exact .inl (List.mem_singleton.mp inside)
  | cons head rest step =>
    obtain ⟨k, old⟩ := head
    by_cases same : k = key
    · simp only [insert, same, if_true, List.mem_cons] at inside ⊢
      rcases inside with rfl | there
      · exact .inl rfl
      · exact .inr (.inr there)
    · simp only [insert, same, if_false, List.mem_cons] at inside ⊢
      rcases inside with here | there
      · exact .inr (.inl here)
      · exact (step there).imp_right .inr

theorem mem_of_get? {table : Table κ α} {key : κ} {value : α} (found : table.get? key = some value) :
    (key, value) ∈ table := by
  induction table with
  | nil => cases found
  | cons head rest step =>
    obtain ⟨k, old⟩ := head
    by_cases same : k = key
    · subst same
      simp only [get?, if_true, Option.some.injEq] at found
      simp [found]
    · simp only [get?, same, if_false] at found
      exact List.mem_cons_of_mem _ (step found)

theorem insert_of_get? {table : Table κ α} {key : κ} {value : α} (found : table.get? key = some value) :
    table.insert key value = table := by
  induction table with
  | nil => cases found
  | cons head rest step =>
    obtain ⟨k, old⟩ := head
    by_cases same : k = key
    · simp only [get?, same, if_true, Option.some.injEq] at found
      simp [insert, same, found]
    · simp only [get?, same, if_false] at found
      simp [insert, same, step found]

theorem mem_of_mem_erase {table : Table κ α} {key : κ} {entry : κ × α}
    (inside : entry ∈ table.erase key) : entry ∈ table := by
  induction table with
  | nil => cases inside
  | cons head rest step =>
    obtain ⟨k, old⟩ := head
    unfold erase at inside
    split at inside
    · exact List.mem_cons_of_mem _ (step inside)
    · exact (List.mem_cons.mp inside).elim (fun same => by simp [same])
        fun there => List.mem_cons_of_mem _ (step there)

private def insertAll (entries : List (κ × α)) (table : Table κ α) : Table κ α :=
  entries.foldl (fun table entry => insert table entry.1 entry.2) table

theorem nodup_keys_ofEntries (entries : List (κ × α)) : (ofEntries entries).keys.Nodup := by
  have kept : ∀ table : Table κ α, table.keys.Nodup → (insertAll entries table).keys.Nodup := by
    induction entries with
    | nil => exact fun _ distinct => distinct
    | cons entry rest step => exact fun table distinct => step _ (nodup_keys_insert distinct _ _)
  exact kept [] .nil

theorem mem_ofEntries {entries : List (κ × α)} {entry : κ × α} (inside : entry ∈ ofEntries entries) :
    entry ∈ entries := by
  have kept : ∀ table : Table κ α, entry ∈ insertAll entries table → entry ∈ table ∨ entry ∈ entries := by
    clear inside
    induction entries with
    | nil => exact fun _ here => .inl here
    | cons head rest step =>
      intro table here
      rcases step (table.insert head.1 head.2) here with there | later
      · exact (mem_insert there).symm.imp_right fun same => by simp [same]
      · exact .inr (List.mem_cons_of_mem _ later)
  exact (kept [] inside).resolve_left (by simp)

/-- Of a repeated key the last value counts. -/
theorem get?_ofEntries (entries : List (κ × α)) (key : κ) :
    (ofEntries entries).get? key = (entries.reverse.find? (·.1 = key)).map Prod.snd := by
  have kept : ∀ table : Table κ α, (insertAll entries table).get? key =
      ((entries.reverse.find? (·.1 = key)).map Prod.snd).or (table.get? key) := by
    induction entries with
    | nil => exact fun _ => rfl
    | cons head rest step =>
      intro table
      have next := step (table.insert head.1 head.2)
      rw [get?_insert] at next
      rw [List.reverse_cons, List.find?_append]
      refine next.trans ?_
      by_cases same : head.1 = key <;> cases rest.reverse.find? (·.1 = key) <;> simp [same]
  have whole := kept []
  rw [get?_nil, Option.or_none] at whole
  exact whole

theorem insert_of_not_mem {table : Table κ α} {key : κ} (absent : key ∉ table.keys) (value : α) :
    table.insert key value = table ++ [(key, value)] := by
  induction table with
  | nil => rfl
  | cons head rest step =>
    obtain ⟨k, old⟩ := head
    simp only [keys, List.map_cons, List.mem_cons, not_or] at absent step
    simp [insert, Ne.symm absent.1, step absent.2]

/-- Entries of different keys are a table as they stand. -/
theorem ofEntries_of_nodup {entries : List (κ × α)} (distinct : (keys entries).Nodup) :
    ofEntries entries = entries := by
  have kept : ∀ table : Table κ α, (keys (table ++ entries)).Nodup →
      insertAll entries table = table ++ entries := by
    clear distinct
    induction entries with
    | nil => exact fun table _ => (List.append_nil table).symm
    | cons head rest step =>
      intro table distinct
      have absent : head.1 ∉ keys table := by
        intro inside
        simp only [keys, List.map_append, List.map_cons] at distinct inside
        exact (List.nodup_append.mp distinct).2.2 _ inside _ (by simp) rfl
      have next := step (table.insert head.1 head.2)
      rw [insert_of_not_mem absent, List.append_assoc, List.singleton_append] at next
      rw [← next distinct, insertAll, List.foldl_cons, insert_of_not_mem absent]
      rfl
  exact kept [] distinct

end UiPlan.Table
