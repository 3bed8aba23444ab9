import Mathlib.Data.List.Basic
import Mathlib.Data.List.Induction
import UiPlan.Proofs.Table
import UiPlan.Registry.Indexed

/-! The registry that is built from a list of declarations. It holds each name once, in the
order in which the names first occur, and under each name the last declaration of it. The
registry with an index is this one with the places of its names beside it: building it
meets no fault, and it answers every lookup as the plain registry does.
-/
namespace UiPlan

namespace Registry

/-- A declaration goes to the first place of its name, or to the end. -/
theorem place_eq (spec : ComponentSpec) (placed : List ComponentSpec) :
    place spec placed = if spec.name ∈ placed.map (·.name)
      then placed.set ((placed.map (·.name)).idxOf spec.name) spec else placed ++ [spec] := by
  induction placed with
  | nil => rfl
  | cons old rest step =>
    by_cases same : old.name = spec.name
    · simp [place, same]
    · rw [place, if_neg same, step]
      by_cases inside : spec.name ∈ rest.map (·.name)
      · simp [inside, List.idxOf_cons_ne _ same]
      · simp [inside, Ne.symm same]

theorem names_place (spec : ComponentSpec) (placed : List ComponentSpec) :
    (place spec placed).map (·.name) = if spec.name ∈ placed.map (·.name)
      then placed.map (·.name) else placed.map (·.name) ++ [spec.name] := by
  induction placed with
  | nil => rfl
  | cons old rest step =>
    by_cases same : old.name = spec.name
    · simp [place, same]
    · rw [place, if_neg same, List.map_cons, step]
      by_cases inside : spec.name ∈ rest.map (·.name) <;> simp [inside, Ne.symm same]

private theorem find?_place (spec : ComponentSpec) (placed : List ComponentSpec) (name : String) :
    (place spec placed).find? (·.name = name) =
      if spec.name = name then some spec else placed.find? (·.name = name) := by
  induction placed with
  | nil => by_cases here : spec.name = name <;> simp [place, here]
  | cons old rest step =>
    by_cases same : old.name = spec.name
    · by_cases here : spec.name = name <;> simp [place, same, here]
    · rw [place, if_neg same, List.find?_cons, step]
      by_cases here : spec.name = name
      · have other : old.name ≠ name := fun found => same (found.trans here.symm)
        simp [here, other]
      · by_cases found : old.name = name <;> simp [here, found]

theorem components_ofList_concat (specs : List ComponentSpec) (spec : ComponentSpec) :
    (ofList (specs ++ [spec])).components = place spec (ofList specs).components := by
  simp [ofList]

theorem mem_names_ofList (specs : List ComponentSpec) (name : String) :
    name ∈ (ofList specs).names ↔ name ∈ specs.map (·.name) := by
  induction specs using List.reverseRecOn with
  | nil => rfl
  | append_singleton specs spec step =>
    rw [names] at step
    rw [names, components_ofList_concat, names_place]
    split
    · rename_i known
      have old : spec.name ∈ (ofList specs).names := known
      rw [step, List.map_append, List.mem_append]
      refine (or_iff_left_of_imp fun last => ?_).symm
      obtain rfl : name = spec.name := by simpa using last
      exact step.mp known
    · rw [List.mem_append, step]
      simp

/-- The names stand in the order of their first occurrence. -/
theorem names_ofList_ordered (specs : List ComponentSpec) :
    (ofList specs).names.Pairwise fun earlier later =>
      (specs.map (·.name)).idxOf earlier < (specs.map (·.name)).idxOf later := by
  induction specs using List.reverseRecOn with
  | nil => exact .nil
  | append_singleton specs spec step =>
    have occurs : ∀ name ∈ (ofList specs).names, name ∈ specs.map (·.name) := fun name =>
      (mem_names_ofList specs name).mp
    have stays : ∀ name ∈ (ofList specs).names,
        ((specs ++ [spec]).map (·.name)).idxOf name = (specs.map (·.name)).idxOf name := by
      intro name inside
      rw [List.map_append, List.idxOf_append_of_mem (occurs name inside)]
    have before : (ofList specs).names.Pairwise fun earlier later =>
        ((specs ++ [spec]).map (·.name)).idxOf earlier <
          ((specs ++ [spec]).map (·.name)).idxOf later := by
      refine step.imp_of_mem fun first second less => ?_
      rw [stays _ first, stays _ second]
      exact less
    rw [names, components_ofList_concat, names_place]
    split
    · exact before
    · rename_i new
      have absent : spec.name ∉ specs.map (·.name) := fun inside =>
        new ((mem_names_ofList specs spec.name).mpr inside)
      refine List.pairwise_append.mpr ⟨before, List.pairwise_singleton _ _, fun name inside last => ?_⟩
      intro same
      obtain rfl := List.mem_singleton.mp same
      have here : ((specs ++ [spec]).map (·.name)).idxOf spec.name = specs.length := by
        rw [List.map_append, List.idxOf_append_of_notMem absent]
        simp
      rw [stays name inside, here]
      simpa using List.idxOf_lt_length_of_mem (occurs name inside)

theorem nodup_names_ofList (specs : List ComponentSpec) : (ofList specs).names.Nodup :=
  (names_ofList_ordered specs).imp fun less same => by simp [same] at less

/-- Under a name stands its last declaration. -/
theorem get?_ofList (specs : List ComponentSpec) (name : String) :
    (ofList specs).get? name = specs.reverse.find? (·.name = name) := by
  induction specs using List.reverseRecOn with
  | nil => rfl
  | append_singleton specs spec step =>
    rw [get?] at step
    rw [get?, components_ofList_concat, find?_place, step, List.reverse_append]
    by_cases here : spec.name = name <;> simp [here]

/-- Declarations of different names are a registry as they stand. -/
theorem ofList_of_nodup {specs : List ComponentSpec} (distinct : (specs.map (·.name)).Nodup) :
    ofList specs = ⟨specs⟩ := by
  induction specs using List.reverseRecOn with
  | nil => rfl
  | append_singleton specs spec step =>
    rw [List.map_append, List.nodup_append] at distinct
    have absent : spec.name ∉ specs.map (·.name) := fun inside =>
      distinct.2.2 _ inside _ (List.mem_singleton.mpr rfl) rfl
    have added := components_ofList_concat specs spec
    rw [step distinct.1, place_eq, if_neg absent] at added
    exact congrArg Registry.mk added

/-- The declaration of a name stands at the place of the name. -/
theorem get?_eq_getElem? (registry : Registry) (name : String) :
    registry.get? name = registry.components[registry.names.idxOf name]? := by
  obtain ⟨components⟩ := registry
  induction components with
  | nil => rfl
  | cons spec rest step =>
    by_cases here : spec.name = name
    · simp [get?, names, here]
    · simp only [get?, names] at step
      simp [get?, names, here, step, List.idxOf_cons_ne _ here]

def indexed (registry : Registry) : IndexedRegistry := ⟨registry.components, registry.names.zipIdx⟩

end Registry

namespace Table

private theorem get?_zipIdx (names : List String) (name : String) (start : Nat) :
    get? (names.zipIdx start) name =
      if name ∈ names then some (start + names.idxOf name) else none := by
  induction names generalizing start with
  | nil => rfl
  | cons first rest step =>
    by_cases here : first = name
    · simp [get?, here]
    · have later : (first :: rest).idxOf name = rest.idxOf name + 1 := List.idxOf_cons_ne _ here
      rw [List.zipIdx_cons, get?, if_neg here, step, later, Nat.add_right_comm]
      simp [Ne.symm here, Nat.add_assoc]

end Table

namespace IndexedRegistry

open Registry (indexed)

/-- What the index adds stays in step with the declarations. -/
theorem register_indexed (registry : Registry) (spec : ComponentSpec) :
    registry.indexed.register spec = .ok (indexed ⟨Registry.place spec registry.components⟩) := by
  have names := Registry.names_place spec registry.components
  have placed := Registry.place_eq spec registry.components
  have found := Table.get?_zipIdx (registry.components.map (·.name)) spec.name 0
  by_cases known : spec.name ∈ registry.components.map (·.name)
  · have inside : (registry.components.map (·.name)).idxOf spec.name < registry.components.length := by
      simpa using List.idxOf_lt_length_of_mem known
    rw [if_pos known] at found names placed
    rw [Nat.zero_add] at found
    rw [register, indexed, indexed, Registry.names, Registry.names, found, names, placed]
    exact if_pos inside
  · have absent : spec.name ∉ Table.keys (registry.components.map (·.name)).zipIdx := by
      rwa [Table.keys, List.zipIdx_map_fst]
    rw [if_neg known] at found names placed
    rw [register, indexed, indexed, Registry.names, Registry.names, found, names, placed]
    simp [Table.insert_of_not_mem absent, List.zipIdx_append]

theorem ofList_eq (specs : List ComponentSpec) : ofList specs = .ok (Registry.ofList specs).indexed := by
  induction specs using List.reverseRecOn with
  | nil => rfl
  | append_singleton specs spec step =>
    rw [ofList] at step
    have added := register_indexed (Registry.ofList specs) spec
    rw [← Registry.components_ofList_concat] at added
    rw [ofList, List.foldlM_append, step]
    exact congrArg (· >>= pure) added

theorem get?_indexed (registry : Registry) (name : String) :
    registry.indexed.get? name = .ok (registry.get? name) := by
  have found := Table.get?_zipIdx registry.names name 0
  rw [Registry.get?_eq_getElem?, get?, indexed, found]
  by_cases known : name ∈ registry.names
  · have inside : registry.names.idxOf name < registry.components.length := by
      simpa [Registry.names] using List.idxOf_lt_length_of_mem known
    simp [known, inside]
  · have outside : registry.names.idxOf name = registry.components.length := by
      rw [List.idxOf_of_notMem known, Registry.names, List.length_map]
    rw [if_neg known, outside, List.getElem?_length]

private theorem contains_indexed_iff (registry : Registry) (name : String) :
    registry.indexed.contains name = true ↔ name ∈ registry.names := by
  rw [contains, Table.has_iff_mem_keys, Table.keys, indexed, List.zipIdx_map_fst]

/-- A registry as the list of declarations it was built from asks for. -/
structure Represents (specs : List ComponentSpec) (registry : IndexedRegistry) : Prop where
  distinct : registry.names.Nodup
  all : ∀ name, name ∈ registry.names ↔ name ∈ specs.map (·.name)
  ordered : registry.names.Pairwise fun earlier later =>
    (specs.map (·.name)).idxOf earlier < (specs.map (·.name)).idxOf later
  last : ∀ name, registry.get? name = .ok (specs.reverse.find? (·.name = name))
  none_iff : ∀ name, registry.get? name = .ok none ↔ name ∉ specs.map (·.name)
  contains_iff : ∀ name, registry.contains name = true ↔ name ∈ registry.names
  aligned : ∀ name, registry.get? name = .ok registry.components[registry.names.idxOf name]?
  bounded : ∀ entry ∈ registry.places, entry.2 < registry.components.length

/-- Building a registry meets no fault, gives what the declarations ask for, and building it again
from what it holds changes neither the declarations nor the index. -/
theorem ofList_represents (specs : List ComponentSpec) :
    ∃ registry, ofList specs = .ok registry ∧ Represents specs registry ∧
      ofList registry.components = .ok registry := by
  refine ⟨(Registry.ofList specs).indexed, ofList_eq specs, ?_, ?_⟩
  · exact {
      distinct := Registry.nodup_names_ofList specs
      all := Registry.mem_names_ofList specs
      ordered := Registry.names_ofList_ordered specs
      last := fun name => by rw [get?_indexed, Registry.get?_ofList]
      none_iff := fun name => by
        rw [get?_indexed, Registry.get?_ofList]
        simp
      contains_iff := contains_indexed_iff _
      aligned := fun name => by
        rw [get?_indexed, Registry.get?_eq_getElem?]
        rfl
      bounded := fun entry inside => by
        simpa [indexed, Registry.names] using List.snd_lt_of_mem_zipIdx inside }
  · have again := ofList_eq (Registry.ofList specs).components
    rw [Registry.ofList_of_nodup (Registry.nodup_names_ofList specs)] at again
    exact again

end IndexedRegistry

end UiPlan
