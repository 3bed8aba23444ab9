import UiPlan.Registry.Basic
import UiPlan.Table

/-! The registry with an index. Beside the declarations it keeps the place of each name, so
that a name is looked up by its place. A place where no declaration stands would be a
fault of the index, at which building and looking up stop.
-/
namespace UiPlan

structure IndexedRegistry where
  components : List ComponentSpec
  places : Table String Nat
  deriving DecidableEq

namespace IndexedRegistry

structure Fault where
  place : Nat
  size : Nat
  deriving DecidableEq, Repr

def empty : IndexedRegistry := ⟨[], []⟩

def register (registry : IndexedRegistry) (spec : ComponentSpec) : Except Fault IndexedRegistry :=
  match Table.get? registry.places spec.name with
  | some place =>
    if place < registry.components.length then
      .ok { registry with components := registry.components.set place spec }
    else .error ⟨place, registry.components.length⟩
  | none =>
    .ok ⟨registry.components ++ [spec],
      Table.insert registry.places spec.name registry.components.length⟩

def ofList (specs : List ComponentSpec) : Except Fault IndexedRegistry := specs.foldlM register empty

def get? (registry : IndexedRegistry) (name : String) : Except Fault (Option ComponentSpec) :=
  match Table.get? registry.places name with
  | some place =>
    match registry.components[place]? with
    | some spec => .ok (some spec)
    | none => .error ⟨place, registry.components.length⟩
  | none => .ok none

def contains (registry : IndexedRegistry) (name : String) : Bool := Table.has registry.places name

def names (registry : IndexedRegistry) : List String := registry.components.map (·.name)

end IndexedRegistry

end UiPlan
