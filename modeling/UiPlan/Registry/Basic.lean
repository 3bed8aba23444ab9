import UiPlan.Json.Basic

/-! The registry of components a plan may name. Each component declares its props:
their kind, whether they are required, and what to tell a planner about them. A
name that is registered twice keeps its first place and takes its last
declaration.
-/
namespace UiPlan

inductive PropKind where
  | string
  | boolean
  | number
  | enum
  | array
  | node
  deriving DecidableEq, Repr

def PropKind.name : PropKind → String
  | .string => "string"
  | .boolean => "boolean"
  | .number => "number"
  | .enum => "enum"
  | .array => "array"
  | .node => "node"

structure PropSpec where
  name : String
  kind : PropKind
  required : Bool := false
  default : Option Json := none
  values : List String := []
  items : Option String := none
  description : Option String := none
  deriving DecidableEq

namespace PropSpec

def accepts (prop : PropSpec) (value : Json) : Bool :=
  match prop.kind, value with
  | .string, .str _ => true
  | .boolean, .bool _ => true
  | .number, .num _ => true
  | .enum, .str text => prop.values.contains text
  | .array, .arr _ => true
  | .node, .str _ => true
  | .node, .arr _ => true
  | .node, .obj _ => true
  | _, _ => false

end PropSpec

structure ComponentSpec where
  name : String
  description : String
  props : List PropSpec := []
  deriving DecidableEq

namespace ComponentSpec

def prop? (spec : ComponentSpec) (name : String) : Option PropSpec :=
  spec.props.find? (·.name = name)

end ComponentSpec

structure Registry where
  components : List ComponentSpec

namespace Registry

def place (spec : ComponentSpec) : List ComponentSpec → List ComponentSpec
  | [] => [spec]
  | old :: rest => if old.name = spec.name then spec :: rest else old :: place spec rest

def ofList (specs : List ComponentSpec) : Registry :=
  ⟨specs.foldl (fun placed spec => place spec placed) []⟩

def get? (registry : Registry) (name : String) : Option ComponentSpec :=
  registry.components.find? (·.name = name)

def contains (registry : Registry) (name : String) : Bool := (registry.get? name).isSome

def names (registry : Registry) : List String := registry.components.map (·.name)

def size (registry : Registry) : Nat := registry.components.length

theorem contains_iff_mem_names (registry : Registry) (name : String) :
    registry.contains name = true ↔ name ∈ registry.names := by
  simp [contains, get?, names]

end Registry

end UiPlan
