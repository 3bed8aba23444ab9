import UiPlan.Registry.Basic
import UiPlan.Json.Writer

/-! The registry as text for a planner and as JSON. Components and props appear in
registration order, so equal registries have equal texts.
-/
namespace UiPlan

namespace PropSpec

def kindText (prop : PropSpec) : String :=
  match prop.kind with
  | .enum => "one of: " ++ ", ".intercalate prop.values
  | .array => match prop.items with
    | some items => "array of " ++ items
    | none => "array"
  | kind => kind.name

def defaultText : Json → String
  | .str text => text
  | value => value.compact

def describe (prop : PropSpec) : String :=
  "    - " ++ prop.name ++ " (" ++ prop.kindText ++ ")" ++
    (if prop.required then " [REQUIRED]" else "") ++
    (match prop.default with
      | some value => " [default: " ++ defaultText value ++ "]"
      | none => "") ++
    (match prop.description with
      | some text => " - " ++ text
      | none => "")

def toJson (prop : PropSpec) : Json :=
  .obj ([("name", .str prop.name), ("kind", .str prop.kind.name), ("required", .bool prop.required)] ++
    (prop.default.map fun value => ("default", value)).toList ++
    (if prop.values.isEmpty then [] else [("values", .arr (prop.values.map .str))]) ++
    (prop.items.map fun items => ("items", .str items)).toList ++
    (prop.description.map fun text => ("description", .str text)).toList)

end PropSpec

namespace ComponentSpec

def describe (spec : ComponentSpec) : String :=
  "<" ++ spec.name ++ ">: " ++ spec.description ++ "\n  Props:\n" ++
    String.join (spec.props.map fun prop => prop.describe ++ "\n") ++ "\n"

def toJson (spec : ComponentSpec) : Json :=
  .obj [("name", .str spec.name), ("description", .str spec.description),
    ("props", .arr (spec.props.map PropSpec.toJson))]

end ComponentSpec

namespace Registry

def describe (registry : Registry) : String :=
  "AVAILABLE COMPONENTS (you can ONLY use these):\n\n" ++
    String.join (registry.components.map ComponentSpec.describe)

def toJson (registry : Registry) : Json := .arr (registry.components.map ComponentSpec.toJson)

end Registry

end UiPlan
