import UiPlan.Plan.Basic
import UiPlan.Json.Shape

/-! Plans that were written by this library and are read back by their declared shape. A
plan is an object with one `layout`, or a list of at most one root. A root that is an
object may name its type, props and children once each, and may also be a list of
them. Nodes below the root are read as in any plan.
-/
namespace UiPlan.Plan

def occurrences (name : String) (members : List (String × Json)) : Nat :=
  (members.filter fun entry => entry.1 = name).length

namespace Node

def elementOf (type : String) (props children : Option Json) : Node :=
  .element type (propsIn (props.getD .null)) (childrenIn (children.getD .null))

/-- The root of a plan. The value may hold objects as they were written, with repeated
names; these are merged where they are kept. -/
def decodeRoot : Json → Node
  | .str content => .text content
  | .obj members =>
    let merged := Json.mergedMembers members
    let once := ["type", "props", "children"].all fun name => occurrences name members ≤ 1
    match Table.get? merged "type" with
    | some (.str type) =>
      if once then elementOf type (Table.get? merged "props") (Table.get? merged "children")
      else .malformed (Json.object merged)
    | _ => .malformed (Json.object merged)
  | .arr items =>
    match Json.mergedItems items with
    | [.str type] => elementOf type none none
    | [.str type, props] => elementOf type (some props) none
    | [.str type, props, children] => elementOf type (some props) (some children)
    | merged => .malformed (.arr merged)
  | other => .malformed other

end Node

def decode? : Json → Option Plan
  | .obj members =>
    if occurrences "layout" members ≤ 1 then
      match Table.get? members "layout" with
      | none | some .null => some ⟨none⟩
      | some root => some ⟨some (Node.decodeRoot root)⟩
    else none
  | .arr [] => some ⟨none⟩
  | .arr [.null] => some ⟨none⟩
  | .arr [root] => some ⟨some (Node.decodeRoot root)⟩
  | _ => none

def shape : Json.Shape := .record true [("layout", .optional .any)]

def decodeText? (source : List Char) : Option Plan :=
  match shape.parse source with
  | .ok value => decode? value
  | .error _ => none

end UiPlan.Plan
