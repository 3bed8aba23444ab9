import UiPlan.Json.Writer

/-! Layout plans. A plan has at most one root node; a node is a text, an element
with props and children, or a value that is neither and is kept as it came.
Reading a plan from JSON never fails: a value that is no usable node becomes a
malformed one.
-/
namespace UiPlan

namespace Plan

inductive Node where
  | text (content : String)
  | element (type : String) (props : List (String × Json)) (children : List Node)
  | malformed (value : Json)

inductive NodeKind where
  | text
  | element
  | malformed
  deriving DecidableEq, Repr

structure Element where
  type : String
  props : List (String × Json)
  children : List Node

namespace Node

instance : Inhabited Node := ⟨.text ""⟩

def kind : Node → NodeKind
  | .text _ => .text
  | .element .. => .element
  | .malformed _ => .malformed

def propsIn : Json → List (String × Json)
  | .obj props => props
  | _ => []

def propsOf (members : List (String × Json)) : List (String × Json) :=
  propsIn ((Table.get? members "props").getD .null)

mutual
def ofJson : Json → Node
  | .str content => .text content
  | .obj members =>
    match Table.get? members "type" with
    | some (.str type) => .element type (propsOf members) (childrenOf members)
    | _ => .malformed (.obj members)
  | other => .malformed other

def childrenOf : List (String × Json) → List Node
  | [] => []
  | (name, value) :: rest => if name = "children" then childrenIn value else childrenOf rest

def childrenIn : Json → List Node
  | .arr items => ofItems items
  | .str content => [.text content]
  | _ => []

def ofItems : List Json → List Node
  | [] => []
  | item :: rest => ofJson item :: ofItems rest
end

mutual
def toJson : Node → Json
  | .text content => .str content
  | .element type props children =>
    .obj ([("type", .str type), ("props", .obj props)] ++
      (if children.isEmpty then [] else [("children", .arr (listToJson children))]))
  | .malformed value => value

def listToJson : List Node → List Json
  | [] => []
  | node :: rest => node.toJson :: listToJson rest
end

mutual
def elements : Node → List Element
  | .element type props children => ⟨type, props, children⟩ :: elementsOf children
  | _ => []

def elementsOf : List Node → List Element
  | [] => []
  | node :: rest => node.elements ++ elementsOf rest
end

end Node

end Plan

structure Plan where
  layout : Option Plan.Node

namespace Plan

def empty : Plan := ⟨none⟩

/-- A plan from a JSON value: only an object with a `layout` that is not null has a root. -/
def ofJson (value : Json) : Plan :=
  match value.member? "layout" with
  | none | some .null => ⟨none⟩
  | some root => ⟨some (.ofJson root)⟩

def toJson (plan : Plan) : Json :=
  match plan.layout with
  | none => .obj []
  | some root => .obj [("layout", root.toJson)]

def elements (plan : Plan) : List Element := (plan.layout.map Node.elements).getD []

end Plan

end UiPlan
