import UiPlan.Plan.Basic
import UiPlan.Registry.Basic
import UiPlan.Program.Name

/-! What a plan node becomes in a program: a text, a comment in place of a component
that is not registered, or an element with the attributes that can be written. A
node that is nothing of these leaves no trace.
-/
namespace UiPlan.Program

open Plan (Node)

inductive Markup where
  | text (content : String)
  | blocked (name : String)
  | element (tag : String) (attributes : List (String × Json)) (content : Option String)
      (children : List Markup)

namespace Markup

def attributesOf (props : List (String × Json)) : List (String × Json) :=
  props.filter fun entry => entry.1 ≠ "children" && isPropName entry.1.toList

def contentOf (props : List (String × Json)) : Option String :=
  (Table.get? props "children").bind Json.text?

def ofMalformed? (registry : Registry) (value : Json) : Option Markup :=
  match value.member? "type" with
  | some (.str name) => if name ≠ "" && !registry.contains name then some (.blocked name) else none
  | _ => none

mutual
def ofNode? (registry : Registry) : Node → Option Markup
  | .text content => some (.text content)
  | .element type props children =>
    if type = "" then none
    else if registry.contains type then
      some (.element type (attributesOf props) (contentOf props) (ofNodes registry children))
    else some (.blocked type)
  | .malformed value => ofMalformed? registry value

def ofNodes (registry : Registry) : List Node → List Markup
  | [] => []
  | node :: rest => match ofNode? registry node with
    | some markup => markup :: ofNodes registry rest
    | none => ofNodes registry rest
end

end Markup

end UiPlan.Program
