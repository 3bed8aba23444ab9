import UiPlan.Tree.Basic
import UiPlan.Json.Writer
import UiPlan.Decimal.Parse

/-! The props a component is rendered with, and the trees of its children. Components
take whatever they are given: a prop that is null counts as absent, and each reading
of a prop falls back to a default when the value is of no use.
-/
namespace UiPlan.Component

structure Props where
  values : List (String × Json)
  children : List Tree

namespace Props

def get? (props : Props) (name : String) : Option Json :=
  match Table.get? props.values name with
  | some .null => none
  | found => found

def scalarText? : Json → Option String
  | .str value => some value
  | .num value => some (.ofList value.text)
  | .bool value => some (if value then "true" else "false")
  | _ => none

def text? (props : Props) (name : String) : Option String :=
  (props.get? name).bind scalarText?

def textOr (props : Props) (name default : String) : String := (props.text? name).getD default

def nonEmptyText? (props : Props) (name : String) : Option String :=
  match props.text? name with
  | some "" => none
  | found => found

def isTrue : Json → Bool
  | .bool value => value
  | .str value => value ≠ ""
  | .num value => value.toFloat != 0
  | _ => true

def flagOr (props : Props) (name : String) (default : Bool) : Bool :=
  match props.get? name with
  | none => default
  | some value => isTrue value

def number? (props : Props) (name : String) : Option Float :=
  match props.get? name with
  | some (.num value) => some value.toFloat
  | some (.str value) => Decimal.parse? (Text.trim value.toList)
  | _ => none

def items (props : Props) (name : String) : List Json :=
  match props.get? name with
  | some (.arr items) => items
  | _ => []

def content (props : Props) : List Tree :=
  if props.children.isEmpty then ((props.text? "children").map Tree.text).toList
  else props.children

end Props

def displayText : Json → String
  | .str value => value
  | .null => ""
  | .bool _ => ""
  | value => value.compact

end UiPlan.Component
