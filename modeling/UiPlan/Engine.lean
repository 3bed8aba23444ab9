import UiPlan.Component.Library
import UiPlan.Program.Reader
import UiPlan.Registry.Standard
import UiPlan.Tree.Html

/-! The render engine. A program is never run as code: its entry point is read as a term
and evaluated in a closed scope, which holds the grouping tag and the library
components that the registry allows. Nothing else resolves, no function of the program
either.
-/
namespace UiPlan

namespace Engine

open Program (Term Function)

inductive Error where
  | transform (error : Program.Error)
  | unavailable (tag : String)
  | objectChild
  | noEntryPoint
  deriving DecidableEq, Repr

def Error.code : Error → String
  | .transform _ => "ERR_RENDER_TRANSFORM"
  | .unavailable _ | .objectChild => "ERR_RENDER_EXECUTION"
  | .noEntryPoint => "ERR_RENDER_NO_ENTRY_POINT"

def Error.message : Error → String
  | .transform error => "Transform error: " ++ error.message
  | .unavailable tag => "Render error: \"" ++ tag ++ "\" is not an available component"
  | .objectChild => "Render error: Objects are not valid as a UI child"
  | .noEntryPoint => "Could not find " ++ Program.entryPoint ++ " component in the code."

inductive Rendered where
  | empty
  | tree (root : Tree)

def Rendered.html : Rendered → String
  | .empty => ""
  | .tree root => root.toHtml

end Engine

structure Engine where
  registry : Registry

namespace Engine

open Program (Term Function)

def standard : Engine := ⟨.standard⟩

def resolve? (engine : Engine) (tag : String) : Option Component :=
  if engine.registry.contains tag then Component.ofName? tag else none

def placeName (name : String) : List String → List String
  | [] => [name]
  | other :: rest => if name ≤ other then name :: other :: rest else other :: placeName name rest

def sortNames (names : List String) : List String := names.foldr placeName []

def scopeNames (engine : Engine) : List String :=
  sortNames (Program.fragment ::
    engine.registry.names.filter fun name => (Component.ofName? name).isSome)

mutual
def literalTrees : Json → Except Error (List Tree)
  | .null | .bool _ => .ok []
  | .str value => .ok [.text value]
  | .num value => .ok [.text (.ofList value.text)]
  | .arr items => literalTreesOf items
  | .obj _ => .error .objectChild

def literalTreesOf : List Json → Except Error (List Tree)
  | [] => .ok []
  | item :: rest =>
    match literalTrees item with
    | .error error => .error error
    | .ok trees =>
      match literalTreesOf rest with
      | .error error => .error error
      | .ok more => .ok (trees ++ more)
end

/-- The values of attributes by name: the last of a name counts, and `key` is no prop. -/
def attributeValues (attributes : List (String × Json)) : List (String × Json) :=
  Table.ofEntries (attributes.filter fun entry => entry.1 ≠ "key")

mutual
/-- The trees of a term. A tag is resolved before its children are evaluated. -/
def evaluate (engine : Engine) : Term → Except Error (List Tree)
  | .text content => .ok [.text content]
  | .literal value => literalTrees value
  | .group children =>
    match evaluateAll engine children with
    | .error error => .error error
    | .ok trees => .ok [.group trees]
  | .element tag attributes children =>
    if tag = Program.fragment then
      match evaluateAll engine children with
      | .error error => .error error
      | .ok trees => .ok [.group trees]
    else
      match engine.resolve? tag with
      | none => .error (.unavailable tag)
      | some component =>
        match evaluateAll engine children with
        | .error error => .error error
        | .ok trees => .ok [component.render ⟨attributeValues attributes, trees⟩]

def evaluateAll (engine : Engine) : List Term → Except Error (List Tree)
  | [] => .ok []
  | term :: rest =>
    match evaluate engine term with
    | .error error => .error error
    | .ok trees =>
      match evaluateAll engine rest with
      | .error error => .error error
      | .ok more => .ok (trees ++ more)
end

/-- The entry point: the last function of its name, which must take no parameters. -/
def entryPoint? (functions : List Function) : Option Function :=
  match functions.reverse.find? (·.name = Program.entryPoint) with
  | some function => if function.parameters.isEmpty then some function else none
  | none => none

def Rendered.ofTrees : List Tree → Rendered
  | [] => .empty
  | [only] => .tree only
  | all => .tree (.group all)

def entryTerm (code : String) : Except Error (Option Term) :=
  match Program.parse (Program.declarations code.toList) with
  | .error error => .error (.transform error)
  | .ok functions =>
    match entryPoint? functions with
    | none => .error .noEntryPoint
    | some function => .ok function.body

def render (engine : Engine) (code : String) : Except Error Rendered :=
  if (Text.trim code.toList).isEmpty then .ok .empty
  else
    match entryTerm code with
    | .error error => .error error
    | .ok none => .ok .empty
    | .ok (some term) =>
      match engine.evaluate term with
      | .error error => .error error
      | .ok trees => .ok (.ofTrees trees)

end Engine

end UiPlan
