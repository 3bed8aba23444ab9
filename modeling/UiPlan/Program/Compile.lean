import UiPlan.Program.Markup
import UiPlan.Text.Escape
import UiPlan.Json.Writer

/-! Compiling a plan into program text. The program imports the components it uses, in
the order of their first use, and has one entry point that returns the markup,
indented by two spaces a level. A root that is no component is wrapped in a fragment.
Compiling never fails: without anything to show there is a fallback program.
-/
namespace UiPlan.Program

open Plan (Node)

def pad (indent : Nat) : List Char := List.replicate indent ' '

def valueText : Json → List Char
  | .str value => '=' :: '"' :: (Text.escape value.toList ++ ['"'])
  | .bool true => []
  | value => '=' :: '{' :: (value.text ++ ['}'])

def attributesText : List (String × Json) → List Char
  | [] => []
  | (name, value) :: rest => ' ' :: (name.toList ++ valueText value ++ attributesText rest)

def closingTag (tag : String) : List Char := '<' :: '/' :: (tag.toList ++ ['>'])

def blockedText (name : String) : List Char :=
  "\x7b/* ⚠️ Blocked prohibited component: \"".toList ++ shownName name.toList ++
    "\" */\x7d".toList

namespace Markup

mutual
def emit (indent : Nat) : Markup → List Char
  | .text content => pad indent ++ Text.escapeContent content.toList
  | .blocked name => pad indent ++ blockedText name
  | .element tag attributes content children =>
    pad indent ++ '<' :: (tag.toList ++ attributesText attributes ++
      match content, children with
      | none, [] => [' ', '/', '>']
      | some words, [] => '>' :: (Text.escapeContent words.toList ++ closingTag tag)
      | none, _ :: _ => '>' :: '\n' :: (emitLines (indent + 2) children ++ pad indent ++ closingTag tag)
      | some words, _ :: _ =>
        '>' :: '\n' :: (pad (indent + 2) ++ Text.escapeContent words.toList ++ '\n' ::
          (emitLines (indent + 2) children ++ pad indent ++ closingTag tag)))

def emitLines (indent : Nat) : List Markup → List Char
  | [] => []
  | markup :: rest => markup.emit indent ++ '\n' :: emitLines indent rest
end

def emitRoot : Markup → List Char
  | .element tag attributes content children => emit 4 (.element tag attributes content children)
  | other => pad 4 ++ '<' :: (fragment.toList ++ ['>', '\n'] ++ other.emit 6 ++ ['\n'] ++ pad 4 ++
      closingTag fragment)

def addUse (used : List String) (tag : String) : List String :=
  if used.contains tag then used else used ++ [tag]

mutual
def recordUses (used : List String) : Markup → List String
  | .element tag _ _ children => recordUsesOf (addUse used tag) children
  | _ => used

def recordUsesOf (used : List String) : List Markup → List String
  | [] => used
  | markup :: rest => recordUsesOf (markup.recordUses used) rest
end

end Markup

structure Artifact where
  code : String
  usedComponents : List String
  deriving DecidableEq, Repr

def importLine (used : List String) : String :=
  if used.isEmpty then ""
  else "import \x7b " ++ ", ".intercalate used ++ " \x7d from \"" ++ componentModule ++ "\";\n\n"

def entryOpening : String := "export default function " ++ entryPoint ++ "() \x7b\n"

namespace Artifact

def fallback : Artifact where
  code := "// No layout plan provided\n" ++ entryOpening ++ "  return <" ++ fragment ++
    ">No UI generated yet.</" ++ fragment ++ ">;\n\x7d"
  usedComponents := []

def ofMarkup (markup : Markup) : Artifact where
  code := importLine (markup.recordUses []) ++ entryOpening ++ "  return (\n" ++
    .ofList markup.emitRoot ++ "\n  );\n\x7d"
  usedComponents := markup.recordUses []

end Artifact

def compileNode (registry : Registry) (root : Node) : Artifact :=
  match Markup.ofNode? registry root with
  | none => .fallback
  | some markup => .ofMarkup markup

def compile (registry : Registry) (plan : Plan) : Artifact :=
  match plan.layout with
  | none => .fallback
  | some root => compileNode registry root

end UiPlan.Program
