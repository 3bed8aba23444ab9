import UiPlan.Json.Basic

/-! Programs. A program is a list of functions, each with the names of its parameters and
the term it returns, if it returns one. A term is a literal, an element, a group of
terms without a tag, or, inside one of these, a text.
-/
namespace UiPlan.Program

inductive Term where
  | text (content : String)
  | literal (value : Json)
  | element (tag : String) (attributes : List (String × Json)) (children : List Term)
  | group (children : List Term)

structure Function where
  name : String
  parameters : List String
  body : Option Term

namespace Term

instance : Inhabited Term := ⟨.group []⟩

mutual
def tags : Term → List String
  | .element tag _ children => tag :: tagsOf children
  | .group children => tagsOf children
  | _ => []

def tagsOf : List Term → List String
  | [] => []
  | term :: rest => term.tags ++ tagsOf rest
end

mutual
def depth : Term → Nat
  | .element _ _ children => 1 + depthOf children
  | .group children => 1 + depthOf children
  | _ => 0

def depthOf : List Term → Nat
  | [] => 0
  | term :: rest => max term.depth (depthOf rest)
end

end Term

end UiPlan.Program
