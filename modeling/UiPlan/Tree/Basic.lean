import UiPlan.Json.Basic

/-! Rendered trees. An element has a tag, attributes in the order of their names and
children; a text stands for itself; a group holds nodes without being one. The
building functions change elements and leave other nodes alone, except that a child
can also be put into a group.
-/
namespace UiPlan

inductive Tree where
  | element (tag : String) (attributes : List (String × String)) (children : List Tree)
  | text (content : String)
  | group (children : List Tree)

namespace Tree

instance : Inhabited Tree := ⟨.group []⟩

def placeAttribute (name value : String) : List (String × String) → List (String × String)
  | [] => [(name, value)]
  | (other, old) :: rest =>
    if name = other then (name, value) :: rest
    else if name < other then (name, value) :: (other, old) :: rest
    else (other, old) :: placeAttribute name value rest

def empty : Tree := .group []

def ofTag (tag : String) : Tree := .element tag [] []

def withAttribute (tree : Tree) (name value : String) : Tree :=
  match tree with
  | .element tag attributes children => .element tag (placeAttribute name value attributes) children
  | other => other

def withFlag (tree : Tree) (name : String) (on : Bool) : Tree :=
  if on then tree.withAttribute name "" else tree

def withClass (tree : Tree) (value : String) : Tree := tree.withAttribute "class" value

def withStyle (tree : Tree) (value : String) : Tree := tree.withAttribute "style" value

def withChildren (tree : Tree) (children : List Tree) : Tree :=
  match tree with
  | .element tag attributes old => .element tag attributes (old ++ children)
  | .group old => .group (old ++ children)
  | .text content => .text content

def withChild (tree : Tree) (child : Tree) : Tree := tree.withChildren [child]

def tag? : Tree → Option String
  | .element tag _ _ => some tag
  | _ => none

def attribute? (tree : Tree) (name : String) : Option String :=
  match tree with
  | .element _ attributes _ => Table.get? attributes name
  | _ => none

def children : Tree → List Tree
  | .element _ _ children => children
  | .group children => children
  | .text _ => []

mutual
def tagged (tag : String) : Tree → List Tree
  | .element own attributes children =>
    (if own = tag then [.element own attributes children] else []) ++ taggedIn tag children
  | .group children => taggedIn tag children
  | .text _ => []

def taggedIn (tag : String) : List Tree → List Tree
  | [] => []
  | tree :: rest => tagged tag tree ++ taggedIn tag rest
end

mutual
def textContent : Tree → String
  | .element _ _ children => textContentOf children
  | .group children => textContentOf children
  | .text content => content

def textContentOf : List Tree → String
  | [] => ""
  | tree :: rest => tree.textContent ++ textContentOf rest
end

mutual
def toJson : Tree → Json
  | .element tag attributes children =>
    .obj ([("kind", .str "element"), ("tag", .str tag)] ++
      (if attributes.isEmpty then []
        else [("attributes", .obj (attributes.map fun entry => (entry.1, .str entry.2)))]) ++
      (if children.isEmpty then [] else [("children", .arr (listToJson children))]))
  | .text content => .obj [("kind", .str "text"), ("text", .str content)]
  | .group children => .obj [("kind", .str "fragment"), ("children", .arr (listToJson children))]

def listToJson : List Tree → List Json
  | [] => []
  | tree :: rest => tree.toJson :: listToJson rest
end

end Tree

end UiPlan
