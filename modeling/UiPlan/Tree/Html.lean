import UiPlan.Tree.Basic

/-! HTML of a tree. Texts and attribute values are escaped, an attribute with an empty
value is written as its bare name, and the two void elements have no children and no
closing tag.
-/
namespace UiPlan.Tree

def escapeHtmlChar : Char → List Char
  | '&' => ['&', 'a', 'm', 'p', ';']
  | '<' => ['&', 'l', 't', ';']
  | '>' => ['&', 'g', 't', ';']
  | '"' => ['&', 'q', 'u', 'o', 't', ';']
  | '\'' => ['&', '#', '3', '9', ';']
  | c => [c]

def escapeHtml (cs : List Char) : List Char := cs.flatMap escapeHtmlChar

def isVoid (tag : String) : Bool := tag = "input" || tag = "img"

def attributeHtml (name value : String) : List Char :=
  ' ' :: (name.toList ++
    if value = "" then [] else '=' :: '"' :: (escapeHtml value.toList ++ ['"']))

def attributesHtml : List (String × String) → List Char
  | [] => []
  | (name, value) :: rest => attributeHtml name value ++ attributesHtml rest

mutual
def html : Tree → List Char
  | .text content => escapeHtml content.toList
  | .group children => htmlOf children
  | .element tag attributes children =>
    '<' :: (tag.toList ++ attributesHtml attributes ++ '>' ::
      if isVoid tag then [] else htmlOf children ++ '<' :: '/' :: (tag.toList ++ ['>']))

def htmlOf : List Tree → List Char
  | [] => []
  | tree :: rest => tree.html ++ htmlOf rest
end

def toHtml (tree : Tree) : String := .ofList tree.html

end UiPlan.Tree
