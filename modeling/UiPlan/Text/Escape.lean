import UiPlan.Text.Blank

/-! Escaping of text for program source. The characters that mean something in
markup, the braces and the line breaks become character references, so escaped
text never opens a tag or an expression and never starts a new line. Content text
also has the spaces and tabs at its two ends written as references, because
cleaning drops them there.
-/
namespace UiPlan.Text

def escapeChar : Char → List Char
  | '&' => ['&', 'a', 'm', 'p', ';']
  | '<' => ['&', 'l', 't', ';']
  | '>' => ['&', 'g', 't', ';']
  | '"' => ['&', 'q', 'u', 'o', 't', ';']
  | '\'' => ['&', '#', '0', '3', '9', ';']
  | '{' => ['&', '#', '1', '2', '3', ';']
  | '}' => ['&', '#', '1', '2', '5', ';']
  | '\n' => ['&', '#', '1', '0', ';']
  | '\r' => ['&', '#', '1', '3', ';']
  | c => [c]

def escape (cs : List Char) : List Char := cs.flatMap escapeChar

def isEdge (c : Char) : Bool := c = ' ' || c = '\t'

def edgeReference (c : Char) : List Char :=
  if c = '\t' then ['&', '#', '9', ';'] else ['&', '#', '3', '2', ';']

def escapeContent (cs : List Char) : List Char :=
  let inner := cs.dropWhile isEdge
  (cs.takeWhile isEdge).flatMap edgeReference ++ escape (dropEndWhile isEdge inner) ++
    (takeEndWhile isEdge inner).flatMap edgeReference

end UiPlan.Text
