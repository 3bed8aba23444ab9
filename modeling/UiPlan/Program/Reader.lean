import UiPlan.Program.Fault
import UiPlan.Program.Name
import UiPlan.Program.Source
import UiPlan.Program.Term
import UiPlan.Json.Reader
import UiPlan.Text.Lines
import UiPlan.Text.Reference

/-! Reading programs. A program holds function declarations whose body is at most one
`return` of a tree of elements or of a literal; every other text is refused.
Elements, groups and parentheses may stand 200 deep inside one another, and this bound
drives the recursion. The loops are bounded by the length of the text.
-/
namespace UiPlan.Program

inductive TriviaScan where
  | blank
  | line
  | comment (start : List Char)

def skipTriviaFrom : TriviaScan → List Char → Except Refusal (List Char)
  | .blank, '/' :: '/' :: rest => skipTriviaFrom .line rest
  | .blank, '/' :: '*' :: rest => skipTriviaFrom (.comment ('/' :: '*' :: rest)) rest
  | .blank, c :: rest => if Text.isBlank c then skipTriviaFrom .blank rest else .ok (c :: rest)
  | .line, c :: rest => skipTriviaFrom (if c = '\n' then .blank else .line) rest
  | .comment _, '*' :: '/' :: rest => skipTriviaFrom .blank rest
  | .comment start, _ :: rest => skipTriviaFrom (.comment start) rest
  | .comment start, [] => .error ⟨.unterminatedComment, start⟩
  | .blank, [] | .line, [] => .ok []

def skipTrivia (cs : List Char) : Except Refusal (List Char) := skipTriviaFrom .blank cs

def expect (token : String) (cs : List Char) : Except Refusal (List Char) :=
  match Text.after? token.toList cs with
  | some rest => .ok rest
  | none => .error ⟨.expected token, cs⟩

def keyword? (word : List Char) (cs : List Char) : Option (List Char) :=
  match Text.after? word cs with
  | none => none
  | some [] => some []
  | some (c :: rest) => if isNameChar c then none else some (c :: rest)

def readName? (continues : Char → Bool) : List Char → Option (String × List Char)
  | [] => none
  | c :: rest =>
    if isNameStart c then
      some (.ofList (c :: rest.takeWhile continues), rest.dropWhile continues)
    else none

def isNumberChar (c : Char) : Bool :=
  c.isDigit || c = '-' || c = '+' || c = '.' || c = 'e' || c = 'E'

def readNumber : Reader Json := fun cs =>
  match Json.parse (cs.takeWhile isNumberChar) with
  | .ok value => .ok (value, cs.dropWhile isNumberChar)
  | .error _ => .error ⟨.invalidNumber, cs⟩

def readJson : Reader Json := fun cs =>
  match Json.readValue Json.object Json.depthLimit cs with
  | .ok (value, rest) => .ok (value, rest)
  | .error refusal => .error ⟨.invalidLiteral (refusal.inside cs), cs⟩

def readLiteral : Reader Json := fun cs =>
  match keyword? ['n', 'u', 'l', 'l'] cs with
  | some rest => .ok (.null, rest)
  | none =>
  match keyword? ['t', 'r', 'u', 'e'] cs with
  | some rest => .ok (.bool true, rest)
  | none =>
  match keyword? ['f', 'a', 'l', 's', 'e'] cs with
  | some rest => .ok (.bool false, rest)
  | none =>
  match cs with
  | [] => .error ⟨.unsupportedExpression, []⟩
  | c :: rest =>
    if c = '-' || c.isDigit then readNumber (c :: rest)
    else if c = '"' || c = '[' || c = '{' then readJson (c :: rest)
    else .error ⟨.unsupportedExpression, c :: rest⟩

def readBraced : Reader Json := fun cs =>
  match readLiteral cs with
  | .error refusal => .error refusal
  | .ok (value, rest) =>
    match skipTrivia rest with
    | .error refusal => .error refusal
    | .ok rest => (expect "\x7d" rest).map fun rest => (value, rest)

def readQuoted (quote : Char) : Reader Json := fun cs =>
  match cs.dropWhile (· ≠ quote) with
  | [] => .error ⟨.unterminatedAttribute, cs⟩
  | _ :: rest => .ok (.str (.ofList (Text.decode (cs.takeWhile (· ≠ quote)))), rest)

def readAttributeValue : Reader Json
  | '"' :: rest => readQuoted '"' rest
  | '\'' :: rest => readQuoted '\'' rest
  | '{' :: rest =>
    match skipTrivia rest with
    | .error refusal => .error refusal
    | .ok rest => readBraced rest
  | cs => .error ⟨.expectedAttributeValue, cs⟩

def readAssigned : Reader Json := fun cs =>
  match skipTrivia cs with
  | .error refusal => .error refusal
  | .ok ('=' :: rest) =>
    match skipTrivia rest with
    | .error refusal => .error refusal
    | .ok rest => readAttributeValue rest
  | .ok rest => .ok (.bool true, rest)

structure TagEnd where
  attributes : List (String × Json)
  closed : Bool

def readAttributesFrom : (budget : Nat) → List (String × Json) → Reader TagEnd
  | 0, _, cs => .error ⟨.expectedAttributeName, cs⟩
  | budget + 1, read, cs =>
    match skipTrivia cs with
    | .error refusal => .error refusal
    | .ok ('/' :: '>' :: rest) => .ok (⟨read.reverse, true⟩, rest)
    | .ok ('>' :: rest) => .ok (⟨read.reverse, false⟩, rest)
    | .ok ('{' :: rest) => .error ⟨.spreadAttribute, '{' :: rest⟩
    | .ok rest =>
      match readName? isAttributeChar rest with
      | none => .error ⟨.expectedAttributeName, rest⟩
      | some (name, rest) =>
        match readAssigned rest with
        | .error refusal => .error refusal
        | .ok (value, rest) => readAttributesFrom budget ((name, value) :: read) rest

def readAttributes : Reader TagEnd := fun cs => readAttributesFrom (cs.length + 1) [] cs

def readClosing (tag : Option String) (cs : List Char) : Except Refusal (List Char) :=
  let close (name : Option String) (rest : List Char) : Except Refusal (List Char) :=
    match expect ">" (Text.trimStart rest) with
    | .error refusal => .error refusal
    | .ok rest => if name = tag then .ok rest else .error ⟨.wrongClosingTag tag, rest⟩
  match Text.trimStart cs with
  | '>' :: rest => close none ('>' :: rest)
  | rest =>
    match readName? isTagChar rest with
    | none => .error ⟨.expectedTagName, rest⟩
    | some (name, rest) => close (some name) rest

def isTextChar (c : Char) : Bool := c ≠ '<' && c ≠ '{' && c ≠ '}'

def textTerm? (raw : List Char) : Option Term :=
  (Text.clean? raw).map fun cleaned => .text (.ofList (Text.decode cleaned))

/-- What an element or group holds, up to and with its closing tag. `element` reads an
element inside it. -/
def readContentsFrom (element : Reader Term) (tag : Option String) :
    (budget : Nat) → List Term → Reader (List Term)
  | 0, _, cs => .error ⟨.unterminatedContents tag, cs⟩
  | budget + 1, read, cs =>
    match cs with
    | [] => .error ⟨.unterminatedContents tag, []⟩
    | '<' :: '/' :: rest => (readClosing tag rest).map fun rest => (read.reverse, rest)
    | '<' :: rest =>
      match element ('<' :: rest) with
      | .error refusal => .error refusal
      | .ok (term, rest) => readContentsFrom element tag budget (term :: read) rest
    | '{' :: rest =>
      match skipTrivia rest with
      | .error refusal => .error refusal
      | .ok ('}' :: rest) => readContentsFrom element tag budget read rest
      | .ok rest =>
        match readBraced rest with
        | .error refusal => .error refusal
        | .ok (value, rest) => readContentsFrom element tag budget (.literal value :: read) rest
    | '}' :: rest => .error ⟨.strayBrace, '}' :: rest⟩
    | cs =>
      let terms := (textTerm? (cs.takeWhile isTextChar)).toList
      readContentsFrom element tag budget (terms ++ read) (cs.dropWhile isTextChar)

def readContents (element : Reader Term) (tag : Option String) : Reader (List Term) := fun cs =>
  readContentsFrom element tag (cs.length + 1) [] cs

def readElement : (depth : Nat) → Reader Term
  | 0, cs => .error ⟨.tooDeep, cs⟩
  | depth + 1, cs =>
    match expect "<" cs with
    | .error refusal => .error refusal
    | .ok rest =>
      match Text.trimStart rest with
      | '>' :: rest =>
        (readContents (readElement depth) none rest).map fun (terms, rest) => (.group terms, rest)
      | rest =>
        match readName? isTagChar rest with
        | none => .error ⟨.expectedTagName, rest⟩
        | some (tag, rest) =>
          match readAttributes rest with
          | .error refusal => .error refusal
          | .ok (⟨attributes, true⟩, rest) => .ok (.element tag attributes [], rest)
          | .ok (⟨attributes, false⟩, rest) =>
            (readContents (readElement depth) (some tag) rest).map
              fun (terms, rest) => (.element tag attributes terms, rest)

def readExpression : (depth : Nat) → Reader Term
  | depth, cs =>
    match skipTrivia cs with
    | .error refusal => .error refusal
    | .ok ('(' :: rest) =>
      match depth with
      | 0 => .error ⟨.tooDeep, rest⟩
      | depth + 1 =>
        match readExpression depth rest with
        | .error refusal => .error refusal
        | .ok (term, rest) =>
          match skipTrivia rest with
          | .error refusal => .error refusal
          | .ok rest => (expect ")" rest).map fun rest => (term, rest)
    | .ok ('<' :: rest) => readElement depth ('<' :: rest)
    | .ok rest => (readLiteral rest).map fun (value, rest) => (.literal value, rest)

def maxDepth : Nat := 200

def readParametersFrom : (budget : Nat) → List String → Reader (List String)
  | 0, _, cs => .error ⟨.expectedParameterName, cs⟩
  | budget + 1, read, cs =>
    match skipTrivia cs with
    | .error refusal => .error refusal
    | .ok (')' :: rest) => .ok (read.reverse, rest)
    | .ok rest =>
      let separated : Except Refusal (List Char) := if read.isEmpty then .ok rest
        else match expect "," rest with
          | .error refusal => .error refusal
          | .ok rest => skipTrivia rest
      match separated with
      | .error refusal => .error refusal
      | .ok rest =>
        match readName? isNameChar rest with
        | none => .error ⟨.expectedParameterName, rest⟩
        | some (name, rest) => readParametersFrom budget (name :: read) rest

def readParameters : Reader (List String) := fun cs => readParametersFrom (cs.length + 1) [] cs

def readReturned : Reader (Option Term) := fun cs =>
  let finish (term : Option Term) (rest : List Char) : Except Refusal (Option Term × List Char) :=
    match skipTrivia rest with
    | .error refusal => .error refusal
    | .ok (';' :: rest) => (skipTrivia rest).map fun rest => (term, rest)
    | .ok rest => (skipTrivia rest).map fun rest => (term, rest)
  match skipTrivia cs with
  | .error refusal => .error refusal
  | .ok (';' :: rest) => finish none (';' :: rest)
  | .ok ('}' :: rest) => finish none ('}' :: rest)
  | .ok rest =>
    match readExpression maxDepth rest with
    | .error refusal => .error refusal
    | .ok (term, rest) => finish (some term) rest

def readBody : Reader (Option Term) := fun cs =>
  let close (term : Option Term) : List Char → Except Refusal (Option Term × List Char)
    | '}' :: rest => .ok (term, rest)
    | rest => .error ⟨.unsupportedStatement, rest⟩
  match skipTrivia cs with
  | .error refusal => .error refusal
  | .ok rest =>
    match keyword? ['r', 'e', 't', 'u', 'r', 'n'] rest with
    | none => close none rest
    | some rest =>
      match readReturned rest with
      | .error refusal => .error refusal
      | .ok (term, rest) => close term rest

def readFunction : Reader Function := fun cs => do
  let rest ← skipTrivia cs
  match readName? isNameChar rest with
  | none => .error ⟨.expectedFunctionName, rest⟩
  | some (name, rest) =>
    let rest ← skipTrivia rest
    let rest ← expect "(" rest
    let (parameters, rest) ← readParameters rest
    let rest ← skipTrivia rest
    let rest ← expect "\x7b" rest
    let (body, rest) ← readBody rest
    return (⟨name, parameters, body⟩, rest)

def readFunctionsFrom : (budget : Nat) → List Function → List Char → Except Refusal (List Function)
  | 0, _, cs => .error ⟨.unexpectedToken, cs⟩
  | budget + 1, read, cs =>
    match skipTrivia cs with
    | .error refusal => .error refusal
    | .ok [] => .ok read.reverse
    | .ok (';' :: rest) => readFunctionsFrom budget read rest
    | .ok rest =>
      match keyword? ['f', 'u', 'n', 'c', 't', 'i', 'o', 'n'] rest with
      | none => .error ⟨.unexpectedToken, rest⟩
      | some rest =>
        match readFunction rest with
        | .error refusal => .error refusal
        | .ok (function, rest) => readFunctionsFrom budget (function :: read) rest

def parse (source : List Char) : Except Error (List Function) :=
  match readFunctionsFrom (source.length + 1) [] source with
  | .error refusal => .error (refusal.inside source)
  | .ok functions => .ok functions

end UiPlan.Program
