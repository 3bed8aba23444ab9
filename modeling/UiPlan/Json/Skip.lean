import UiPlan.Json.Reader

/-! Passing over a JSON value that nobody asked for. Its syntax is checked, but its
nesting is not bounded, its numbers may be of any size and its escapes may name any
unit. Open brackets are kept on a stack.
-/
namespace UiPlan.Json

def skipString : (budget : Nat) → List Char → Except Refusal (List Char)
  | 0, cs => .error ⟨.endInString, cs, 0⟩
  | budget + 1, cs =>
    match cs with
    | [] => .error ⟨.endInString, [], 0⟩
    | '"' :: rest => .ok rest
    | '\\' :: 'u' :: rest =>
      match readUnit rest with
      | .error refusal => .error refusal
      | .ok (_, rest) => skipString budget rest
    | '\\' :: rest =>
      match readEscape rest with
      | .error refusal => .error refusal
      | .ok (_, rest) => skipString budget rest
    | c :: rest =>
      if c.toNat < 32 then .error ⟨.controlCharacter, c :: rest, 1⟩ else skipString budget rest

def skipDigits : List Char → Except Refusal (List Char)
  | [] => .error ⟨.endInValue, [], 0⟩
  | c :: rest =>
    if c.isDigit then .ok (rest.dropWhile Char.isDigit) else .error ⟨.invalidNumber, c :: rest, 1⟩

def skipExponent : List Char → Except Refusal (List Char)
  | [] => .ok []
  | c :: rest =>
    if c = 'e' || c = 'E' then
      match rest with
      | '+' :: rest | '-' :: rest => skipDigits rest
      | rest => skipDigits rest
    else .ok (c :: rest)

def skipFraction : List Char → Except Refusal (List Char)
  | '.' :: rest =>
    match skipDigits rest with
    | .error refusal => .error refusal
    | .ok rest => skipExponent rest
  | cs => skipExponent cs

def skipNumber : List Char → Except Refusal (List Char)
  | '0' :: c :: rest =>
    if c.isDigit then .error ⟨.invalidNumber, c :: rest, 1⟩ else skipFraction (c :: rest)
  | cs =>
    match skipDigits cs with
    | .error refusal => .error refusal
    | .ok rest => skipFraction rest

inductive Bracket where
  | list
  | object
  deriving DecidableEq

inductive Awaiting where
  | value
  | first
  | next

def skipKey (budget : Nat) (cs : List Char) : Except Refusal (List Char) :=
  match skipSpace cs with
  | '"' :: rest =>
    match skipString budget rest with
    | .error refusal => .error refusal
    | .ok rest =>
      match skipSpace rest with
      | ':' :: rest => .ok rest
      | [] => .error ⟨.endInObject, [], 0⟩
      | next => .error ⟨.expectedColon, next, 1⟩
  | [] => .error ⟨.endInObject, [], 0⟩
  | next => .error ⟨.keyNotString, next, 1⟩

def skipScalar (budget : Nat) : List Char → Except Refusal (List Char)
  | [] => .error ⟨.endInValue, [], 0⟩
  | 'n' :: rest => readWord ['u', 'l', 'l'] rest
  | 't' :: rest => readWord ['r', 'u', 'e'] rest
  | 'f' :: rest => readWord ['a', 'l', 's', 'e'] rest
  | '"' :: rest => skipString budget rest
  | '-' :: rest => skipNumber rest
  | c :: rest =>
    if c.isDigit then skipNumber (c :: rest) else .error ⟨.expectedValue, c :: rest, 1⟩

/-- Passes over the rest of a value inside the brackets `opened`, the innermost first. -/
def skipOpened : (budget : Nat) → List Bracket → Awaiting → List Char → Except Refusal (List Char)
  | 0, _, _, cs => .error ⟨.endInValue, cs, 0⟩
  | budget + 1, opened, .value, cs =>
    match skipSpace cs with
    | '[' :: rest => skipOpened budget (.list :: opened) .first rest
    | '{' :: rest => skipOpened budget (.object :: opened) .first rest
    | next =>
      match skipScalar budget next with
      | .error refusal => .error refusal
      | .ok rest => if opened.isEmpty then .ok rest else skipOpened budget opened .next rest
  | budget + 1, opened, .first, cs =>
    match opened, skipSpace cs with
    | .list :: opened, ']' :: rest | .object :: opened, '}' :: rest =>
      if opened.isEmpty then .ok rest else skipOpened budget opened .next rest
    | .list :: opened, next => skipOpened budget (.list :: opened) .value next
    | .object :: opened, next =>
      match skipKey budget next with
      | .error refusal => .error refusal
      | .ok rest => skipOpened budget (.object :: opened) .value rest
    | [], rest => .ok rest
  | budget + 1, opened, .next, cs =>
    match opened, skipSpace cs with
    | .list :: opened, ']' :: rest | .object :: opened, '}' :: rest =>
      if opened.isEmpty then .ok rest else skipOpened budget opened .next rest
    | .list :: opened, ',' :: rest => skipOpened budget (.list :: opened) .value rest
    | .object :: opened, ',' :: rest =>
      match skipKey budget rest with
      | .error refusal => .error refusal
      | .ok rest => skipOpened budget (.object :: opened) .value rest
    | .list :: _, [] => .error ⟨.endInList, [], 0⟩
    | .object :: _, [] => .error ⟨.endInObject, [], 0⟩
    | .list :: _, next => .error ⟨.expectedCommaOrBracket, next, 1⟩
    | .object :: _, next => .error ⟨.expectedCommaOrBrace, next, 1⟩
    | [], rest => .ok rest

def skipValue (cs : List Char) : Except Refusal (List Char) :=
  skipOpened (2 * cs.length + 2) [] .value cs

end UiPlan.Json
