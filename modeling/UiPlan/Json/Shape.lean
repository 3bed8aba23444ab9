import UiPlan.Json.Skip

/-! Reading JSON of a known shape. A shape says what a text may hold at a place; reading
stops at the first character that is no JSON or does not fit, whichever comes first.
A record is an object or a list of its fields in order. Fields that no one asked for
are passed over, a field that comes twice is refused.
-/
namespace UiPlan.Json

inductive Shape where
  | any
  | text
  | integer (least greatest : Int)
  | choice (words : List String)
  | optional (inner : Shape)
  | list (item : Shape)
  | record (short : Bool) (fields : List (String × Shape))

namespace Shape

def isOptional : Shape → Bool
  | .optional _ => true
  | _ => false

def refuse (cs : List Char) : Refusal :=
  let syntaxFirst (result : Except Refusal Unit) (rest : List Char) : Refusal :=
    match result with
    | .error refusal => refusal
    | .ok () => ⟨.wrongShape, rest, 0⟩
  match cs with
  | [] => ⟨.endInValue, [], 0⟩
  | 'n' :: rest => syntaxFirst ((readWord ['u', 'l', 'l'] rest).map fun _ => ()) rest
  | 't' :: rest => syntaxFirst ((readWord ['r', 'u', 'e'] rest).map fun _ => ()) rest
  | 'f' :: rest => syntaxFirst ((readWord ['a', 'l', 's', 'e'] rest).map fun _ => ()) rest
  | '"' :: rest => syntaxFirst ((readString rest).map fun _ => ()) rest
  | '-' :: rest => syntaxFirst ((readMagnitude true rest).map fun _ => ()) rest
  | '[' :: rest | '{' :: rest => ⟨.wrongShape, rest, 0⟩
  | c :: rest =>
    if c.isDigit then syntaxFirst ((readMagnitude false (c :: rest)).map fun _ => ()) rest
    else ⟨.expectedValue, c :: rest, 1⟩

def readText : Reader Json := fun cs =>
  match skipSpace cs with
  | '"' :: rest => (readString rest).map fun (value, rest) => (.str value, rest)
  | next => .error (refuse next)

def fitInteger (least greatest : Int) : Except Refusal (Number × List Char) →
    Except Refusal (Json × List Char)
  | .error refusal => .error refusal
  | .ok (.int value fits, rest) =>
    if least ≤ value ∧ value ≤ greatest then .ok (.num (.int value fits), rest)
    else .error ⟨.wrongShape, rest, 0⟩
  | .ok (.real _, rest) => .error ⟨.wrongShape, rest, 0⟩

def readInteger (least greatest : Int) : Reader Json := fun cs =>
  match skipSpace cs with
  | '-' :: rest => fitInteger least greatest (readMagnitude true rest)
  | c :: rest =>
    if c.isDigit then fitInteger least greatest (readMagnitude false (c :: rest))
    else .error (refuse (c :: rest))
  | [] => .error ⟨.endInValue, [], 0⟩

def readChoice (words : List String) (depth : Nat) : Reader Json := fun cs =>
  match skipSpace cs with
  | '"' :: rest =>
    match readString rest with
    | .error refusal => .error refusal
    | .ok (word, rest) =>
      if words.contains word then .ok (.str word, rest) else .error ⟨.wrongShape, rest, 0⟩
  | '{' :: rest =>
    match readMembers (fun _ _ => .ok (readValue .obj depth)) rest with
    | .error refusal => .error refusal
    | .ok ([(word, .null)], rest) =>
      if words.contains word then .ok (.str word, rest) else .error ⟨.wrongShape, rest, 0⟩
    | .ok (_, rest) => .error ⟨.wrongShape, rest, 0⟩
  | [] => .error ⟨.endInValue, [], 0⟩
  | next => .error ⟨.expectedValue, next, 1⟩

def skipField : Reader (Option Json) := fun cs => (skipValue cs).map fun rest => (none, rest)

def readListEnd (cs : List Char) : Except Refusal (List Char) :=
  match skipSpace cs with
  | ']' :: rest => .ok rest
  | ',' :: rest =>
    match skipSpace rest with
    | ']' :: rest => .error ⟨.trailingComma, ']' :: rest, 1⟩
    | next => .error ⟨.trailingCharacters, next, 1⟩
  | [] => .error ⟨.endInList, [], 0⟩
  | next => .error ⟨.trailingCharacters, next, 1⟩

def nextPosition (first : Bool) (cs : List Char) : Except Refusal (Option (List Char) × List Char) :=
  match skipSpace cs with
  | [] => .error ⟨.endInList, [], 0⟩
  | ']' :: rest => .ok (none, rest)
  | next =>
    if first then .ok (some next, next)
    else match next with
      | ',' :: rest =>
        match skipSpace rest with
        | [] => .error ⟨.endInValue, [], 0⟩
        | ']' :: rest => .error ⟨.trailingComma, ']' :: rest, 1⟩
        | next => .ok (some next, next)
      | next => .error ⟨.expectedCommaOrBracket, next, 1⟩

def closeRecord (fields : List (String × Shape)) (rest : List Char)
    (read : List (String × Option Json)) : Except Refusal (Json × List Char) :=
  let known := read.filterMap fun (name, value) => value.map (name, ·)
  if fields.all fun field => field.2.isOptional || Table.has known field.1 then
    .ok (.obj known, rest)
  else .error ⟨.wrongShape, rest, 0⟩

mutual
def read : Shape → (depth : Nat) → Reader Json
  | .any, depth => readValue .obj depth
  | .text, _ => readText
  | .integer least greatest, _ => readInteger least greatest
  | .choice words, depth => readChoice words depth
  | .optional inner, depth => fun cs =>
    match skipSpace cs with
    | 'n' :: rest => (readWord ['u', 'l', 'l'] rest).map fun rest => (.null, rest)
    | next => inner.read depth next
  | .list item, depth => fun cs =>
    match skipSpace cs with
    | '[' :: rest =>
      if depth = 0 then tooDeep rest
      else (readItems (item.read (depth - 1)) rest).map fun (items, rest) => (.arr items, rest)
    | next => .error (refuse next)
  | .record short fields, depth => fun cs =>
    match skipSpace cs with
    | '[' :: rest =>
      if depth = 0 then tooDeep rest
      else (readPositions short true (depth - 1) fields rest).map
        fun (members, rest) => (.obj members, rest)
    | '{' :: rest =>
      if depth = 0 then tooDeep rest
      else
        let field (seen : List (String × Option Json)) (key : String) :
            Except Fault (Reader (Option Json)) :=
          match readField key (depth - 1) fields with
          | some reader => if Table.has seen key then .error .wrongShape else .ok reader
          | none => .ok skipField
        match readMembers field rest with
        | .error refusal => .error refusal
        | .ok (members, rest) => closeRecord fields rest members
    | next => .error (refuse next)

def readField (key : String) (depth : Nat) :
    List (String × Shape) → Option (Reader (Option Json))
  | [] => none
  | (name, shape) :: rest =>
    if name = key then
      some fun cs => (shape.read depth cs).map fun (value, rest) => (some value, rest)
    else readField key depth rest

def readPositions (short first : Bool) (depth : Nat) :
    List (String × Shape) → Reader (List (String × Json))
  | [], cs => (readListEnd cs).map fun rest => ([], rest)
  | (name, shape) :: fields, cs =>
    match nextPosition first cs with
    | .error refusal => .error refusal
    | .ok (none, rest) => if short then .ok ([], rest) else .error ⟨.wrongShape, rest, 0⟩
    | .ok (some next, _) =>
      match shape.read depth next with
      | .error refusal => .error refusal
      | .ok (value, rest) =>
        (readPositions short false depth fields rest).map
          fun (members, rest) => ((name, value) :: members, rest)
end

def parse (shape : Shape) (source : List Char) : Except Error Json :=
  readWhole (shape.read depthLimit) source

end Shape

end UiPlan.Json
