/-! Why a text is not the JSON that was asked for, and where. A reader that stops
says what is left of the text and how many bytes of that lie before the fault, so
readers carry no position; the line and column are worked out from the whole text
once. Columns count bytes.
-/
namespace UiPlan.Json

inductive Fault where
  | endInValue
  | endInList
  | endInObject
  | endInString
  | expectedValue
  | expectedWord
  | expectedCommaOrBracket
  | expectedCommaOrBrace
  | expectedColon
  | trailingComma
  | keyNotString
  | invalidNumber
  | numberOutOfRange
  | controlCharacter
  | invalidEscape
  | loneSurrogate
  | brokenSurrogatePair
  | tooDeep
  | trailingCharacters
  | wrongShape
  deriving DecidableEq, Repr

def Fault.message : Fault → String
  | .endInValue => "EOF while parsing a value"
  | .endInList => "EOF while parsing a list"
  | .endInObject => "EOF while parsing an object"
  | .endInString => "EOF while parsing a string"
  | .expectedValue => "expected value"
  | .expectedWord => "expected ident"
  | .expectedCommaOrBracket => "expected \x60,\x60 or \x60]\x60"
  | .expectedCommaOrBrace => "expected \x60,\x60 or \x60\x7d\x60"
  | .expectedColon => "expected \x60:\x60"
  | .trailingComma => "trailing comma"
  | .keyNotString => "key must be a string"
  | .invalidNumber => "invalid number"
  | .numberOutOfRange => "number out of range"
  | .controlCharacter => "control character (\\u0000-\\u001F) found while parsing a string"
  | .invalidEscape => "invalid escape"
  | .loneSurrogate => "lone leading surrogate in hex escape"
  | .brokenSurrogatePair => "unexpected end of hex escape"
  | .tooDeep => "recursion limit exceeded"
  | .trailingCharacters => "trailing characters"
  | .wrongShape => "unexpected shape"

/-- A reader stopped: the fault lies `ahead` bytes into `rest`. -/
structure Refusal where
  fault : Fault
  rest : List Char
  ahead : Nat
  deriving DecidableEq, Repr

abbrev Reader (α : Type) := List Char → Except Refusal (α × List Char)

def byteCount (cs : List Char) : Nat := cs.foldr (fun c count => c.utf8Size + count) 0

structure Place where
  line : Nat
  column : Nat
  deriving DecidableEq, Repr

def Place.advance (place : Place) : Nat → List Char → Place
  | _, [] => place
  | bytes, c :: rest =>
    if bytes = 0 then place
    else if bytes < c.utf8Size then { place with column := place.column + bytes }
    else
      let next := if c = '\n' then ⟨place.line + 1, 0⟩
        else { place with column := place.column + c.utf8Size }
      next.advance (bytes - c.utf8Size) rest

structure Error where
  fault : Fault
  place : Place
  deriving DecidableEq, Repr

def Refusal.inside (refusal : Refusal) (source : List Char) : Error :=
  let consumed := byteCount source - byteCount refusal.rest
  ⟨refusal.fault, Place.advance ⟨1, 0⟩ (consumed + refusal.ahead) source⟩

def Error.message (error : Error) : String :=
  error.fault.message ++ " at line " ++ toString error.place.line ++
    " column " ++ toString error.place.column

end UiPlan.Json
