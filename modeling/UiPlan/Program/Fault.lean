import UiPlan.Json.Fault

/-! Why a text is no program, and where. As with JSON, a reader that stops hands back
what is left of the text, and the place is worked out from the whole text. Columns
count characters.
-/
namespace UiPlan.Program

inductive Fault where
  | unexpectedToken
  | unterminatedComment
  | expected (token : String)
  | expectedFunctionName
  | expectedParameterName
  | unsupportedStatement
  | tooDeep
  | invalidNumber
  | invalidLiteral (error : Json.Error)
  | unsupportedExpression
  | spreadAttribute
  | expectedAttributeName
  | expectedAttributeValue
  | unterminatedAttribute
  | expectedTagName
  | unterminatedContents (tag : Option String)
  | wrongClosingTag (tag : Option String)
  | strayBrace
  deriving DecidableEq, Repr

def Fault.message : Fault → String
  | .unexpectedToken => "Unexpected token"
  | .unterminatedComment => "Unterminated comment"
  | .expected token => "Expected \"" ++ token ++ "\""
  | .expectedFunctionName => "Expected function name"
  | .expectedParameterName => "Expected parameter name"
  | .unsupportedStatement => "Unsupported statement in function body"
  | .tooDeep => "Maximum nesting depth exceeded"
  | .invalidNumber => "Invalid number"
  | .invalidLiteral error => "Invalid literal: " ++ error.message
  | .unsupportedExpression => "Unsupported expression"
  | .spreadAttribute => "Spread attributes are not supported"
  | .expectedAttributeName => "Expected attribute name"
  | .expectedAttributeValue => "Expected attribute value"
  | .unterminatedAttribute => "Unterminated string attribute"
  | .expectedTagName => "Expected JSX tag name"
  | .unterminatedContents tag =>
    "Unterminated JSX contents, expected </" ++ tag.getD "" ++ ">"
  | .wrongClosingTag tag =>
    "Expected corresponding JSX closing tag for <" ++ tag.getD "" ++ ">"
  | .strayBrace => "Unexpected token \"\x7d\""

structure Refusal where
  fault : Fault
  rest : List Char
  deriving DecidableEq, Repr

abbrev Reader (α : Type) := List Char → Except Refusal (α × List Char)

structure Error where
  fault : Fault
  line : Nat
  column : Nat
  deriving DecidableEq, Repr

def Refusal.inside (refusal : Refusal) (source : List Char) : Error :=
  let before := source.take (source.length - refusal.rest.length)
  ⟨refusal.fault, before.count '\n' + 1, (before.reverse.takeWhile (· ≠ '\n')).length + 1⟩

def Error.message (error : Error) : String :=
  error.fault.message ++ " (" ++ toString error.line ++ ":" ++ toString error.column ++ ")"

end UiPlan.Program
