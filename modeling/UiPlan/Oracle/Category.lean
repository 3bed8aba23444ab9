import UiPlan.Oracle.Basic
import UiPlan.Text.Blank

/-! Categories of oracle failures. Users are told the category only, so nothing of the
text of a failure reaches them.
-/
namespace UiPlan.Oracle

inductive Category where
  | rateLimited
  | overloaded
  | quotaExhausted
  | timeout
  | unavailable
  deriving DecidableEq, Repr

namespace Category

def name : Category → String
  | .rateLimited => "rate_limited"
  | .overloaded => "overloaded"
  | .quotaExhausted => "quota_exhausted"
  | .timeout => "timeout"
  | .unavailable => "unavailable"

def message : Category → String
  | .rateLimited => "⚠️ AI Usage Limit Reached. Please wait a moment and try again."
  | .overloaded => "⚠️ AI Service is currently overloaded. Please try again later."
  | .quotaExhausted => "⚠️ API Quota Exhausted. Please check your plan or try again later."
  | .timeout => "⚠️ The AI service took too long to respond. Please try again."
  | .unavailable => "⚠️ The AI service could not be reached. Please try again later."

def mentions (marks : List String) (cs : List Char) : Bool :=
  marks.any fun mark => Text.contains mark.toList cs

/-- The category that a failure text points to. The marks are looked for in this order,
so a text with marks of two categories belongs to the first. -/
def ofText (text : String) : Category :=
  if mentions ["429", "Too Many Requests"] text.toList then .rateLimited
  else if mentions ["503", "Service Unavailable"] text.toList then .overloaded
  else if mentions ["quota", "limit"] text.toList then .quotaExhausted
  else .unavailable

end Category

def Error.category : Error → Category
  | .timeout _ => .timeout
  | .transport text => .ofText text
  | .configuration text => .ofText text

end UiPlan.Oracle
