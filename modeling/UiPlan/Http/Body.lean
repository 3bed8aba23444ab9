import UiPlan.Http.Form
import UiPlan.Http.MediaType
import UiPlan.Json.Shape

/-! What requests carry: bodies in JSON of a known shape, and a query that may name a
session. A record in a body is an object or the list of all its fields; null is as good as
nothing for a field that may be missing.
-/
namespace UiPlan.Http

structure Request where
  method : String
  path : String
  query : Option String
  body : Option String
  contentType : Option String

inductive BodyFault where
  | notJsonType
  | tooLarge
  | unparsable
  | wrongShape
  deriving DecidableEq, Repr

def BodyFault.message : BodyFault → String
  | .notJsonType =>
    "Invalid request body: Expected request with \x60Content-Type: application/json\x60"
  | .tooLarge => "Invalid request body: Failed to buffer the request body: length limit exceeded"
  | .unparsable => "Invalid request body: Failed to parse the request body as JSON"
  | .wrongShape =>
    "Invalid request body: Failed to deserialize the JSON body into the target type"

def BodyFault.ofFault (fault : Json.Fault) : BodyFault :=
  if fault = .wrongShape then .wrongShape else .unparsable

open Json (Shape)

def optionalText : Shape := .optional .text

def generateShape : Shape := .record false [("sessionId", optionalText), ("prompt", optionalText)]

def rollbackShape : Shape :=
  .record false [("sessionId", optionalText),
    ("versionIndex", .optional (.integer (-9223372036854775808) 9223372036854775807))]

def sessionShape : Shape := .record false [("sessionId", optionalText)]

def renderShape : Shape := .record false [("code", .text)]

namespace Request

def addressParts (address : List Char) : String × Option String :=
  let cs := address.takeWhile (· ≠ '#')
  let path := String.ofList (cs.takeWhile (· ≠ '?'))
  match cs.dropWhile (· ≠ '?') with
  | [] => (path, none)
  | _ :: query => (path, some (.ofList query))

def bodyText (request : Request) : List Char := (request.body.getD "").toList

def fits (request : Request) (maxBytes : Nat) : Bool := Json.byteCount request.bodyText ≤ maxBytes

def json (request : Request) (maxBytes : Nat) (shape : Shape) : Except BodyFault Json :=
  match request.contentType with
  | none => .error .notJsonType
  | some header =>
    if !MediaType.isJson header.toList then .error .notJsonType
    else if !request.fits maxBytes then .error .tooLarge
    else match shape.read Json.depthLimit request.bodyText with
      | .error refusal => .error (.ofFault refusal.fault)
      | .ok (value, _) => .ok value

end Request

def textField? (value : Json) (name : String) : Option String := (value.member? name).bind Json.text?

def defaultSession : String := "default"

def sessionNamed : Option String → String
  | none | some "" => defaultSession
  | some id => id

def Request.querySession (request : Request) : Except Unit String :=
  match (Form.parse (request.query.getD "").toList).filter (·.1 = "sessionId") with
  | [] => .ok defaultSession
  | [(_, id)] => .ok (sessionNamed (some id))
  | _ => .error ()

def isAsciiSpace (c : Char) : Bool :=
  c = ' ' || c = '\t' || c = '\n' || c = '\r' || c.toNat = 12

def bodySession (cs : List Char) : Except Unit String :=
  if cs.all isAsciiSpace then .ok defaultSession
  else match sessionShape.parse cs with
    | .error _ => .error ()
    | .ok value => .ok (sessionNamed (textField? value "sessionId"))

end UiPlan.Http
