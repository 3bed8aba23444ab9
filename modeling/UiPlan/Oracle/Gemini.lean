import UiPlan.Http.Target
import UiPlan.Json.Writer
import UiPlan.Oracle.Basic

/-! An oracle behind a web service. The request carries the instructions and the context;
of the answer only the texts of the first candidate count. Whatever goes wrong is told as
a transport error, with the status in front of the text that came with it.
-/
namespace UiPlan.Oracle

structure Gemini where
  apiKey : String
  model : String

namespace Gemini

def target (oracle : Gemini) : String :=
  .ofList (Http.Target.withPair ("/v1beta/models/" ++ oracle.model ++ ":generateContent").toList
    "key" oracle.apiKey)

def requestLine (oracle : Gemini) : String := "POST " ++ oracle.target ++ " HTTP/1.1"

def parts (text : String) : Json := .arr [.obj [("text", .str text)]]

def requestBody (instructions context : String) : Json :=
  .obj [("system_instruction", .obj [("parts", parts instructions)]),
    ("contents", .arr [.obj [("role", .str "user"), ("parts", parts context)]])]

def reasonPhrase : Nat → String
  | 100 => "Continue"
  | 101 => "Switching Protocols"
  | 102 => "Processing"
  | 200 => "OK"
  | 201 => "Created"
  | 202 => "Accepted"
  | 203 => "Non Authoritative Information"
  | 204 => "No Content"
  | 205 => "Reset Content"
  | 206 => "Partial Content"
  | 207 => "Multi-Status"
  | 208 => "Already Reported"
  | 226 => "IM Used"
  | 300 => "Multiple Choices"
  | 301 => "Moved Permanently"
  | 302 => "Found"
  | 303 => "See Other"
  | 304 => "Not Modified"
  | 305 => "Use Proxy"
  | 307 => "Temporary Redirect"
  | 308 => "Permanent Redirect"
  | 400 => "Bad Request"
  | 401 => "Unauthorized"
  | 402 => "Payment Required"
  | 403 => "Forbidden"
  | 404 => "Not Found"
  | 405 => "Method Not Allowed"
  | 406 => "Not Acceptable"
  | 407 => "Proxy Authentication Required"
  | 408 => "Request Timeout"
  | 409 => "Conflict"
  | 410 => "Gone"
  | 411 => "Length Required"
  | 412 => "Precondition Failed"
  | 413 => "Payload Too Large"
  | 414 => "URI Too Long"
  | 415 => "Unsupported Media Type"
  | 416 => "Range Not Satisfiable"
  | 417 => "Expectation Failed"
  | 418 => "I'm a teapot"
  | 421 => "Misdirected Request"
  | 422 => "Unprocessable Entity"
  | 423 => "Locked"
  | 424 => "Failed Dependency"
  | 426 => "Upgrade Required"
  | 428 => "Precondition Required"
  | 429 => "Too Many Requests"
  | 431 => "Request Header Fields Too Large"
  | 451 => "Unavailable For Legal Reasons"
  | 500 => "Internal Server Error"
  | 501 => "Not Implemented"
  | 502 => "Bad Gateway"
  | 503 => "Service Unavailable"
  | 504 => "Gateway Timeout"
  | 505 => "HTTP Version Not Supported"
  | 506 => "Variant Also Negotiates"
  | 507 => "Insufficient Storage"
  | 508 => "Loop Detected"
  | 510 => "Not Extended"
  | 511 => "Network Authentication Required"
  | _ => ""

def isSuccess (status : Nat) : Bool := 200 ≤ status && status < 300

def hasNoBody (status : Nat) : Bool := status = 204 || status = 304

def receivedBody (status : Nat) (body : String) : String := if hasNoBody status then "" else body

def withoutMark (cs : List Char) : List Char :=
  match cs with
  | c :: rest => if c.toNat = 0xFEFF then rest else cs
  | [] => []

def statusError (status : Nat) (body : String) : Error :=
  .transport ("HTTP " ++ toString status ++ " " ++ reasonPhrase status ++ ": " ++
    .ofList (withoutMark body.toList))

def firstCandidate? (payload : Json) : Option Json := (payload.member? "candidates").bind (·.item? 0)

def candidateParts? (candidate : Json) : Option (List Json) := do
  (← (← candidate.member? "content").member? "parts").items?

def textPart? (part : Json) : Option String := (part.member? "text").bind Json.text?

def finishReason (candidate : Json) : String :=
  ((candidate.member? "finishReason").bind Json.text?).getD "unknown"

def extractText (payload : Json) : Answer :=
  match firstCandidate? payload with
  | none => .error (.transport "Gemini response has no candidates")
  | some candidate =>
    match candidateParts? candidate with
    | none => .error (.transport "Gemini response has no candidates")
    | some parts =>
      let text := String.join (parts.filterMap textPart?)
      if text.isEmpty then
        .error (.transport ("Gemini returned no text (finish reason: " ++ finishReason candidate ++ ")"))
      else .ok text

def answer (status : Nat) (reply : String) : Answer :=
  let body := receivedBody status reply
  if isSuccess status then
    match Json.parse body.toList with
    | .error error => .error (.transport
        ("Invalid Gemini response: error decoding response body: " ++ error.message))
    | .ok payload => extractText payload
  else .error (statusError status body)

end Gemini

end UiPlan.Oracle
