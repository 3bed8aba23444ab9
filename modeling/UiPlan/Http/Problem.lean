import UiPlan.Engine
import UiPlan.Json.Writer
import UiPlan.Service.Failure

/-! What a client is told when a request fails: a status and a body with a message. The text
of a failure of the store stays inside.
-/
namespace UiPlan.Http

inductive Problem where
  | badRequest (message : String)
  | service (failure : Service.Failure)
  | render (error : Engine.Error)

namespace Problem

def display : Problem → String
  | .badRequest message => "Bad Request: " ++ message
  | .service failure => "Pipeline Error: " ++ failure.message
  | .render error => "Render Error: " ++ error.message

def categoryStatus : Oracle.Category → Nat
  | .rateLimited | .quotaExhausted => 429
  | .overloaded => 503
  | .timeout => 504
  | .unavailable => 502

def failureStatus : Service.Failure → Nat
  | .invalidInput _ => 400
  | .unreadable _ | .invalidPlan _ | .store _ => 500
  | .oracle category => categoryStatus category

def status : Problem → Nat
  | .badRequest _ => 400
  | .service failure => failureStatus failure
  | .render _ => 422

def code : Problem → String
  | .badRequest _ => "ERR_BAD_REQUEST"
  | .service failure => failure.code
  | .render error => error.code

def message : Problem → String
  | .badRequest message => message
  | .service (.store _) => "Internal server error"
  | .service failure => failure.message
  | .render error => error.message

def extras : Problem → List (String × Json)
  | .service (.unreadable raw) => [("raw", .str raw)]
  | .service (.invalidPlan details) => [("details", .arr (details.map .str))]
  | _ => []

def body (problem : Problem) : Json :=
  .obj ([("error", .str problem.message),
    ("errorDetails", .obj [("errorCode", .str problem.code),
      ("errorMessage", .str problem.message)])] ++ problem.extras)

end Problem

end UiPlan.Http
