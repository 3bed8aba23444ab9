import UiPlan.Http.Body
import UiPlan.Http.Problem
import UiPlan.Registry.Describe
import UiPlan.Service.Call

/-! The requests that are answered. Every request but a preflight is counted with its path,
method and status. Asking for the head of a page is asking for the page and leaving the
body out.
-/
namespace UiPlan.Http

open Service (Call Failure Metric Response State)

structure Server where
  service : Service
  maxBodyBytes : Nat
  oracleName : String

structure Reply where
  status : Nat
  body : Option Json

namespace Reply

def ok (body : Json) : Reply := ⟨200, some body⟩

def ofProblem (problem : Problem) : Reply := ⟨problem.status, some problem.body⟩

def empty (status : Nat) : Reply := ⟨status, none⟩

end Reply

def summaryJson (summary : Session.Summary) : Json :=
  .obj [("index", .ofNat summary.index), ("prompt", .str summary.prompt),
    ("timestamp", .str summary.time.text)]

def turnJson (turn : Session.Turn) : Json :=
  .obj [("role", .str turn.role.name), ("content", .str turn.content)]

def integerJson (n : Int) : Json :=
  match Number.ofInt? n with
  | some number => .num number
  | none => .null

def responseJson : Response → Json
  | .outcome outcome =>
    .obj [("code", .str outcome.version.code), ("plan", outcome.version.plan.toJson),
      ("explanation", .str outcome.version.explanation),
      ("versionIndex", .ofNat outcome.version.index),
      ("totalVersions", .ofNat outcome.totalVersions)]
  | .versions summaries => .obj [("versions", .arr (summaries.map summaryJson))]
  | .snapshot snapshot =>
    .obj [("history", .arr (snapshot.history.map turnJson)), ("code", .str snapshot.code),
      ("versions", .arr (snapshot.versions.map summaryJson)),
      ("currentVersionIndex", integerJson snapshot.currentVersionIndex)]
  | .reset => .obj [("message", .str "Session reset")]

def resultReply : Service.Result → Reply
  | .ok response => .ok (responseJson response)
  | .error failure => .ofProblem (.service failure)

def badRequest (message : String) : Reply := .ofProblem (.badRequest message)

inductive Endpoint where
  | generate
  | rollback
  | versions
  | session
  | reset
  | render
  | components
  | health
  deriving DecidableEq, Repr

namespace Endpoint

def all : List Endpoint :=
  [.generate, .rollback, .versions, .session, .reset, .render, .components, .health]

def path : Endpoint → String
  | .generate => "/api/generate"
  | .rollback => "/api/rollback"
  | .versions => "/api/versions"
  | .session => "/api/session"
  | .reset => "/api/reset"
  | .render => "/api/render"
  | .components => "/api/components"
  | .health => "/api/health"

def isReading : Endpoint → Bool
  | .versions | .session | .components | .health => true
  | .generate | .rollback | .reset | .render => false

def ofPath? (path : String) : Option Endpoint := all.find? (·.path = path)

def takes (endpoint : Endpoint) (method : String) : Bool :=
  if endpoint.isReading then method = "GET" || method = "HEAD" else method = "POST"

end Endpoint

namespace Server

def call (server : Server) (call : Call) (state : State) : Reply × State :=
  let (result, state) := server.service.perform call state
  (resultReply result, state)

def generate (server : Server) (request : Request) (state : State) : Reply × State :=
  match request.json server.maxBodyBytes generateShape with
  | .error fault => (badRequest fault.message, state)
  | .ok body =>
    server.call (.generate (sessionNamed (textField? body "sessionId"))
      ((textField? body "prompt").getD "")) state

def indexField? (body : Json) : Option Int :=
  match body.member? "versionIndex" with
  | some (.num (.int index _)) => some index
  | _ => none

def rollback (server : Server) (request : Request) (state : State) : Reply × State :=
  let refused := (badRequest Failure.invalidVersionIndex, state)
  match request.json server.maxBodyBytes rollbackShape with
  | .error _ => refused
  | .ok body =>
    match indexField? body with
    | none => refused
    | some index =>
      server.call (.rollback (sessionNamed (textField? body "sessionId")) index) state

def onQuerySession (server : Server) (request : Request) (make : String → Call) (state : State) :
    Reply × State :=
  match request.querySession with
  | .error () => (badRequest "Invalid query: Failed to deserialize query string", state)
  | .ok id => server.call (make id) state

def reset (server : Server) (request : Request) (state : State) : Reply × State :=
  if !request.fits server.maxBodyBytes then (badRequest "Invalid request body", state)
  else match bodySession request.bodyText with
    | .error () => (badRequest "Invalid request body", state)
    | .ok id => server.call (.reset id) state

def engine (server : Server) : Engine := ⟨server.service.registry⟩

def renderedJson : Engine.Rendered → Json
  | .empty => .obj [("empty", .bool true), ("tree", .null), ("html", .str "")]
  | .tree root => .obj [("empty", .bool false), ("html", .str root.toHtml), ("tree", root.toJson)]

def render (server : Server) (request : Request) (state : State) : Reply × State :=
  match request.json server.maxBodyBytes renderShape with
  | .error fault => (badRequest fault.message, state)
  | .ok body =>
    match server.engine.render ((textField? body "code").getD "") with
    | .ok rendered => (.ok (renderedJson rendered), state.record (Metric.render true))
    | .error error => (.ofProblem (.render error), state.record (Metric.render false))

def version : String := "0.1.0"

def healthJson (server : Server) : Json :=
  .obj [("status", .str "UP"), ("version", .str version), ("oracle", .str server.oracleName),
    ("components", .ofNat server.service.registry.size)]

def answer (server : Server) (request : Request) (state : State) : Endpoint → Reply × State
  | .generate => server.generate request state
  | .rollback => server.rollback request state
  | .versions => server.onQuerySession request .versions state
  | .session => server.onQuerySession request .snapshot state
  | .reset => server.reset request state
  | .render => server.render request state
  | .components => (.ok (.obj [("components", server.service.registry.toJson)]), state)
  | .health => (.ok server.healthJson, state)

def route (server : Server) (request : Request) (state : State) : Reply × State :=
  match Endpoint.ofPath? request.path with
  | none => (.empty 404, state)
  | some endpoint =>
    if endpoint.takes request.method then server.answer request state endpoint
    else (.empty 405, state)

def handle (server : Server) (request : Request) (state : State) : Reply × State :=
  if request.method = "OPTIONS" then (.empty 200, state)
  else
    let (reply, state) := server.route request state
    let state := state.record (Metric.request request.path request.method reply.status)
    (if request.method = "HEAD" then .empty reply.status else reply, state)

end Server

end UiPlan.Http
