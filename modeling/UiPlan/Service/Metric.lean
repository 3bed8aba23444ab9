import UiPlan.Oracle.Basic

/-! What the service counts and measures. The values of measurements are not kept, only
that there was one.
-/
namespace UiPlan.Service

inductive Metric where
  | counter (name : String) (labels : List (String × String))
  | histogram (name : String) (labels : List (String × String))
  deriving DecidableEq, Repr

namespace Metric

def labelsText (labels : List (String × String)) : String :=
  "\x7b" ++ ",".intercalate (labels.map fun label => label.1 ++ "=" ++ label.2) ++ "\x7d"

def text : Metric → String
  | .counter name labels => "counter " ++ name ++ labelsText labels ++ " +1"
  | .histogram name labels => "histogram " ++ name ++ labelsText labels

def truth (value : Bool) : String := if value then "true" else "false"

def generation (outcome : String) : List Metric :=
  [.counter "trellis_generations_total" [("outcome", outcome)],
    .histogram "trellis_generation_duration_ms" [("outcome", outcome)]]

def oracleCall (stage : Oracle.Stage) (answered : Bool) : List Metric :=
  [.counter "trellis_oracle_calls_total"
      [("stage", stage.name), ("status", if answered then "ok" else "error")],
    .histogram "trellis_oracle_duration_ms" [("stage", stage.name)]]

def retry (reason : String) : List Metric :=
  [.counter "trellis_planner_retries_total" [("reason", reason)]]

def rollback (success : Bool) : List Metric :=
  [.counter "trellis_rollbacks_total" [("success", truth success)]]

def render (success : Bool) : List Metric :=
  [.counter "trellis_renders_total" [("success", truth success)],
    .histogram "trellis_render_duration_ms" []]

def request (path method : String) (status : Nat) : List Metric :=
  [.counter "trellis_http_requests_total"
      [("path", path), ("method", method), ("status", toString status)],
    .histogram "trellis_http_duration_ms" [("path", path)]]

end Metric

end UiPlan.Service
