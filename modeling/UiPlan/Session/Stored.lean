import UiPlan.Plan.Decode
import UiPlan.Session.Basic

/-! The JSON form of a session, to keep it outside of memory. What is written can be read
back; reading also takes a record as a list of its fields, passes over fields it does
not know, and lets the two live marks be missing.
-/
namespace UiPlan.Session

open Json (Shape)

def Turn.toJson (turn : Turn) : Json :=
  .obj [("role", .str turn.role.name), ("content", .str turn.content)]

def Version.toJson (version : Version) : Json :=
  .obj [("index", .ofNat version.index), ("plan", version.plan.toJson), ("code", .str version.code),
    ("usedComponents", .arr (version.usedComponents.map .str)),
    ("explanation", .str version.explanation), ("prompt", .str version.prompt),
    ("timestamp", .str version.time.text)]

def orNull : Option Json → Json
  | some value => value
  | none => .null

def toJson (session : Session) : Json :=
  .obj [("id", .str session.id), ("history", .arr (session.history.map Turn.toJson)),
    ("versions", .arr (session.versions.map Version.toJson)),
    ("live_plan", orNull (session.livePlan.map Plan.toJson)),
    ("live_version", orNull (session.liveVersion.map .ofNat))]

def countShape : Shape := .integer 0 18446744073709551615

def turnShape : Shape :=
  .record false [("role", .choice ["user", "assistant"]), ("content", .text)]

def versionShape : Shape :=
  .record false [("index", countShape), ("plan", Plan.shape), ("code", .text),
    ("usedComponents", .list .text), ("explanation", .text), ("prompt", .text),
    ("timestamp", .text)]

def shape : Shape :=
  .record false [("id", .text), ("history", .list turnShape), ("versions", .list versionShape),
    ("live_plan", .optional Plan.shape), ("live_version", .optional countShape)]

def count? : Json → Option Nat
  | .num (.int value _) => if 0 ≤ value then some value.toNat else none
  | _ => none

def textMember? (value : Json) (name : String) : Option String := (value.member? name).bind Json.text?

def Role.ofName? : String → Option Role
  | "user" => some .user
  | "assistant" => some .assistant
  | _ => none

def Turn.ofJson? (value : Json) : Option Turn := do
  some ⟨← (textMember? value "role").bind Role.ofName?, ← textMember? value "content"⟩

def textItems? (value : Json) (name : String) : Option (List String) := do
  (← (← value.member? name).items?).mapM Json.text?

def Version.ofJson? (value : Json) : Option Version := do
  some {
    index := ← count? (← value.member? "index")
    plan := ← Plan.decode? (← value.member? "plan")
    code := ← textMember? value "code"
    usedComponents := ← textItems? value "usedComponents"
    explanation := ← textMember? value "explanation"
    prompt := ← textMember? value "prompt"
    time := ← (textMember? value "timestamp").bind Timestamp.parse? }

def optionalMember? {α : Type} (read : Json → Option α) (value : Json) (name : String) :
    Option (Option α) :=
  match value.member? name with
  | none | some .null => some none
  | some member => (read member).map some

def ofJson? (value : Json) : Option Session := do
  some {
    id := ← textMember? value "id"
    history := ← (← (← value.member? "history").items?).mapM Turn.ofJson?
    versions := ← (← (← value.member? "versions").items?).mapM Version.ofJson?
    livePlan := ← optionalMember? Plan.decode? value "live_plan"
    liveVersion := ← optionalMember? count? value "live_version" }

def text (session : Session) : String := session.toJson.compact

def parse? (source : String) : Option Session :=
  match shape.parse source.toList with
  | .error _ => none
  | .ok value => ofJson? value

end UiPlan.Session
