import UiPlan.Plan.Basic
import UiPlan.Program.Compile
import UiPlan.Session.Timestamp

/-! Sessions: a conversation and the versions of a plan that came out of it. Versions are
only ever added, and each keeps its number. One of them is live: the next request
starts from its plan. A rollback moves the live mark and nothing else.
-/
namespace UiPlan

namespace Session

inductive Role where
  | user
  | assistant
  deriving DecidableEq, Repr

def Role.name : Role → String
  | .user => "user"
  | .assistant => "assistant"

structure Turn where
  role : Role
  content : String
  deriving DecidableEq, Repr

structure Draft where
  plan : Plan
  artifact : Program.Artifact
  explanation : String
  prompt : String

structure Version where
  index : Nat
  plan : Plan
  code : String
  usedComponents : List String
  explanation : String
  prompt : String
  time : Timestamp

structure Outcome where
  version : Version
  totalVersions : Nat

structure Summary where
  index : Nat
  prompt : String
  time : Timestamp
  deriving DecidableEq, Repr

def Version.summary (version : Version) : Summary := ⟨version.index, version.prompt, version.time⟩

structure Snapshot where
  history : List Turn
  code : String
  versions : List Summary
  currentVersionIndex : Int
  deriving DecidableEq, Repr

inductive Error where
  | versionOutOfRange (index : Int) (total : Nat)
  | store (text : String)
  | serialization (text : String)
  | other (text : String)
  deriving DecidableEq, Repr

def Error.message : Error → String
  | .versionOutOfRange index total =>
    "Version index " ++ toString index ++ " is out of range (session has " ++ toString total ++
      " versions)"
  | .store text => "State store error: " ++ text
  | .serialization text => "Serialization error: " ++ text
  | .other text => text

end Session

structure Session where
  id : String
  history : List Session.Turn
  versions : List Session.Version
  livePlan : Option Plan
  liveVersion : Option Nat

namespace Session

def new (id : String) : Session := ⟨id, [], [], none, none⟩

def isModification (session : Session) : Bool := session.livePlan.isSome

def Draft.version (draft : Draft) (index : Nat) (time : Timestamp) : Version where
  index := index
  plan := draft.plan
  code := draft.artifact.code
  usedComponents := draft.artifact.usedComponents
  explanation := draft.explanation
  prompt := draft.prompt
  time := time

def turns (prompt : String) : List Turn :=
  [⟨.user, prompt⟩, ⟨.assistant, "Generated UI based on: \"" ++ prompt ++ "\""⟩]

def commit (session : Session) (draft : Draft) (time : Timestamp) : Outcome × Session :=
  let version := draft.version session.versions.length time
  (⟨version, session.versions.length + 1⟩,
    { session with
      history := session.history ++ turns draft.prompt
      versions := session.versions ++ [version]
      livePlan := some draft.plan
      liveVersion := some version.index })

def version? (session : Session) (index : Int) : Option Version :=
  if 0 ≤ index then session.versions[index.toNat]? else none

def rollback (session : Session) (index : Int) : Except Error Outcome × Session :=
  match session.version? index with
  | none => (.error (.versionOutOfRange index session.versions.length), session)
  | some version =>
    (.ok ⟨version, session.versions.length⟩,
      { session with livePlan := some version.plan, liveVersion := some version.index })

def summaries (session : Session) : List Summary := session.versions.map Version.summary

def live? (session : Session) : Option Version :=
  session.liveVersion.bind fun index => session.versions[index]?

def shownIndex (index : Nat) : Int := Int.bmod index 18446744073709551616

def snapshot (session : Session) : Snapshot where
  history := session.history
  code := (session.live?.map Version.code).getD ""
  versions := session.summaries
  currentVersionIndex := (session.live?.map fun version => shownIndex version.index).getD (-1)

end Session

end UiPlan
