import UiPlan.Check.Violation
import UiPlan.Session.Basic
import UiPlan.Text.Blank
import UiPlan.Text.Lowercase

/-! What a request tells the oracle. A planner gets the conversation, the plan that is live
and the prompt; after an answer that was no use it gets the same again with a
correction. An explainer gets the prompt and the plan that was accepted.
-/
namespace UiPlan.Prompt

open Session (Turn)

def turnLine (turn : Turn) : String := turn.role.name ++ ": " ++ turn.content ++ "\n"

def historyText : List Turn → String
  | [] => ""
  | turns => "CONVERSATION HISTORY:\n" ++ String.join (turns.map turnLine) ++ "\n"

def modificationText (prompt : String) (plan : Plan) : String :=
  "CURRENT UI PLAN (modify this based on the new request, do NOT start from scratch unless " ++
  "the user asks for a completely new UI):\n" ++ plan.toJson.pretty ++ "\n\n" ++
  "USER'S MODIFICATION REQUEST: " ++ prompt ++ "\n" ++
  "\nCRITICAL INSTRUCTION: You are MODIFYING an existing layout.\n" ++
  "- PRESERVE the existing structure (Navbar, etc.) unless told to remove it.\n" ++
  "- When adding something, INSERT it in the appropriate place (e.g. inside the main Container).\n" ++
  "- Output the COMPLETE updated plan, including unchanged parts."

def plannerContext (prompt : String) (history : List Turn) (livePlan : Option Plan) : String :=
  historyText history ++
    match livePlan with
    | some plan => modificationText prompt plan
    | none => "USER'S UI REQUEST: " ++ prompt

def jsonCorrection (context : String) : String :=
  context ++ "\n\nYour previous output was not valid JSON.\n\n" ++
    "Return ONLY the JSON plan object, with no text or code fences around it."

def violationCorrection (context : String) (violations : List Check.Violation) : String :=
  context ++ "\n\nYour previous output had these errors:\n" ++
    "\n".intercalate (violations.map Check.Violation.message) ++
    "\n\nPlease fix and return valid JSON using ONLY allowed components."

def mentionsAny (phrases : List String) (text : String) : Bool :=
  let lowered := Text.lower text.toList
  phrases.any fun phrase => Text.contains phrase.toList lowered

def wantsBrevity (prompt : String) : Bool :=
  mentionsAny ["short", "concise", "one line", "brief"] prompt

def explainerContext (prompt : String) (plan : Plan) (isModification : Bool) : String :=
  "User's request: \"" ++ prompt ++ "\"\n\nLayout plan:\n" ++ plan.toJson.pretty ++ "\n\n" ++
  (if isModification then
    "This was a MODIFICATION of an existing UI. Explain what changed and what was kept.\n"
  else "This is a NEW UI. Explain the layout and component choices.\n") ++
  (if wantsBrevity prompt then
    "\nIMPORTANT: The user explicitly asked for a SHORT/CONCISE explanation. Ignore the bullet " ++
    "point rule if needed and give a single sentence or a very brief summary."
  else "")

end UiPlan.Prompt
