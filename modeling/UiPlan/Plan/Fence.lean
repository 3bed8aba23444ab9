import UiPlan.Plan.Basic
import UiPlan.Json.Reader
import UiPlan.Text.Blank

/-! Plans in planner output. The output may stand between code fences, which are
three backticks, the first of them perhaps followed by `json`, each with the line
break after it. Fences are dropped wherever they stand, first the tagged ones,
then the bare ones, and the rest is trimmed.
-/
namespace UiPlan.Plan

def dropTaggedFences : List Char → List Char
  | '`' :: '`' :: '`' :: 'j' :: 's' :: 'o' :: 'n' :: '\n' :: rest => dropTaggedFences rest
  | '`' :: '`' :: '`' :: 'j' :: 's' :: 'o' :: 'n' :: rest => dropTaggedFences rest
  | c :: rest => c :: dropTaggedFences rest
  | [] => []

def dropFences : List Char → List Char
  | '`' :: '`' :: '`' :: '\n' :: rest => dropFences rest
  | '`' :: '`' :: '`' :: rest => dropFences rest
  | c :: rest => c :: dropFences rest
  | [] => []

def stripFences (cs : List Char) : List Char := Text.trim (dropFences (dropTaggedFences cs))

def parse (cs : List Char) : Except Json.Error Plan := (Json.parse (stripFences cs)).map ofJson

end UiPlan.Plan
