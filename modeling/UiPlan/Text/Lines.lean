import UiPlan.Text.Blank

/-! Cleaning of the text between tags. The text is split into lines; a tab counts as
a space; spaces at the ends of a line go, except before the first line and after the
last; blank lines go; what is left is joined by single spaces.
-/
namespace UiPlan.Text

def lines : List Char → List (List Char)
  | [] => [[]]
  | '\r' :: '\n' :: rest => [] :: lines rest
  | c :: rest =>
    if c = '\n' || c = '\r' then [] :: lines rest
    else match lines rest with
      | line :: more => (c :: line) :: more
      | [] => [[c]]

def isBlankLine (line : List Char) : Bool := line.all fun c => c = ' ' || c = '\t'

def untab (c : Char) : Char := if c = '\t' then ' ' else c

def isSpaceChar (c : Char) : Bool := c = ' '

def cleanLine (first last : Bool) (line : List Char) : List Char :=
  let spaced := line.map untab
  let left := if first then spaced else spaced.dropWhile isSpaceChar
  if last then left else dropEndWhile isSpaceChar left

def cleanLines (first : Bool) : List (List Char) → List Char
  | [] => []
  | line :: rest =>
    let cleaned := cleanLine first rest.isEmpty line
    if cleaned.isEmpty then cleanLines false rest
    else cleaned ++ (if rest.all isBlankLine then [] else [' ']) ++ cleanLines false rest

/-- The cleaned text, or nothing if all its lines are blank. -/
def clean? (raw : List Char) : Option (List Char) :=
  let all := lines raw
  if all.all isBlankLine then none else some (cleanLines true all)

end UiPlan.Text
