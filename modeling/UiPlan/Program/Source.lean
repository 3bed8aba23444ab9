import UiPlan.Text.Blank

/-! Program text without its module lines. An import starts a line, is followed by
white space, even over several lines, and reaches to the end of the line on which its
next word stands; the line break stays. Of the first `export default` nothing stays,
neither the white space inside nor that behind it.
-/
namespace UiPlan.Program

inductive ImportScan where
  | copying (lineStart : Bool)
  | blanks
  | line
  deriving DecidableEq

def importsFrom : ImportScan → List Char → List Char
  | _, [] => []
  | .copying true, 'i' :: 'm' :: 'p' :: 'o' :: 'r' :: 't' :: c :: rest =>
    if Text.isBlank c then importsFrom .blanks rest
    else 'i' :: 'm' :: 'p' :: 'o' :: 'r' :: 't' :: importsFrom (.copying false) (c :: rest)
  | .copying _, c :: rest => c :: importsFrom (.copying (c = '\n')) rest
  | .blanks, c :: rest =>
    if Text.isBlank c then importsFrom .blanks rest else importsFrom .line rest
  | .line, c :: rest =>
    if c = '\n' then c :: importsFrom (.copying true) rest else importsFrom .line rest

def dropImports (cs : List Char) : List Char := importsFrom (.copying true) cs

def afterBlanks? : List Char → Option (List Char)
  | [] => none
  | c :: rest => if Text.isBlank c then some (Text.trimStart rest) else none

def afterExport? (cs : List Char) : Option (List Char) := do
  let rest ← Text.after? ['e', 'x', 'p', 'o', 'r', 't'] cs
  let rest ← afterBlanks? rest
  let rest ← Text.after? ['d', 'e', 'f', 'a', 'u', 'l', 't'] rest
  afterBlanks? rest

def dropExport : List Char → List Char
  | [] => []
  | c :: rest =>
    match afterExport? (c :: rest) with
    | some declarations => declarations
    | none => c :: dropExport rest

def declarations (cs : List Char) : List Char := dropExport (dropImports cs)

end UiPlan.Program
