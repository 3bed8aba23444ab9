/-! The names that occur in programs. -/
namespace UiPlan.Program

def entryPoint : String := "GeneratedUI"

def componentModule : String := "./components"

def fragment : String := "Fragment"

def isNameStart (c : Char) : Bool := c.isAlpha || c = '_' || c = '$'

def isNameChar (c : Char) : Bool := c.isAlphanum || c = '_' || c = '$'

def isTagChar (c : Char) : Bool := isNameChar c || c = '-' || c = ':' || c = '.'

def isAttributeChar (c : Char) : Bool := isNameChar c || c = '-' || c = ':'

def isPropName : List Char → Bool
  | [] => false
  | c :: rest => (c.isAlpha || c = '_') && rest.all fun c => c.isAlphanum || c = '_' || c = '-'

def isBlockedNameChar (c : Char) : Bool :=
  c.isAlphanum || c = '_' || c = '-' || c = '.' || c = ':'

def shownName (name : List Char) : List Char := (name.filter isBlockedNameChar).take 64

end UiPlan.Program
