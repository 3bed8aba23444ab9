import UiPlan.Text.Lowercase

/-! Media types, as in the header of a request: a type and a subtype, and parameters whose
values may be quoted. Only one question is asked of them, whether they name JSON.
-/
namespace UiPlan.Http.MediaType

def isToken (c : Char) : Bool :=
  c.isAlphanum || "!#$%&'*+-.^_\x60|~".toList.contains c

def isHeaderText (c : Char) : Bool := c = '\t' || (32 ≤ c.toNat && c.toNat < 127)

inductive Expecting where
  | name
  | value
  | quoted
  | separator

/-- Whether parameters are well formed. `fresh` says that nothing of the part that is
expected has been read. -/
def areParameters : Expecting → (fresh : Bool) → List Char → Bool
  | .name, fresh, [] => fresh
  | .name, fresh, c :: rest =>
    if c = ' ' && fresh then areParameters .name true rest
    else if isToken c then areParameters .name false rest
    else c = '=' && !fresh && areParameters .value true rest
  | .value, _, [] => true
  | .value, fresh, c :: rest =>
    if c = '"' && fresh then areParameters .quoted true rest
    else if isToken c then areParameters .value false rest
    else c = ';' && !fresh && areParameters .name true rest
  | .quoted, _, [] => false
  | .quoted, fresh, c :: rest =>
    if c = '"' && !fresh then areParameters .separator true rest
    else 32 ≤ c.toNat && areParameters .quoted false rest
  | .separator, _, [] => true
  | .separator, _, c :: rest =>
    if c = ';' then areParameters .name true rest
    else c = ' ' && areParameters .separator true rest

def json : List Char := ['j', 's', 'o', 'n']

def splitSuffix (subtype : List Char) : List Char × Option (List Char) :=
  let after := (subtype.reverse.takeWhile (· ≠ '+')).reverse
  if subtype.length ≤ after.length + 1 then (subtype, none)
  else (subtype.take (subtype.length - after.length - 1), some after)

def namesJson (subtype : List Char) : Bool :=
  let (base, suffix) := splitSuffix subtype
  base = json || suffix = some json

def applicationSubtype? (header : List Char) : Option (List Char) :=
  let type := header.takeWhile isToken
  match header.dropWhile isToken with
  | '/' :: rest =>
    let subtype := rest.takeWhile isToken
    let wellFormed := match rest.dropWhile isToken with
      | [] => true
      | ';' :: parameters => !subtype.isEmpty && areParameters .name true parameters
      | _ => false
    if wellFormed && Text.lowerAscii type = "application".toList then
      some (Text.lowerAscii subtype)
    else none
  | _ => none

def isJson (header : List Char) : Bool :=
  header.all isHeaderText && ((applicationSubtype? header).map namesJson).getD false

end UiPlan.Http.MediaType
