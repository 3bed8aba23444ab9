import UiPlan.Http.Form

/-! The target of a request: the path and the query of an address as they are sent. Tabs
and line breaks in an address do not count. Segments of one or two dots are resolved, and
what may not stand in a path or a query is written as bytes behind percent signs.
-/
namespace UiPlan.Http.Target

def isLayout (c : Char) : Bool := c = '\t' || c = '\n' || c = '\r'

def isPlain (c : Char) : Bool :=
  32 < c.toNat && c.toNat < 127 && !(['"', '#', '<', '>'].contains c)

def isPathChar (c : Char) : Bool := isPlain c && !(['?', '\x60', '\x7b', '\x7d'].contains c)

def isQueryChar (c : Char) : Bool := isPlain c && c ≠ '\''

def escaped (stands : Char → Bool) (cs : List Char) : List Char :=
  cs.flatMap fun c => if stands c then [c] else (String.utf8EncodeChar c).flatMap Form.percentText

def undotted : List Char → List Char
  | '%' :: '2' :: 'e' :: rest => '.' :: undotted rest
  | '%' :: '2' :: 'E' :: rest => '.' :: undotted rest
  | c :: rest => c :: undotted rest
  | [] => []

def isHere (segment : List Char) : Bool := undotted segment = ['.']

def isUp (segment : List Char) : Bool := undotted segment = ['.', '.']

/-- Resolves the segments of a path; those before are given in reverse. A dot segment at
the end leaves an empty segment. -/
def resolve (before : List (List Char)) : List (List Char) → List (List Char)
  | [] => before.reverse
  | segment :: rest =>
    if isUp segment then
      resolve (if rest.isEmpty then [] :: before.tail else before.tail) rest
    else if isHere segment then resolve (if rest.isEmpty then [] :: before else before) rest
    else resolve (segment :: before) rest

def slashed (c : Char) : Char := if c = '\\' then '/' else c

def path (cs : List Char) : List Char :=
  let segments := Form.pieces '/' ((cs.drop 1).map slashed)
  (resolve [] segments).flatMap fun segment => '/' :: escaped isPathChar segment

def withPair (cs : List Char) (name value : String) : List Char :=
  let sent := (cs.filter fun c => !isLayout c).takeWhile (· ≠ '#')
  let query := (sent.dropWhile (· ≠ '?')).drop 1
  path (sent.takeWhile (· ≠ '?')) ++ '?' :: (escaped isQueryChar query ++
    (if query.isEmpty then [] else ['&']) ++
    Form.encode name.toList ++ '=' :: Form.encode value.toList)

end UiPlan.Http.Target
