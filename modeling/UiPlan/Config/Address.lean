import UiPlan.Json.Reader

/-! Socket addresses: four numbers below 256, or eight groups in brackets, and then a colon
with a number below 65536. Two colons may stand for one or more groups of zeros, the last
two groups may be written as four numbers, and a scope may follow behind a percent sign.
-/
namespace UiPlan.Config.Address

abbrev Part := List Char → Option (List Char)

def digits (isDigit : Char → Bool) (most : Nat) (cs : List Char) : Option (List Char × List Char) :=
  let read := cs.takeWhile isDigit
  if read.isEmpty || most < read.length then none else some (read, cs.dropWhile isDigit)

def mark (c : Char) : Part
  | [] => none
  | first :: rest => if first = c then some rest else none

def octet : Part := fun cs => do
  let (read, rest) ← digits Char.isDigit 3 cs
  if (read.head? = some '0' && 1 < read.length) || 256 ≤ Nat.ofDigitChars 10 read 0 then none
  else some rest

def quad : Part := fun cs => do
  let cs ← octet cs
  let cs ← octet (← mark '.' cs)
  let cs ← octet (← mark '.' cs)
  octet (← mark '.' cs)

def isHexDigit (c : Char) : Bool := (Json.hexValue? c).isSome

def group : Part := fun cs => (digits isHexDigit 4 cs).map (·.2)

def numberBelow (limit : Nat) : Part := fun cs => do
  let (read, rest) ← digits Char.isDigit cs.length cs
  if Nat.ofDigitChars 10 read 0 < limit then some rest else none

def portNumber : Part := fun cs => do numberBelow 65536 (← mark ':' cs)

def separated (first : Bool) (part : Part) : Part := fun cs =>
  if first then part cs else (mark ':' cs).bind part

/-- Groups as many as there are, at most `most`: how many were read, whether the last two
were written as four numbers, and what is left. -/
def groups (first : Bool) : (most : Nat) → List Char → Nat × Bool × List Char
  | 0, cs => (0, false, cs)
  | most + 1, cs =>
    match if 0 < most then separated first quad cs else none with
    | some rest => (2, true, rest)
    | none =>
      match separated first group cs with
      | some rest =>
        let (more, ended, rest) := groups false most rest
        (more + 1, ended, rest)
      | none => (0, false, cs)

def sixteenBytes : Part := fun cs =>
  match groups true 8 cs with
  | (8, _, rest) => some rest
  | (_, true, _) => none
  | (read, false, rest) => do
    let rest ← mark ':' (← mark ':' rest)
    let (_, _, rest) := groups true (7 - read) rest
    some rest

def scope (cs : List Char) : List Char :=
  match (mark '%' cs).bind (numberBelow 4294967296) with
  | some rest => rest
  | none => cs

def bracketed : Part := fun cs => do
  let cs ← sixteenBytes (← mark '[' cs)
  mark ']' (scope cs)

def isWhole (part : Part) (cs : List Char) : Bool := part cs = some []

def isSocketAddress (cs : List Char) : Bool :=
  isWhole (fun cs => (quad cs).bind portNumber) cs || isWhole (fun cs => (bracketed cs).bind portNumber) cs

end UiPlan.Config.Address
