import UiPlan.Json.Basic
import UiPlan.Json.Fault
import UiPlan.Decimal.Approximate

/-! Reading JSON. Each function takes what it reads off the front of a text and
returns what is left. Nesting is bounded, and the bound drives the recursion: a
value at depth `d + 1` reads its parts with the reader of depth `d`. The loops over
items and members are bounded by the length of the text.
-/
namespace UiPlan.Json

def isSpace (c : Char) : Bool := c = ' ' || c = '\t' || c = '\n' || c = '\r'

def skipSpace (cs : List Char) : List Char := cs.dropWhile isSpace

def readWord : List Char → List Char → Except Refusal (List Char)
  | [], cs => .ok cs
  | _ :: _, [] => .error ⟨.endInValue, [], 0⟩
  | w :: word, c :: cs => if c = w then readWord word cs else .error ⟨.expectedWord, c :: cs, 1⟩

def hexValue? (c : Char) : Option Nat :=
  if c.isDigit then some (c.toNat - '0'.toNat)
  else if 'a' ≤ c ∧ c ≤ 'f' then some (c.toNat - 'a'.toNat + 10)
  else if 'A' ≤ c ∧ c ≤ 'F' then some (c.toNat - 'A'.toNat + 10)
  else none

def readUnit : Reader Nat
  | a :: b :: c :: d :: rest =>
    match hexValue? a, hexValue? b, hexValue? c, hexValue? d with
    | some a, some b, some c, some d => .ok (((a * 16 + b) * 16 + c) * 16 + d, rest)
    | _, _, _, _ => .error ⟨.invalidEscape, a :: b :: c :: d :: rest, 4⟩
  | cs =>
    if byteCount cs < 4 then .error ⟨.endInString, [], 0⟩ else .error ⟨.invalidEscape, cs, 4⟩

def isHighSurrogate (n : Nat) : Bool := 0xD800 ≤ n && n ≤ 0xDBFF

def isLowSurrogate (n : Nat) : Bool := 0xDC00 ≤ n && n ≤ 0xDFFF

def readEscapedUnits : Reader Char := fun cs =>
  match readUnit cs with
  | .error refusal => .error refusal
  | .ok (first, rest) =>
    if isLowSurrogate first then .error ⟨.loneSurrogate, rest, 0⟩
    else if isHighSurrogate first then
      match rest with
      | '\\' :: 'u' :: rest =>
        match readUnit rest with
        | .error refusal => .error refusal
        | .ok (second, rest) =>
          if isLowSurrogate second then
            .ok (Char.ofNat ((first - 0xD800) * 0x400 + (second - 0xDC00) + 0x10000), rest)
          else .error ⟨.loneSurrogate, rest, 0⟩
      | [] => .error ⟨.endInString, [], 0⟩
      | ['\\'] => .error ⟨.endInString, [], 0⟩
      | '\\' :: rest => .error ⟨.brokenSurrogatePair, rest, 1⟩
      | rest => .error ⟨.brokenSurrogatePair, rest, 1⟩
    else .ok (Char.ofNat first, rest)

def readEscape : Reader Char
  | [] => .error ⟨.endInString, [], 0⟩
  | '"' :: rest => .ok ('"', rest)
  | '\\' :: rest => .ok ('\\', rest)
  | '/' :: rest => .ok ('/', rest)
  | 'b' :: rest => .ok ('\x08', rest)
  | 'f' :: rest => .ok ('\x0c', rest)
  | 'n' :: rest => .ok ('\n', rest)
  | 'r' :: rest => .ok ('\r', rest)
  | 't' :: rest => .ok ('\t', rest)
  | 'u' :: rest => readEscapedUnits rest
  | cs => .error ⟨.invalidEscape, cs, 1⟩

/-- A string whose opening quote has been read. The characters read so far are kept
in reverse; `budget` bounds the characters and is the length of the text. -/
def readStringFrom : (budget : Nat) → List Char → Reader String
  | 0, _, cs => .error ⟨.endInString, cs, 0⟩
  | budget + 1, read, cs =>
    match cs with
    | [] => .error ⟨.endInString, [], 0⟩
    | '"' :: rest => .ok (.ofList read.reverse, rest)
    | '\\' :: rest =>
      match readEscape rest with
      | .error refusal => .error refusal
      | .ok (c, rest) => readStringFrom budget (c :: read) rest
    | c :: rest =>
      if c.toNat < 32 then .error ⟨.controlCharacter, c :: rest, 1⟩
      else readStringFrom budget (c :: read) rest

def readString : Reader String := fun cs => readStringFrom (cs.length + 1) [] cs

/-- The digits of an exponent. The value stays below `2 ^ 31`; the first digit that
would take it there ends the reading and `none` is returned. -/
def readExponentDigits (value : Nat) : List Char → Option Nat × List Char
  | [] => (some value, [])
  | c :: rest =>
    if c.isDigit then
      let next := 10 * value + (c.toNat - '0'.toNat)
      if next < 2147483648 then readExponentDigits next rest else (none, rest)
    else (some value, c :: rest)

def real (negative : Bool) (x : Float) : Number := .real (if negative then -x else x)

def readScaled (negative : Bool) (significand : Nat) (exponent : Int) : Reader Number := fun cs =>
  match Decimal.approximate? significand exponent with
  | some x => .ok (real negative x, cs)
  | none => .error ⟨.numberOutOfRange, cs, 0⟩

def readExponent (negative : Bool) (significand : Nat) (exponent : Int) : Reader Number := fun cs =>
  let (below, cs) := match cs with
    | '+' :: rest => (false, rest)
    | '-' :: rest => (true, rest)
    | cs => (false, cs)
  match cs with
  | [] => .error ⟨.endInValue, [], 0⟩
  | c :: rest =>
    if c.isDigit then
      match readExponentDigits 0 (c :: rest) with
      | (some value, rest) =>
        readScaled negative significand (if below then exponent - value else exponent + value) rest
      | (none, rest) =>
        if significand ≠ 0 && !below then .error ⟨.numberOutOfRange, rest, 0⟩
        else .ok (real negative 0, rest.dropWhile Char.isDigit)
    else .error ⟨.invalidNumber, c :: rest, 1⟩

def wholeNumber (negative : Bool) (significand : Nat) : Number :=
  let value : Int := if negative then -significand else significand
  if negative && significand = 0 then real true 0
  else match Number.ofInt? value with
    | some number => number
    | none => real negative (.ofNat significand)

def readFraction (negative : Bool) (significand dropped : Nat) : Reader Number
  | '.' :: rest =>
    let digits := rest.takeWhile Char.isDigit
    let after := rest.dropWhile Char.isDigit
    if digits.isEmpty then
      .error (if after.isEmpty then ⟨.endInValue, [], 0⟩ else ⟨.invalidNumber, after, 1⟩)
    else
      let (significand, unread) := Decimal.absorb significand digits
      let exponent : Int := dropped - (digits.length - unread : Nat)
      match after with
      | c :: rest =>
        if c = 'e' || c = 'E' then readExponent negative significand exponent rest
        else readScaled negative significand exponent after
      | [] => readScaled negative significand exponent []
  | cs =>
    match cs with
    | c :: rest =>
      if c = 'e' || c = 'E' then readExponent negative significand dropped rest
      else if dropped = 0 then .ok (wholeNumber negative significand, cs)
      else readScaled negative significand dropped cs
    | [] =>
      if dropped = 0 then .ok (wholeNumber negative significand, [])
      else readScaled negative significand dropped []

def readMagnitude (negative : Bool) : Reader Number
  | [] => .error ⟨.endInValue, [], 0⟩
  | '0' :: rest =>
    if (rest.head?.map Char.isDigit).getD false then .error ⟨.invalidNumber, rest, 1⟩
    else readFraction negative 0 0 rest
  | c :: rest =>
    if c.isDigit then
      let digits := (c :: rest).takeWhile Char.isDigit
      let (significand, dropped) := Decimal.absorb 0 digits
      readFraction negative significand dropped ((c :: rest).dropWhile Char.isDigit)
    else .error ⟨.invalidNumber, c :: rest, 1⟩

def readItemsFrom {α : Type} (item : Reader α) : (budget : Nat) → List α → Reader (List α)
  | 0, _, cs => .error ⟨.endInList, cs, 0⟩
  | budget + 1, read, cs =>
    match item cs with
    | .error refusal => .error refusal
    | .ok (value, rest) =>
      match skipSpace rest with
      | [] => .error ⟨.endInList, [], 0⟩
      | ']' :: rest => .ok ((value :: read).reverse, rest)
      | ',' :: rest =>
        match skipSpace rest with
        | [] => .error ⟨.endInValue, [], 0⟩
        | ']' :: rest => .error ⟨.trailingComma, ']' :: rest, 1⟩
        | next => readItemsFrom item budget (value :: read) next
      | next => .error ⟨.expectedCommaOrBracket, next, 1⟩

def readItems {α : Type} (item : Reader α) : Reader (List α) := fun cs =>
  match skipSpace cs with
  | [] => .error ⟨.endInList, [], 0⟩
  | ']' :: rest => .ok ([], rest)
  | next => readItemsFrom item next.length [] next

def readKeyed {α : Type} (value : Reader α) : Reader α := fun cs =>
  match skipSpace cs with
  | [] => .error ⟨.endInObject, [], 0⟩
  | ':' :: rest => value rest
  | next => .error ⟨.expectedColon, next, 1⟩

/-- The members of an object from the text of a key on, up to and with the brace.
`field` chooses the reader of a member by the members before it and its key, or
refuses the key. -/
def readMembersFrom {α : Type} (field : List (String × α) → String → Except Fault (Reader α)) :
    (budget : Nat) → List (String × α) → Reader (List (String × α))
  | 0, _, cs => .error ⟨.endInObject, cs, 0⟩
  | budget + 1, read, cs =>
    match readString cs with
    | .error refusal => .error refusal
    | .ok (key, rest) =>
      match field read key with
      | .error fault => .error ⟨fault, rest, 0⟩
      | .ok value =>
        match readKeyed value rest with
        | .error refusal => .error refusal
        | .ok (value, rest) =>
          match skipSpace rest with
          | [] => .error ⟨.endInObject, [], 0⟩
          | '}' :: rest => .ok (((key, value) :: read).reverse, rest)
          | ',' :: rest =>
            match skipSpace rest with
            | [] => .error ⟨.endInValue, [], 0⟩
            | '"' :: rest => readMembersFrom field budget ((key, value) :: read) rest
            | '}' :: rest => .error ⟨.trailingComma, '}' :: rest, 1⟩
            | next => .error ⟨.keyNotString, next, 1⟩
          | next => .error ⟨.expectedCommaOrBrace, next, 1⟩

def readMembers {α : Type} (field : List (String × α) → String → Except Fault (Reader α)) :
    Reader (List (String × α)) := fun cs =>
  match skipSpace cs with
  | [] => .error ⟨.endInObject, [], 0⟩
  | '}' :: rest => .ok ([], rest)
  | '"' :: rest => readMembersFrom field (rest.length + 1) [] rest
  | next => .error ⟨.keyNotString, next, 1⟩

def readValueWith (list object : Reader Json) : Reader Json := fun cs =>
  match skipSpace cs with
  | [] => .error ⟨.endInValue, [], 0⟩
  | 'n' :: rest => (readWord ['u', 'l', 'l'] rest).map fun rest => (.null, rest)
  | 't' :: rest => (readWord ['r', 'u', 'e'] rest).map fun rest => (.bool true, rest)
  | 'f' :: rest => (readWord ['a', 'l', 's', 'e'] rest).map fun rest => (.bool false, rest)
  | '"' :: rest => (readString rest).map fun (value, rest) => (.str value, rest)
  | '[' :: rest => list rest
  | '{' :: rest => object rest
  | '-' :: rest => (readMagnitude true rest).map fun (value, rest) => (.num value, rest)
  | c :: rest =>
    if c.isDigit then (readMagnitude false (c :: rest)).map fun (value, rest) => (.num value, rest)
    else .error ⟨.expectedValue, c :: rest, 1⟩

def tooDeep : Reader Json := fun cs => .error ⟨.tooDeep, cs, 0⟩

def readValue (close : List (String × Json) → Json) : (depth : Nat) → Reader Json
  | 0 => readValueWith tooDeep tooDeep
  | depth + 1 => readValueWith
    (fun cs => (readItems (readValue close depth) cs).map fun (items, rest) => (.arr items, rest))
    (fun cs => (readMembers (fun _ _ => .ok (readValue close depth)) cs).map
      fun (members, rest) => (close members, rest))

def depthLimit : Nat := 127

def readEnd (cs : List Char) : Except Refusal Unit :=
  match skipSpace cs with
  | [] => .ok ()
  | next => .error ⟨.trailingCharacters, next, 1⟩

def readWhole {α : Type} (reader : Reader α) (source : List Char) : Except Error α :=
  match reader source with
  | .error refusal => .error (refusal.inside source)
  | .ok (value, rest) =>
    match readEnd rest with
    | .error refusal => .error (refusal.inside source)
    | .ok () => .ok value

def parse (source : List Char) : Except Error Json := readWhole (readValue object depthLimit) source

end UiPlan.Json
