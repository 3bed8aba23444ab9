import UiPlan.Calendar
import UiPlan.Text.Blank
import UiPlan.Text.Lowercase

/-! Points in time, as they are stored with a version. They are written in universal time
with as many digits of a second as are needed, in groups of three, and are read with any
offset. Blanks may stand before each number of a timestamp and around its offset.
-/
namespace UiPlan

structure Timestamp where
  day : Int  -- since the first of January 1970
  second : Nat
  nano : Nat  -- a leap second has a billion more
  deriving DecidableEq, Repr

namespace Timestamp

def ofMilliseconds (n : Nat) : Timestamp where
  day := n / 86400000
  second := n / 1000 % 86400
  nano := n % 1000 * 1000000

def isYear (year : Int) : Bool := -262143 ≤ year && year ≤ 262142

def digits (width n : Nat) : List Char :=
  let all := Nat.toDigits 10 n
  List.replicate (width - all.length) '0' ++ all

def yearText (year : Int) : List Char :=
  if year < 0 then '-' :: digits 4 year.natAbs
  else if 9999 < year then '+' :: digits 4 year.natAbs
  else digits 4 year.natAbs

def fractionText (nano : Nat) : List Char :=
  if nano = 0 then []
  else if nano % 1000000 = 0 then '.' :: digits 3 (nano / 1000000)
  else if nano % 1000 = 0 then '.' :: digits 6 (nano / 1000)
  else '.' :: digits 9 nano

def text (time : Timestamp) : String :=
  let date := Date.ofNumber time.day
  let leap := time.nano / 1000000000
  .ofList (yearText date.year ++ '-' :: digits 2 date.month ++ '-' :: digits 2 date.day ++
    'T' :: digits 2 (time.second / 3600) ++ ':' :: digits 2 (time.second / 60 % 60) ++
    ':' :: digits 2 (time.second % 60 + leap) ++ fractionText (time.nano % 1000000000) ++ ['Z'])

def number? (width : Nat) (cs : List Char) : Option (Nat × List Char) :=
  let read := (cs.take width).takeWhile Char.isDigit
  if read.isEmpty then none else some (Nat.ofDigitChars 10 read 0, cs.drop read.length)

def year? (cs : List Char) : Option (Int × List Char) :=
  match Text.trimStart cs with
  | '-' :: rest => (number? rest.length rest).map fun (n, rest) => (-n, rest)
  | '+' :: rest => (number? rest.length rest).map fun (n, rest) => (n, rest)
  | rest => (number? 4 rest).map fun (n, rest) => (n, rest)

def field? (cs : List Char) : Option (Nat × List Char) := number? 2 (Text.trimStart cs)

def mark? (mark : Char) (cs : List Char) : Option (List Char) :=
  Text.after? [mark] (Text.trimStart cs)

def fraction? : List Char → Option (Nat × List Char)
  | '.' :: rest =>
    let read := (rest.take 9).takeWhile Char.isDigit
    if read.isEmpty then none
    else some (Nat.ofDigitChars 10 read 0 * Nat.pow 10 (9 - read.length),
      (rest.drop read.length).dropWhile Char.isDigit)
  | rest => some (0, rest)

def isOffsetSpace (c : Char) : Bool := c = ':' || Text.isBlank c

def offsetMinutes? : List Char → Option (Nat × List Char)
  | a :: b :: rest =>
    match rest.dropWhile isOffsetSpace with
    | c :: d :: rest =>
      if a.isDigit && b.isDigit && c.isDigit && d.isDigit && c < '6' then
        let hours := Nat.ofDigitChars 10 [a, b] 0
        if hours < 24 then some (60 * hours + Nat.ofDigitChars 10 [c, d] 0, rest) else none
      else none
    | _ => none
  | _ => none

def offset? (cs : List Char) : Option (Int × List Char) :=
  if Text.lowerAscii (cs.take 3) = ['u', 't', 'c'] then some (0, cs.drop 3)
  else match cs with
    | 'Z' :: rest | 'z' :: rest => some (0, rest)
    | '+' :: rest => (offsetMinutes? rest).map fun (n, rest) => ((n : Int), rest)
    | '-' :: rest | '−' :: rest => (offsetMinutes? rest).map fun (n, rest) => (-(n : Int), rest)
    | _ => none

def date? (cs : List Char) : Option (Date × List Char) := do
  let (year, cs) ← year? cs
  let (month, cs) ← field? (← mark? '-' cs)
  let (day, cs) ← field? (← mark? '-' cs)
  let date : Date := ⟨year, month, day⟩
  if isYear year && date.isValid then some (date, cs) else none

def time? (cs : List Char) : Option ((Nat × Nat) × List Char) := do
  let (hour, cs) ← field? cs
  let (minute, cs) ← field? (← mark? ':' cs)
  let (second, cs) ← field? (← mark? ':' cs)
  let (nano, cs) ← fraction? cs
  if hour < 24 && minute < 60 && second ≤ 60 then
    if second = 60 then some ((3600 * hour + 60 * minute + 59, nano + 1000000000), cs)
    else some ((3600 * hour + 60 * minute + second, nano), cs)
  else none

def separated? : List Char → Option (List Char)
  | 'T' :: rest | 't' :: rest | ' ' :: rest => some rest
  | _ => none

def parse? (source : String) : Option Timestamp := do
  let (date, cs) ← date? source.toList
  let ((second, nano), cs) ← time? (← separated? cs)
  let (offset, cs) ← offset? (Text.trimStart cs)
  let shifted := second - 60 * offset
  let day := date.number + shifted / 86400
  if (Text.trimStart cs).isEmpty && isYear (Date.ofNumber day).year then
    some ⟨day, (shifted % 86400).toNat, nano⟩
  else none

end Timestamp

end UiPlan
