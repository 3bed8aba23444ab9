import UiPlan.Json.Basic
import UiPlan.Decimal.Layout

/-! JSON text of a value, compact or indented by two spaces a level. A quote, a
backslash and the control characters are escaped, everything else stands for
itself.
-/
namespace UiPlan.Json

def hexDigit (n : Nat) : Char := Nat.digitChar n

def escapedChar (c : Char) : List Char :=
  if c = '"' then ['\\', '"']
  else if c = '\\' then ['\\', '\\']
  else if c = '\n' then ['\\', 'n']
  else if c = '\r' then ['\\', 'r']
  else if c = '\t' then ['\\', 't']
  else if c.toNat = 8 then ['\\', 'b']
  else if c.toNat = 12 then ['\\', 'f']
  else if c.toNat < 32 then
    ['\\', 'u', '0', '0', hexDigit (c.toNat / 16), hexDigit (c.toNat % 16)]
  else [c]

def quoted (cs : List Char) : List Char := '"' :: cs.flatMap escapedChar ++ ['"']

end UiPlan.Json

namespace UiPlan.Number

def intText : Int → List Char
  | .ofNat n => Nat.toDigits 10 n
  | .negSucc n => '-' :: Nat.toDigits 10 (n + 1)

def text : Number → List Char
  | .int value _ => intText value
  | .real value =>
    if Decimal.Binary.exponentPart value.toBits.toNat = 2047 then ['n', 'u', 'l', 'l']
    else Decimal.Layout.jsonText.text value

end UiPlan.Number

namespace UiPlan.Json

mutual
def text : Json → List Char
  | .null => ['n', 'u', 'l', 'l']
  | .bool true => ['t', 'r', 'u', 'e']
  | .bool false => ['f', 'a', 'l', 's', 'e']
  | .num value => value.text
  | .str value => quoted value.toList
  | .arr [] => ['[', ']']
  | .arr (item :: rest) => '[' :: (item.text ++ itemsText rest)
  | .obj [] => ['{', '}']
  | .obj ((name, value) :: rest) =>
    '{' :: (quoted name.toList ++ ':' :: (value.text ++ membersText rest))

def itemsText : List Json → List Char
  | [] => [']']
  | item :: rest => ',' :: (item.text ++ itemsText rest)

def membersText : List (String × Json) → List Char
  | [] => ['}']
  | (name, value) :: rest =>
    ',' :: (quoted name.toList ++ ':' :: (value.text ++ membersText rest))
end

def newline (level : Nat) : List Char := '\n' :: List.replicate (2 * level) ' '

mutual
def prettyText (level : Nat) : Json → List Char
  | .arr (item :: rest) =>
    '[' :: (newline (level + 1) ++ item.prettyText (level + 1) ++ prettyItems level rest)
  | .obj ((name, value) :: rest) =>
    '{' :: (newline (level + 1) ++ quoted name.toList ++ [':', ' '] ++
      value.prettyText (level + 1) ++ prettyMembers level rest)
  | .arr [] => ['[', ']']
  | .obj [] => ['{', '}']
  | .null => ['n', 'u', 'l', 'l']
  | .bool true => ['t', 'r', 'u', 'e']
  | .bool false => ['f', 'a', 'l', 's', 'e']
  | .num value => value.text
  | .str value => quoted value.toList

def prettyItems (level : Nat) : List Json → List Char
  | [] => newline level ++ [']']
  | item :: rest =>
    ',' :: (newline (level + 1) ++ item.prettyText (level + 1) ++ prettyItems level rest)

def prettyMembers (level : Nat) : List (String × Json) → List Char
  | [] => newline level ++ ['}']
  | (name, value) :: rest =>
    ',' :: (newline (level + 1) ++ quoted name.toList ++ [':', ' '] ++
      value.prettyText (level + 1) ++ prettyMembers level rest)
end

def compact (value : Json) : String := .ofList value.text

def pretty (value : Json) : String := .ofList (value.prettyText 0)

end UiPlan.Json
