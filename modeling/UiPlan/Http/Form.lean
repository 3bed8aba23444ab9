import UiPlan.Json.Reader
import UiPlan.Text.Utf8

/-! Form coding, as in the query of an address: pairs of a name and a value, parted by
ampersands. A space is written as a plus sign, and other bytes than a few as a percent
sign with two digits. A percent sign without digits stands for itself.
-/
namespace UiPlan.Http.Form

def hexDigit? (byte : UInt8) : Option Nat := Json.hexValue? (Char.ofNat byte.toNat)

def percent : UInt8 := 0x25

def decodeBytes : List UInt8 → List UInt8
  | first :: a :: b :: rest =>
    match hexDigit? a, hexDigit? b with
    | some high, some low =>
      if first = percent then UInt8.ofNat (16 * high + low) :: decodeBytes rest
      else first :: decodeBytes (a :: b :: rest)
    | _, _ => first :: decodeBytes (a :: b :: rest)
  | first :: rest => first :: decodeBytes rest
  | [] => []

def plusToSpace (c : Char) : Char := if c = '+' then ' ' else c

def decode (cs : List Char) : String :=
  .ofList (Text.ofUtf8 (decodeBytes (Text.utf8 (cs.map plusToSpace))))

def pieces (separator : Char) : List Char → List (List Char)
  | [] => [[]]
  | c :: rest =>
    if c = separator then [] :: pieces separator rest
    else match pieces separator rest with
      | piece :: more => (c :: piece) :: more
      | [] => [[c]]

def pair (cs : List Char) : String × String :=
  (decode (cs.takeWhile (· ≠ '=')), decode ((cs.dropWhile (· ≠ '=')).drop 1))

def parse (cs : List Char) : List (String × String) :=
  ((pieces '&' cs).filter fun piece => !piece.isEmpty).map pair

def upperHexDigit (n : Nat) : Char := (Nat.digitChar n).toUpper

def percentText (byte : UInt8) : List Char :=
  ['%', upperHexDigit (byte.toNat / 16), upperHexDigit (byte.toNat % 16)]

def encodeChar (c : Char) : List Char :=
  if c = ' ' then ['+']
  else if c.isAlphanum || c = '*' || c = '-' || c = '.' || c = '_' then [c]
  else (String.utf8EncodeChar c).flatMap percentText

def encode (cs : List Char) : List Char := cs.flatMap encodeChar

end UiPlan.Http.Form
