/-! Text as bytes. Reading bytes never fails: where they are no text, the longest piece that
could have begun a character, or else a single byte, is replaced by one mark.
-/
namespace UiPlan.Text

def utf8 (cs : List Char) : List UInt8 := cs.flatMap String.utf8EncodeChar

def replacement : Char := Char.ofNat 0xFFFD

structure Partial where
  value : Nat
  missing : Nat
  least : UInt8
  greatest : UInt8

abbrev Progress := List Char × Option Partial

/-- The first byte of a character. The bounds of the second byte keep out characters that
have a shorter form, surrogates, and numbers beyond the last character. -/
def beginCharacter (byte : UInt8) : Progress :=
  if byte < 0x80 then ([Char.ofNat byte.toNat], none)
  else if byte < 0xC2 then ([replacement], none)
  else if byte < 0xE0 then ([], some ⟨byte.toNat - 0xC0, 1, 0x80, 0xBF⟩)
  else if byte < 0xF0 then
    ([], some ⟨byte.toNat - 0xE0, 2, if byte = 0xE0 then 0xA0 else 0x80,
      if byte = 0xED then 0x9F else 0xBF⟩)
  else if byte < 0xF5 then
    ([], some ⟨byte.toNat - 0xF0, 3, if byte = 0xF0 then 0x90 else 0x80,
      if byte = 0xF4 then 0x8F else 0xBF⟩)
  else ([replacement], none)

def continueCharacter (begun : Partial) (byte : UInt8) : Progress :=
  if begun.least ≤ byte ∧ byte ≤ begun.greatest then
    let value := begun.value * 64 + byte.toNat % 64
    if begun.missing ≤ 1 then ([Char.ofNat value], none)
    else ([], some ⟨value, begun.missing - 1, 0x80, 0xBF⟩)
  else
    let (read, next) := beginCharacter byte
    (replacement :: read, next)

def ofUtf8From : Option Partial → List UInt8 → List Char
  | none, [] => []
  | some _, [] => [replacement]
  | begun, byte :: rest =>
    let (read, next) := match begun with
      | none => beginCharacter byte
      | some begun => continueCharacter begun byte
    read ++ ofUtf8From next rest

def ofUtf8 (bytes : List UInt8) : List Char := ofUtf8From none bytes

end UiPlan.Text
