import UiPlan.Decimal.Shortest

/-! How the digits of a double are laid out as text. JSON text writes a point in
the digits while the exponent is small and marks whole numbers with `.0`; display
text never writes an exponent and never marks whole numbers.
-/
namespace UiPlan.Decimal

structure Layout where
  tie : Tie
  positional : Int → Bool
  wholeMark : List Char

def zeros (count : Int) : List Char := List.replicate count.toNat '0'

namespace Layout

def jsonText : Layout where
  tie := .toEven
  positional := fun exponent => -5 ≤ exponent && exponent ≤ 15
  wholeMark := ['.', '0']

def displayText : Layout where
  tie := .upward
  positional := fun _ => true
  wholeMark := []

def positionalText (layout : Layout) (x : Digits) : List Char :=
  if x.point ≤ 0 then ['0', '.'] ++ zeros (-x.point) ++ x.digits
  else if (x.digits.length : Int) ≤ x.point then
    x.digits ++ zeros (x.point - x.digits.length) ++ layout.wholeMark
  else x.digits.take x.point.toNat ++ ['.'] ++ x.digits.drop x.point.toNat

def exponentText (exponent : Int) : List Char :=
  (if exponent < 0 then '-' else '+') :: Nat.toDigits 10 exponent.natAbs

def scientificText (x : Digits) : List Char :=
  x.digits.take 1 ++ (if x.digits.length ≤ 1 then [] else '.' :: x.digits.drop 1) ++
    ['e'] ++ exponentText (x.point - 1)

def magnitudeText (layout : Layout) (bits : Nat) : List Char :=
  let x := shortest layout.tie (Binary.ofBits bits)
  if layout.positional (x.point - 1) then layout.positionalText x else scientificText x

def signBit : Nat := Nat.pow 2 63

def text (layout : Layout) (x : Float) : List Char :=
  let bits := x.toBits.toNat
  let sign := if bits / signBit = 1 then ['-'] else []
  if bits % signBit = 0 then sign ++ ['0'] ++ layout.wholeMark
  else if Binary.exponentPart bits = 2047 then
    if Binary.fractionPart bits = 0 then sign ++ ['i', 'n', 'f'] else ['N', 'a', 'N']
  else sign ++ layout.magnitudeText bits

end Layout

end UiPlan.Decimal
