/-! Decoding of character references. A reference is an ampersand, a name and a
semicolon at most ten characters after the ampersand; the name is one of six words
or a number sign with a decimal or hexadecimal number, which may carry a plus. An
ampersand that starts no reference stands for itself, and decoding goes on behind
it.
-/
namespace UiPlan.Text

def digitValue? (base : Nat) (c : Char) : Option Nat :=
  let value :=
    if c.isDigit then c.toNat - '0'.toNat
    else if 'a' ≤ c ∧ c ≤ 'z' then c.toNat - 'a'.toNat + 10
    else if 'A' ≤ c ∧ c ≤ 'Z' then c.toNat - 'A'.toNat + 10
    else base
  if value < base then some value else none

def digitsValue? (base : Nat) (value : Nat) : List Char → Option Nat
  | [] => some value
  | c :: rest => match digitValue? base c with
    | some digit => digitsValue? base (base * value + digit) rest
    | none => none

def natural? (base : Nat) : List Char → Option Nat
  | '+' :: c :: rest => digitsValue? base 0 (c :: rest)
  | ['+'] => none
  | [] => none
  | cs => digitsValue? base 0 cs

def scalar? (n : Nat) : Option Char := if n.isValidChar then some (Char.ofNat n) else none

def namedChar? : List Char → Option Char
  | '#' :: 'x' :: digits => (natural? 16 digits).bind scalar?
  | '#' :: 'X' :: digits => (natural? 16 digits).bind scalar?
  | '#' :: digits => (natural? 10 digits).bind scalar?
  | ['a', 'm', 'p'] => some '&'
  | ['l', 't'] => some '<'
  | ['g', 't'] => some '>'
  | ['q', 'u', 'o', 't'] => some '"'
  | ['a', 'p', 'o', 's'] => some '\''
  | ['n', 'b', 's', 'p'] => some '\u00a0'
  | _ => none

def reference? (rest : List Char) : Option (Char × Nat) :=
  let window := rest.take 10
  let name := window.takeWhile (· ≠ ';')
  if name.length < window.length then (namedChar? name).map (·, name.length + 1) else none

/-- Decodes a text whose first `skip` characters belong to a reference already decoded. -/
def decodeFrom : (skip : Nat) → List Char → List Char
  | _, [] => []
  | skip + 1, _ :: rest => decodeFrom skip rest
  | 0, c :: rest =>
    if c = '&' then
      match reference? rest with
      | some (decoded, length) => decoded :: decodeFrom length rest
      | none => c :: decodeFrom 0 rest
    else c :: decodeFrom 0 rest

def decode (cs : List Char) : List Char := decodeFrom 0 cs

end UiPlan.Text
