/-!
# Hexadecimal text

Byte strings as text, two hexadecimal digits a byte.
-/

namespace LatteHlsl.Hex

/-- The lower-case digit of a number below sixteen. -/
def digit (n : Nat) : Char := (Nat.toDigits 16 n).headD '0'

/-- The number of a digit of either case. -/
def digitValue? (c : Char) : Option Nat :=
  if c.isDigit then some (c.toNat - '0'.toNat)
  else if 'a' ≤ c ∧ c ≤ 'f' then some (c.toNat - 'a'.toNat + 10)
  else if 'A' ≤ c ∧ c ≤ 'F' then some (c.toNat - 'A'.toNat + 10)
  else none

/-- The text of a byte string. -/
def encode (bytes : List UInt8) : String :=
  String.ofList (bytes.flatMap fun b => [digit (b.toNat / 16), digit (b.toNat % 16)])

/-- The bytes that pairs of digits stand for, after those read so far. -/
def decodeChars (acc : Array UInt8) : List Char → Option (Array UInt8)
  | [] => some acc
  | [_] => none
  | a :: b :: rest =>
    match digitValue? a, digitValue? b with
    | some hi, some lo => decodeChars (acc.push (UInt8.ofNat (16 * hi + lo))) rest
    | _, _ => none

/-- The byte string of a text, if it is one. -/
def decode? (s : String) : Option (Array UInt8) := decodeChars #[] s.toList

end LatteHlsl.Hex
