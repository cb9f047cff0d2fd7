import Dalvik.Text.Blank

/-!
# Hexadecimal byte strings

Two digits per byte, high digit first. Reading takes digits of either case, an optional `0x` or
`0X` in front, and white space around all of it; writing uses small letters.
-/

namespace Dalvik.Bytes.Hex

/-- The digit of a value below 16. -/
def digit (n : Nat) : Char := Nat.digitChar n

/-- The value of a digit. -/
def value? (c : Char) : Option Nat :=
  if '0' ≤ c && c ≤ '9' then some (c.toNat - '0'.toNat)
  else if 'a' ≤ c && c ≤ 'f' then some (c.toNat - 'a'.toNat + 10)
  else if 'A' ≤ c && c ≤ 'F' then some (c.toNat - 'A'.toNat + 10)
  else none

/-- The two digits of a byte. -/
def ofByte (b : UInt8) : List Char := [digit (b.toNat / 16), digit (b.toNat % 16)]

/-- The digits of a byte string. -/
def encode (bytes : List UInt8) : String := String.ofList (bytes.flatMap ofByte)

/-- Why a text is no byte string. -/
inductive Fault where
  | digit
  | oddLength
  deriving DecidableEq, Repr

/-- The wording of a fault. -/
def Fault.message : Fault → String
  | digit => "invalid hex string"
  | oddLength => "hex string of odd length"

/-- Adds the bytes that pairs of digits spell to `acc`. A wrong digit is found before a digit
that is left over. -/
def decodeDigits : List Char → Array UInt8 → Except Fault (Array UInt8)
  | [], acc => .ok acc
  | [c], _ => if (value? c).isSome then .error .oddLength else .error .digit
  | c :: d :: rest, acc =>
    match value? c, value? d with
    | some high, some low => decodeDigits rest (acc.push (high * 16 + low).toUInt8)
    | _, _ => .error .digit

/-- The text without a leading `0x` or `0X`. -/
def dropMark : List Char → List Char
  | '0' :: 'x' :: rest => rest
  | '0' :: 'X' :: rest => rest
  | s => s

/-- The bytes that a text spells. -/
def decode (s : String) : Except Fault (List UInt8) :=
  (decodeDigits (dropMark (Text.trimChars s.toList)) #[]).map (·.toList)

end Dalvik.Bytes.Hex
