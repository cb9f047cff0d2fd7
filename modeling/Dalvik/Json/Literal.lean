import Dalvik.Json.Token

/-!
# What JSON literals mean

The text of a string literal and the integer of a number literal. A lone half of a surrogate pair
is read as the replacement character, and so is a byte that is not UTF-8.
-/

namespace Dalvik.Json.Literal

open Bytes (Utf8.replacement Utf8.first)

/-! ## Texts -/

/-- The value of a hexadecimal digit; zero for other bytes. -/
def hexValue (b : UInt8) : Nat :=
  if 0x30 ≤ b && b ≤ 0x39 then b.toNat - 0x30
  else if 0x61 ≤ b && b ≤ 0x66 then b.toNat - 0x61 + 10
  else if 0x41 ≤ b && b ≤ 0x46 then b.toNat - 0x41 + 10
  else 0

/-- The code unit that four digits spell. -/
def unitOf (a b c d : UInt8) : Nat :=
  ((hexValue a * 16 + hexValue b) * 16 + hexValue c) * 16 + hexValue d

/-- The code unit is a half of a surrogate pair. -/
def isSurrogate (n : Nat) : Bool := 0xd800 ≤ n && n < 0xe000

/-- The character of a surrogate pair, if the two units are one. -/
def pair? (high low : Nat) : Option Char :=
  if 0xd800 ≤ high && high < 0xdc00 && 0xdc00 ≤ low && low < 0xe000 then
    some (Char.ofNat ((high - 0xd800) * 0x400 + (low - 0xdc00) + 0x10000))
  else none

/-- The character of an escape with a letter; other bytes stand for themselves. -/
def escaped (b : UInt8) : Char :=
  match b.toNat with
  | 0x62 => Char.ofNat 8
  | 0x66 => Char.ofNat 12
  | 0x6e => '\n'
  | 0x72 => '\r'
  | 0x74 => '\t'
  | n => Char.ofNat n

/-- The code unit of an escape by number at the front of some bytes. -/
def unitAt? : List UInt8 → Option Nat
  | 0x5c :: 0x75 :: a :: b :: c :: d :: _ => some (unitOf a b c d)
  | _ => none

/-- The character of the escape by number with unit `n`, and the number of bytes of `rest`,
which follows the escape, that belong to it as well. -/
def unitChar (n : Nat) (rest : List UInt8) : Char × Nat :=
  if isSurrogate n then
    match (unitAt? rest).bind (pair? n) with
    | some c => (c, 6)
    | none => (Utf8.replacement, 0)
  else (Char.ofNat n, 0)

/-- The first character of the content `b :: rest` of a literal, and the number of bytes of
`rest` that belong to it. -/
def firstChar (b : UInt8) (rest : List UInt8) : Char × Nat :=
  if b = 0x5c then
    match rest with
    | [] => (Utf8.replacement, 0)
    | e :: after =>
      if e = 0x75 then
        match after with
        | x :: y :: z :: w :: more =>
          let (c, n) := unitChar (unitOf x y z w) more
          (c, 5 + n)
        | _ => (Utf8.replacement, rest.length)
      else (escaped e, 1)
  else Utf8.first b rest

/-- Adds the characters of the content of a literal to `acc`. -/
def charsOnto (acc : List Char) : List UInt8 → List Char
  | [] => acc
  | b :: rest =>
    let (c, n) := firstChar b rest
    charsOnto (c :: acc) (rest.drop n)
termination_by content => content.length
decreasing_by rw [List.length_drop, List.length_cons]; omega

/-- The text of a string literal with the given content. -/
def text (content : List UInt8) : String := String.ofList (charsOnto [] content).reverse

/-! ## Integers -/

/-- The number that decimal digits spell after `acc`. -/
def naturalFrom (acc : Nat) : List UInt8 → Option Nat
  | [] => some acc
  | b :: rest => if Token.isDigit b then naturalFrom (acc * 10 + (b.toNat - 0x30)) rest else none

/-- The integer of a number literal that has neither fraction nor exponent. -/
def integer? (literal : List UInt8) : Option Int :=
  match literal with
  | 0x2d :: digits => (naturalFrom 0 digits).map fun n => -(n : Int)
  | digits => (naturalFrom 0 digits).map fun n => (n : Int)

end Dalvik.Json.Literal
