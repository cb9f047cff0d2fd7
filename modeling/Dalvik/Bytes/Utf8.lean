/-!
# UTF-8

Texts as bytes, and bytes as texts. A byte that does not belong to a well-formed sequence is read
as the replacement character, and reading goes on behind that one byte.
-/

namespace Dalvik.Bytes.Utf8

/-- The bytes of a text. -/
def encode (s : String) : List UInt8 := s.toUTF8.toList

/-- The character that stands for a byte which belongs to no sequence. -/
def replacement : Char := Char.ofNat 0xfffd

/-- The byte continues a sequence, in the range from `lo` to `hi`. -/
def continues (lo hi : Nat) (b : UInt8) : Bool := lo ≤ b.toNat && b.toNat ≤ hi

/-- The low six bits of a byte. -/
def low6 (b : UInt8) : Nat := b.toNat % 64

/-- The number of bytes after the first one, and the range of the second byte, of the sequences
that start with `b`; `none` if no sequence of more than one byte starts with it. -/
def lead? (b : UInt8) : Option (Nat × Nat × Nat) :=
  let n := b.toNat
  if 0xc2 ≤ n && n ≤ 0xdf then some (1, 0x80, 0xbf)
  else if n == 0xe0 then some (2, 0xa0, 0xbf)
  else if n == 0xed then some (2, 0x80, 0x9f)
  else if 0xe1 ≤ n && n ≤ 0xef then some (2, 0x80, 0xbf)
  else if n == 0xf0 then some (3, 0x90, 0xbf)
  else if 0xf1 ≤ n && n ≤ 0xf3 then some (3, 0x80, 0xbf)
  else if n == 0xf4 then some (3, 0x80, 0x8f)
  else none

/-- The character at the front of `b :: rest`, and the number of bytes of `rest` that it takes. -/
def first (b : UInt8) (rest : List UInt8) : Char × Nat :=
  if b.toNat < 0x80 then (Char.ofNat b.toNat, 0)
  else
    match lead? b, rest with
    | some (1, lo, hi), c :: _ =>
      if continues lo hi c then (Char.ofNat ((b.toNat - 0xc0) * 64 + low6 c), 1)
      else (replacement, 0)
    | some (2, lo, hi), c :: d :: _ =>
      if continues lo hi c && continues 0x80 0xbf d then
        (Char.ofNat (((b.toNat - 0xe0) * 64 + low6 c) * 64 + low6 d), 2)
      else (replacement, 0)
    | some (3, lo, hi), c :: d :: e :: _ =>
      if continues lo hi c && continues 0x80 0xbf d && continues 0x80 0xbf e then
        (Char.ofNat ((((b.toNat - 0xf0) * 64 + low6 c) * 64 + low6 d) * 64 + low6 e), 3)
      else (replacement, 0)
    | _, _ => (replacement, 0)

/-- Adds the characters of `bytes` to `acc`. -/
def decodeOnto (acc : List Char) : List UInt8 → List Char
  | [] => acc
  | b :: rest =>
    let (c, n) := first b rest
    decodeOnto (c :: acc) (rest.drop n)
termination_by bytes => bytes.length
decreasing_by rw [List.length_drop, List.length_cons]; omega

/-- The text of some bytes. -/
def decode (bytes : List UInt8) : String := String.ofList (decodeOnto [] bytes).reverse

end Dalvik.Bytes.Utf8
