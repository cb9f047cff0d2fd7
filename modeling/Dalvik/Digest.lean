import Dalvik.Bytes.Hex
import Dalvik.Bytes.Utf8

/-!
# Digests

Code is addressed by its BLAKE2b digest of 256 bits. A digest is written as `0x` and 64
digits in small letters; the JSON form is read strictly, from the characters of the literal as
they stand.
-/

namespace Dalvik

/-! ## BLAKE2b -/

namespace Blake2b

/-- Sixteen words: a message block or the working state. -/
abbrev Block := Vector UInt64 16

/-- The chain value. -/
abbrev Chain := Vector UInt64 8

/-- The initialization vector. -/
def iv : Chain :=
  #v[0x6a09e667f3bcc908, 0xbb67ae8584caa73b, 0x3c6ef372fe94f82b, 0xa54ff53a5f1d36f1,
    0x510e527fade682d1, 0x9b05688c2b3e6c1f, 0x1f83d9abfb41bd6b, 0x5be0cd19137e2179]

/-- The message schedule: in each round, the words in the order in which they are used. -/
def schedule : List (Vector (Fin 16) 16) :=
  [#v[0, 1, 2, 3, 4, 5, 6, 7, 8, 9, 10, 11, 12, 13, 14, 15],
    #v[14, 10, 4, 8, 9, 15, 13, 6, 1, 12, 0, 2, 11, 7, 5, 3],
    #v[11, 8, 12, 0, 5, 2, 15, 13, 10, 14, 3, 6, 7, 1, 9, 4],
    #v[7, 9, 3, 1, 13, 12, 11, 14, 2, 6, 5, 10, 4, 0, 15, 8],
    #v[9, 0, 5, 7, 2, 4, 10, 15, 14, 1, 11, 12, 6, 8, 3, 13],
    #v[2, 12, 6, 10, 0, 11, 8, 3, 4, 13, 7, 5, 15, 14, 1, 9],
    #v[12, 5, 1, 15, 14, 13, 4, 10, 0, 7, 6, 3, 9, 2, 8, 11],
    #v[13, 11, 7, 14, 12, 1, 3, 9, 5, 0, 15, 4, 8, 6, 2, 10],
    #v[6, 15, 14, 9, 11, 3, 0, 8, 12, 2, 13, 7, 1, 4, 10, 5],
    #v[10, 2, 8, 4, 7, 6, 1, 5, 15, 11, 9, 14, 3, 12, 13, 0],
    #v[0, 1, 2, 3, 4, 5, 6, 7, 8, 9, 10, 11, 12, 13, 14, 15],
    #v[14, 10, 4, 8, 9, 15, 13, 6, 1, 12, 0, 2, 11, 7, 5, 3]]

/-- Rotation to the right by `n < 64` bits. -/
def rotr (x : UInt64) (n : UInt64) : UInt64 := (x >>> n) ||| (x <<< (64 - n))

/-- Mixes two message words into four words of the state. -/
def mix (v : Block) (a b c d : Fin 16) (x y : UInt64) : Block :=
  let va := v[a] + v[b] + x
  let vd := rotr (v[d] ^^^ va) 32
  let vc := v[c] + vd
  let vb := rotr (v[b] ^^^ vc) 24
  let va := va + vb + y
  let vd := rotr (vd ^^^ va) 16
  let vc := vc + vd
  let vb := rotr (vb ^^^ vc) 63
  (((v.set a va).set b vb).set c vc).set d vd

/-- One round: the four columns, then the four diagonals. -/
def round (m : Block) (v : Block) (s : Vector (Fin 16) 16) : Block :=
  let v := mix v 0 4 8 12 m[s[0]] m[s[1]]
  let v := mix v 1 5 9 13 m[s[2]] m[s[3]]
  let v := mix v 2 6 10 14 m[s[4]] m[s[5]]
  let v := mix v 3 7 11 15 m[s[6]] m[s[7]]
  let v := mix v 0 5 10 15 m[s[8]] m[s[9]]
  let v := mix v 1 6 11 12 m[s[10]] m[s[11]]
  let v := mix v 2 7 8 13 m[s[12]] m[s[13]]
  mix v 3 4 9 14 m[s[14]] m[s[15]]

/-- Compresses a block into the chain value; `count` bytes have been taken in so far. -/
def compress (h : Chain) (m : Block) (count : Nat) (final : Bool) : Chain :=
  let v : Block :=
    #v[h[0], h[1], h[2], h[3], h[4], h[5], h[6], h[7],
      iv[0], iv[1], iv[2], iv[3],
      iv[4] ^^^ count.toUInt64, iv[5] ^^^ (count / 0x10000000000000000).toUInt64,
      if final then ~~~iv[6] else iv[6], iv[7]]
  let v := schedule.foldl (round m) v
  #v[h[0] ^^^ v[0] ^^^ v[8], h[1] ^^^ v[1] ^^^ v[9], h[2] ^^^ v[2] ^^^ v[10],
    h[3] ^^^ v[3] ^^^ v[11], h[4] ^^^ v[4] ^^^ v[12], h[5] ^^^ v[5] ^^^ v[13],
    h[6] ^^^ v[6] ^^^ v[14], h[7] ^^^ v[7] ^^^ v[15]]

/-- The word whose bytes, lowest first, are the first eight of the list; missing bytes are zero. -/
def wordOf (bytes : List UInt8) : UInt64 :=
  (bytes.take 8).foldr (fun b acc => acc * 256 + b.toUInt64) 0

/-- The block that holds up to 128 bytes, filled up with zeros. -/
def blockOf (bytes : List UInt8) : Block :=
  Vector.ofFn fun i => wordOf (bytes.drop (8 * i.val))

/-- Takes in the remaining bytes, after `count` bytes. -/
def absorb (h : Chain) (count : Nat) (bytes : List UInt8) : Chain :=
  match hd : bytes.drop 128 with
  | [] => compress h (blockOf bytes) (count + bytes.length) true
  | next :: rest =>
    absorb (compress h (blockOf (bytes.take 128)) (count + 128) false) (count + 128) (next :: rest)
termination_by bytes.length
decreasing_by
  have h := congrArg List.length hd
  simp only [List.length_drop, List.length_cons] at h ⊢
  omega

/-- The bytes of a word, lowest first. -/
def bytesOf (w : UInt64) : List UInt8 :=
  (List.range 8).map fun i => (w >>> (8 * i).toUInt64).toUInt8

/-- The chain value for digests of 32 bytes without a key. -/
def start : Chain := iv.set 0 (iv[0] ^^^ 0x01010020)

/-- The digest of some bytes. -/
def sum256 (bytes : List UInt8) : List UInt8 :=
  ((absorb start 0 bytes).toList.take 4).flatMap bytesOf

end Blake2b

/-! ## Digests -/

/-- Thirty-two bytes. -/
structure Digest where
  bytes : List UInt8
  length_bytes : bytes.length = 32
  deriving DecidableEq

namespace Digest

/-- The number of bytes of a digest. -/
def size : Nat := 32

/-- The last 32 bytes, with zeros in front if there are fewer. -/
def ofBytes (bytes : List UInt8) : Digest where
  bytes := List.replicate (size - bytes.length) 0 ++ bytes.drop (bytes.length - size)
  length_bytes := by simp [size]; omega

/-- The digest of all zeros. -/
def zero : Digest := ofBytes []

/-- The digest that addresses some bytes. -/
def compute (bytes : List UInt8) : Digest := ofBytes (Blake2b.sum256 bytes)

/-- The digits of a digest. -/
def digits (d : Digest) : String := Bytes.Hex.encode d.bytes

/-- The written form of a digest. -/
def text (d : Digest) : String := "0x" ++ d.digits

/-- The first and the last four digits. -/
def short (d : Digest) : String :=
  let chars := d.digits.toList
  String.ofList (chars.take 4) ++ ".." ++ String.ofList (chars.drop (chars.length - 4))

/-- The JSON form of a digest. -/
def json (d : Digest) : String := "\"" ++ d.text ++ "\""

/-- Why a JSON text is no digest. -/
inductive Fault where
  | nonString
  | noMark
  | oddLength
  | length (digits : Nat)
  | digit
  deriving DecidableEq, Repr

/-- The wording of a fault. -/
def Fault.message : Fault → String
  | nonString => "non-string"
  | noMark => "hex string without 0x prefix"
  | oddLength => "hex string of odd length"
  | length digits => s!"hex string has length {digits}, want 64 for common.Hash"
  | digit => "invalid hex string"

/-- The bytes without the mark in front of the digits; no bytes need no mark. -/
def digitsOf (content : List UInt8) : Except Fault (List UInt8) :=
  match content with
  | [] => .ok []
  | 0x30 :: 0x78 :: rest => evenly rest
  | 0x30 :: 0x58 :: rest => evenly rest
  | _ => .error .noMark
where
  /-- Refuses an odd number of digits. -/
  evenly (rest : List UInt8) : Except Fault (List UInt8) :=
    if rest.length % 2 = 0 then .ok rest else .error .oddLength

/-- The digest that the bytes between the quotes of a literal spell. -/
def parseContent (content : List UInt8) : Except Fault Digest := do
  let raw ← digitsOf content
  if raw.length / 2 ≠ size then throw (.length raw.length)
  match Bytes.Hex.decodeDigits (raw.map fun b => Char.ofNat b.toNat) #[] with
  | .ok bytes => return ofBytes bytes.toList
  | .error _ => throw .digit

/-- The digest that a JSON text spells. -/
def parseJson (text : List UInt8) : Except Fault Digest :=
  match text with
  | 0x22 :: rest =>
    if rest.getLast? = some 0x22 then parseContent rest.dropLast else .error .nonString
  | _ => .error .nonString

end Digest

end Dalvik
