import Dalvik.Bytes.LittleEndian

/-!
# Reading bytes in order

A cursor is a position together with the bytes that follow it. A reader consumes bytes from the
front of a cursor or reports why it cannot. Besides words of fixed width there are LEB128 values:
groups of seven bits, lowest group first, in which every byte but the last has its high bit set.
A value has at most five groups.
-/

namespace Dalvik.Bytes

/-- A position in a byte string and the bytes from there on. -/
structure Cursor where
  pos : Nat
  rest : List UInt8
  deriving DecidableEq, Repr

/-- Why a reader stops. -/
inductive ReadFault where
  | truncated (needed pos available : Nat)
  | leb128 (pos : Nat)
  deriving DecidableEq, Repr

namespace ReadFault

/-- The position up to which bytes were consumed. -/
def position : ReadFault → Nat
  | truncated _ pos _ => pos
  | leb128 pos => pos

/-- The particulars of a fault. -/
def detail : ReadFault → String
  | truncated needed pos available => s!"need {needed} bytes at {pos}, have {available}"
  | leb128 pos => s!"at {pos}"

end ReadFault

/-- A step that consumes bytes; its faults have type `ε`. -/
abbrev Reader (ε : Type) := StateT Cursor (Except ε)

namespace Reader

/-- Restates the faults of a reader. -/
def mapFault {ε δ α : Type} (f : ε → δ) (r : Reader ε α) : Reader δ α :=
  fun c => (r.run c).mapError f

/-- A word of two bytes. -/
def u2 : Reader ReadFault UInt16 := fun c =>
  match c.rest with
  | a :: b :: rest => .ok (toUInt16 a b, ⟨c.pos + 2, rest⟩)
  | short => .error (.truncated 2 c.pos short.length)

/-- A word of four bytes. -/
def u4 : Reader ReadFault UInt32 := fun c =>
  match c.rest with
  | x :: y :: z :: w :: rest => .ok (toUInt32 x y z w, ⟨c.pos + 4, rest⟩)
  | short => .error (.truncated 4 c.pos short.length)

/-- Fails unless `n` more bytes are there; consumes nothing. -/
def need (n : Nat) : Reader ReadFault Unit := fun c =>
  if n ≤ c.rest.length then .ok ((), c) else .error (.truncated n c.pos c.rest.length)

/-- Runs `step` for the `n` indices from `i` on, and adds what it reads to `acc`. -/
def collect {ε α : Type} (step : Nat → Reader ε α) (i : Nat) :
    Nat → Array α → Reader ε (Array α)
  | 0, acc => fun c => .ok (acc, c)
  | n + 1, acc => fun c =>
    match step i c with
    | .error e => .error e
    | .ok (a, c') => collect step (i + 1) n (acc.push a) c'

/-! ## LEB128 -/

/-- The bytes up to and including the first one without the continuation bit, which must be
among the next `n`. -/
def groups : Nat → Reader ReadFault (List UInt8)
  | 0 => fun c => .error (.leb128 c.pos)
  | n + 1 => fun c =>
    match c.rest with
    | [] => .error (.truncated 1 c.pos 0)
    | b :: rest =>
      if b.toNat < 128 then .ok ([b], ⟨c.pos + 1, rest⟩)
      else
        match groups n ⟨c.pos + 1, rest⟩ with
        | .error e => .error e
        | .ok (bs, c') => .ok (b :: bs, c')

/-- The number that groups of seven bits denote, lowest group first. -/
def groupsValue : List UInt8 → Nat
  | [] => 0
  | b :: bs => b.toNat % 128 + 128 * groupsValue bs

/-- The largest number of groups of a 32-bit value. -/
def maxGroups : Nat := 5

/-- An unsigned value, taken modulo 2^32. -/
def uleb128 : Reader ReadFault UInt32 := do
  let bs ← groups maxGroups
  return (groupsValue bs).toUInt32

/-- The number that groups denote when bit 6 of the last one is a sign. -/
def signedValue (bs : List UInt8) : Int :=
  let negative := bs.getLast?.any fun b => b.toNat % 128 ≥ 64
  if negative then (groupsValue bs : Int) - (Nat.pow 128 bs.length : Nat) else groupsValue bs

/-- A signed value, reduced to the range of 32 bits. -/
def sleb128 : Reader ReadFault Int := do
  let bs ← groups maxGroups
  return (signedValue bs).bmod 0x100000000

end Reader

end Dalvik.Bytes
