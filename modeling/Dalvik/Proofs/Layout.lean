import Mathlib
import Dalvik.Method
import Dalvik.Opcode

/-!
# Well-formed methods

What the code of a method has to look like, said without any reference to how it is checked.

* `IsInstruction`: the units of one ordinary instruction or of one payload table;
* `Tiled`: the code is a concatenation of instructions;
* `InstructionAt`, `IsStart`: where the instructions of a code start, whether or not the code is
  tiled as a whole;
* `BranchOffset`, `CaseOffset`: the relative offsets that branches and switches hold;
* `WellFormed`: what a method has to satisfy as a whole.

All numbers are exact: units are naturals, offsets are integers.
-/

namespace Dalvik
namespace Layout

/-! ## Numbers in units -/

/-- The unit at `i`, zero outside the code. -/
def rawAt (code : Code) (i : ℕ) : UInt16 := code[i]?.getD 0

/-- The unit at `i` as a number. -/
def unitAt (code : Code) (i : ℕ) : ℕ := (rawAt code i).toNat

/-- The number in the two units at `i`, low unit first. -/
def pairAt (code : Code) (i : ℕ) : ℕ := unitAt code i + 65536 * unitAt code (i + 1)

/-- The number in the two units at `i`, in two's complement. -/
@[irreducible] def signedAt (code : Code) (i : ℕ) : ℤ := Int.bmod (pairAt code i) 4294967296

/-- The opcode of the instruction at `o`: the low byte of its first unit. -/
def opcodeAt (code : Code) (o : ℕ) : ℕ := unitAt code o % 256

/-! ## Instructions -/

/-- The units of one instruction. An ordinary instruction has an assigned opcode and the width of
that opcode; a payload table has the extent that its header asks for, which fits sixteen bits. -/
inductive IsInstruction : List UInt16 → Prop where
  | ordinary (first : UInt16) (rest : List UInt16)
      (hfirst : first ≠ 0x0100 ∧ first ≠ 0x0200 ∧ first ≠ 0x0300)
      (hop : (Opcode.ofUnit first).isAssigned = true)
      (hlen : rest.length + 1 = (Opcode.ofUnit first).width) :
      IsInstruction (first :: rest)
  | packedSwitch (n : UInt16) (rest : List UInt16)
      (hlen : rest.length + 2 = 4 + 2 * n.toNat) (hmax : rest.length + 2 ≤ 65535) :
      IsInstruction (0x0100 :: n :: rest)
  | sparseSwitch (n : UInt16) (rest : List UInt16)
      (hlen : rest.length + 2 = 2 + 4 * n.toNat) (hmax : rest.length + 2 ≤ 65535) :
      IsInstruction (0x0200 :: n :: rest)
  | arrayData (width low high : UInt16) (rest : List UInt16)
      (hlen : rest.length + 4
        = 4 + (width.toNat * (low.toNat + 65536 * high.toNat) + 1) / 2)
      (hmax : rest.length + 4 ≤ 65535) :
      IsInstruction (0x0300 :: width :: low :: high :: rest)

/-- An instruction with the units `p` starts at `o`: the code begins with whole instructions that
fill the units below `o`, and then comes `p`. -/
def InstructionAt (code : Code) (o : ℕ) (p : List UInt16) : Prop :=
  ∃ front : List (List UInt16), front.flatten ++ p <+: code.toList ∧
    (∀ q ∈ front, IsInstruction q) ∧ IsInstruction p ∧ front.flatten.length = o

/-- An instruction starts at `o`. -/
def IsStart (code : Code) (o : ℕ) : Prop := ∃ p, InstructionAt code o p

/-- The code is a concatenation of instructions, and not of none. -/
def Tiled (code : Code) : Prop :=
  ∃ parts : List (List UInt16), parts ≠ [] ∧ code.toList = parts.flatten ∧
    ∀ p ∈ parts, IsInstruction p

/-! ## Transfers of control -/

/-- The `goto` or `if` instruction at `o` holds the relative offset `rel`, in 8, 16 or 32 bits. -/
inductive BranchOffset (code : Code) (o : ℕ) : ℤ → Prop where
  | goto8 (h : opcodeAt code o = 0x28) : BranchOffset code o (Int.bmod (unitAt code o / 256 : ℕ) 256)
  | goto16 (h : opcodeAt code o = 0x29) : BranchOffset code o (Int.bmod (unitAt code (o + 1)) 65536)
  | goto32 (h : opcodeAt code o = 0x2a) : BranchOffset code o (signedAt code (o + 1))
  | cond (h : 0x32 ≤ opcodeAt code o ∧ opcodeAt code o ≤ 0x3d) :
      BranchOffset code o (Int.bmod (unitAt code (o + 1)) 65536)

/-- The instruction at `o` refers to the unit at `s`. -/
def RefersTo (code : Code) (o s : ℕ) : Prop := (s : ℤ) = o + signedAt code (o + 1)

/-- The table of the switch at `o` holds the relative offset `rel` for one of its cases. The table
of a packed switch lists them after the first key, that of a sparse switch after all keys. -/
inductive CaseOffset (code : Code) (o : ℕ) : ℤ → Prop where
  | packed {s i : ℕ} (h : opcodeAt code o = 0x2b) (href : RefersTo code o s)
      (hi : i < unitAt code (s + 1)) : CaseOffset code o (signedAt code (s + 4 + 2 * i))
  | sparse {s i : ℕ} (h : opcodeAt code o = 0x2c) (href : RefersTo code o s)
      (hi : i < unitAt code (s + 1)) :
      CaseOffset code o (signedAt code (s + 2 + 2 * unitAt code (s + 1) + 2 * i))

/-- The branch or switch at `o` can go to `a`. -/
def JumpsTo (code : Code) (o a : ℕ) : Prop :=
  ∃ rel, (BranchOffset code o rel ∨ CaseOffset code o rel) ∧ (a : ℤ) = o + rel

/-- The address is an instruction start in the range of signed 32-bit offsets. -/
def LegalTarget (code : Code) (a : ℤ) : Prop :=
  ∃ n : ℕ, (n : ℤ) = a ∧ IsStart code n ∧ n ≤ 2147483647

/-- The instruction at `o` refers to a payload table with the given signature: an instruction that
starts at an even offset. -/
def RefersToTable (code : Code) (o s signature : ℕ) : Prop :=
  RefersTo code o s ∧ s % 2 = 0 ∧ IsStart code s ∧ unitAt code s = signature

/-- The keys of the sparse-switch table at `s` ascend. -/
def KeysAscend (code : Code) (s : ℕ) : Prop :=
  ∀ i j, i < j → j < unitAt code (s + 1) →
    signedAt code (s + 2 + 2 * i) < signedAt code (s + 2 + 2 * j)

/-- What the instruction at `o` may transfer control or refer to. -/
structure LegalAt (code : Code) (o : ℕ) : Prop where
  /-- A branch goes to an instruction, and only `goto/32` to itself. -/
  branch : ∀ rel, BranchOffset code o rel →
    LegalTarget code (o + rel) ∧ (rel = 0 → opcodeAt code o = 0x2a)
  /-- A packed switch refers to a table of its kind. -/
  packed : opcodeAt code o = 0x2b → ∃ s, RefersToTable code o s 0x0100
  /-- A sparse switch refers to a table of its kind, whose keys ascend. -/
  sparse : opcodeAt code o = 0x2c → ∃ s, RefersToTable code o s 0x0200 ∧ KeysAscend code s
  /-- Every case of a switch goes to an instruction. -/
  caseTarget : ∀ rel, CaseOffset code o rel → LegalTarget code (o + rel)
  /-- A fill-array instruction refers to an array-data table. -/
  array : opcodeAt code o = 0x26 → ∃ s, RefersToTable code o s 0x0300

/-! ## Methods -/

/-- The method is well formed. -/
structure WellFormed (m : Method) : Prop where
  /-- The code is a concatenation of instructions. -/
  tiled : Tiled m.code
  /-- Every try block covers whole instructions, and at least one. -/
  tries : ∀ b ∈ m.tries, 0 < b.count.toNat ∧ IsStart m.code b.start.toNat ∧
    (IsStart m.code (b.start.toNat + b.count.toNat) ∨
      b.start.toNat + b.count.toNat = m.code.size)
  /-- Every handler starts at an instruction. -/
  handlers : ∀ hs ∈ m.allHandlers, ∀ h ∈ hs, IsStart m.code h.addr.toNat
  /-- Every instruction is legal where it stands. -/
  transfers : ∀ o, IsStart m.code o → LegalAt m.code o

end Layout
end Dalvik
