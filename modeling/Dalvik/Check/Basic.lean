import Dalvik.FlagTable
import Dalvik.Rejection

/-!
# Checks

A check looks at a method and its flag table and either passes or halts. It halts with a cause,
at an offset or without one. Reading or writing a unit that does not exist also halts, and so
does a walk that does not advance; these two outcomes have no cause, and no check of a method
reaches them.
-/

namespace Dalvik

/-- How a check stops short. -/
inductive Halt where
  | refused (offset : Option Int) (cause : Cause)
  | outOfRange
  | stalled
  deriving DecidableEq, Repr

/-- The rejection of `m` that a halted check amounts to. -/
def Halt.rejection? (m : Method) : Halt → Option Rejection
  | refused offset cause => some (Rejection.of m offset cause)
  | outOfRange => none
  | stalled => none

/-- The failure of `m` that a halted check amounts to. -/
def Halt.failure (m : Method) : Halt → Failure
  | refused offset cause => .rejection (Rejection.of m offset cause)
  | outOfRange => .text "offset out of range"
  | stalled => .text "no progress"

/-- The outcome of a check. -/
abbrev Check := Except Halt

namespace Check

/-- Halts with `cause` at `off`. -/
def refuseAt {α : Type} (off : Int) (cause : Cause) : Check α := .error (.refused (some off) cause)

/-- Halts with `cause`, which belongs to no single instruction. -/
def refuse {α : Type} (cause : Cause) : Check α := .error (.refused none cause)

/-- The unit at `i`. -/
def unit (code : Code) (i : Nat) : Check UInt16 :=
  match code[i]? with
  | some u => .ok u
  | none => .error .outOfRange

/-- The signed value in the two units at `i`. -/
def signedPair (code : Code) (i : Nat) : Check Int :=
  match Code.signedPair? code i with
  | some v => .ok v
  | none => .error .outOfRange

/-- The flag word at `i`. -/
def word (t : FlagTable) (i : Nat) : Check FlagWord :=
  match t.words[i]? with
  | some w => .ok w
  | none => .error .outOfRange

/-- The table has one word for every unit of the method. -/
def covered (m : Method) (t : FlagTable) : Check Unit :=
  if t.covers m.code then .ok () else refuse (.tableSize t.size m.code.size)

/-- An instruction starts at `off`. -/
def instructionAt (t : FlagTable) (query : Query) (off : Int) : Check Unit :=
  if t.isOpcode off then .ok () else refuse (.noInstruction query off)

/-- The value lies in the range of signed 32-bit offsets. -/
def fitsOffset (v : Int) : Bool := -0x80000000 ≤ v && v < 0x80000000

/-- The table with the mark at every listed address. -/
def markAll (t : FlagTable) (m : Mark) (addrs : List Nat) : Check Unit × FlagTable :=
  if addrs.all (· < t.size) then (.ok (), addrs.foldl (·.mark m) t) else (.error .outOfRange, t)

end Check

end Dalvik
