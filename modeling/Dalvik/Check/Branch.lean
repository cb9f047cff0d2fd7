import Dalvik.Check.Basic

/-!
# Branches

A `goto` or `if` instruction holds a relative offset of 8, 16 or 32 bits. Its target has to be an
instruction; a branch to itself is refused unless the caller allows it.
-/

namespace Dalvik.Check

/-- A decoded branch: the relative offset and whether the branch is conditional. -/
structure Branch where
  rel : Int
  conditional : Bool
  deriving DecidableEq, Repr

/-- The branch at `off`, or `none` if there is no whole `goto` or `if` instruction. -/
def branchAt (code : Code) (off : Nat) : Check (Option Branch) :=
  match code[off]? with
  | none => .ok none
  | some first =>
    let op := Opcode.ofUnit first
    if !op.isBranch || code.size < off + op.width then .ok none
    else if op = .goto8 then .ok (some ⟨(first >>> 8).toUInt8.toInt8.toInt, false⟩)
    else if op = .goto16 then
      (unit code (off + 1)).map fun u => some ⟨u.toInt16.toInt, false⟩
    else if op = .goto32 then
      (signedPair code (off + 1)).map fun v => some ⟨v, false⟩
    else
      (unit code (off + 1)).map fun u => some ⟨u.toInt16.toInt, true⟩

/-- The branch at `off` of a method with a table that covers it. -/
def branchOf (m : Method) (t : FlagTable) (query : Query) (off : Int) : Check Branch := do
  covered m t
  instructionAt t query off
  match ← branchAt m.code off.toNat with
  | none => refuseAt off .notBranch
  | some b => return b

/-- The address that the branch at `off` goes to, if it is a legal one. -/
def branchTarget (m : Method) (t : FlagTable) (off : Int) (selfOkay : Bool) : Check Nat := do
  let b ← branchOf m t .branchCheck off
  let target := off + b.rel
  if b.rel = 0 ∧ !selfOkay then refuseAt off .selfBranch
  else if !fitsOffset target then refuseAt off (.branchOverflow off b.rel)
  else if target < 0 ∨ (m.code.size : Int) ≤ target ∨ !t.isOpcode target then
    refuseAt off (.branchTarget b.rel target)
  else return target.toNat

/-- Checks the branch at `off` and marks its target. -/
def branch (m : Method) (off : Int) (selfOkay : Bool) (t : FlagTable) : Check Unit × FlagTable :=
  match branchTarget m t off selfOkay with
  | .error h => (.error h, t)
  | .ok target => markAll t .branchTarget [target]

/-- The target of the branch at `off` as it is encoded, and whether the branch is conditional.
The target need not be a legal one. -/
def encodedTarget (m : Method) (t : FlagTable) (off : Int) : Check (Int × Bool) := do
  let b ← branchOf m t .branchQuery off
  return (off + b.rel, b.conditional)

end Dalvik.Check
