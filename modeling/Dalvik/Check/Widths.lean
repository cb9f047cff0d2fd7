import Dalvik.Check.Basic

/-!
# Instruction widths

The code is decoded in sequence from offset zero: each instruction, or payload table, starts where
the one before it ends. The scan records the width of every instruction at its start and counts
the allocations.
-/

namespace Dalvik

theorem Code.payloadExtent?_pos {code : Code} {kind : PayloadKind} {off extent : Nat}
    (h : Code.payloadExtent? code kind off = some extent) : 0 < extent := by
  cases kind <;> simp only [Code.payloadExtent?] at h
  · obtain ⟨n, _, rfl⟩ := Option.map_eq_some_iff.1 h
    simp only [packedSwitchExtent]; omega
  · obtain ⟨n, _, rfl⟩ := Option.map_eq_some_iff.1 h
    simp only [sparseSwitchExtent]; omega
  · split at h
    · cases h
      simp only [arrayDataExtent]; omega
    · cases h

/-- A payload table is never empty. -/
theorem Code.measureAt_pos {code : Code} {off extent : Nat}
    (h : Code.measureAt code off = .ok (some extent)) : 0 < extent := by
  unfold Code.measureAt at h
  split at h
  · cases h
  · split at h
    · cases h
    · split at h
      · cases h
      · rename_i hx
        split at h
        · cases h
          exact Code.payloadExtent?_pos hx
        · cases h

/-- One step of the sequential decode: a width, and whether the instruction allocates. -/
structure Instruction where
  width : Nat
  allocates : Bool
  width_pos : 0 < width

/-- The instruction, or payload table, at `off`. -/
def Instruction.decode (code : Code) (off : Nat) : Except Cause Instruction :=
  match h : Code.measureAt code off with
  | .error fault => .error (.payload fault)
  | .ok (some extent) =>
    if FlagWord.maxWidth < extent then .error (.width extent)
    else .ok ⟨extent, false, Code.measureAt_pos h⟩
  | .ok none =>
    match code[off]? with
    | none => .error (.payload (.outside off code.size))
    | some unit =>
      let op := Opcode.ofUnit unit
      if hw : op.width = 0 then .error (.unknownOpcode op)
      else if code.size - off < op.width then
        .error (.instructionEnd op op.width (code.size - off))
      else .ok ⟨op.width, op.isAllocation, Nat.pos_of_ne_zero hw⟩

namespace Check

/-- Records the widths of the instructions from `off` on; `count` allocations came before. No
instruction reaches beyond the code (`Layout.decode_le_size`), so a scan that is not refused ends
where the code ends: it needs no comparison of its last offset with the size of the code. -/
def scanFrom (code : Code) (off count : Nat) (t : FlagTable) : Check Nat × FlagTable :=
  if off < code.size then
    match Instruction.decode code off with
    | .error cause => (refuseAt off cause, t)
    | .ok ins =>
      if off < t.size then
        have := ins.width_pos
        scanFrom code (off + ins.width) (count + ins.allocates.toNat)
          (t.modify off (·.setWidth ins.width))
      else (.error .outOfRange, t)
  else (.ok count, t)
termination_by code.size - off

/-- Clears what an earlier scan wrote and records the width of every instruction. The result is
the number of allocations. -/
def widths (m : Method) (t : FlagTable) : Check Nat × FlagTable :=
  if m.code.isEmpty then (refuse .noCode, t)
  else if t.covers m.code then scanFrom m.code 0 0 t.reset
  else (refuse (.tableSize t.size m.code.size), t)

end Check

end Dalvik
