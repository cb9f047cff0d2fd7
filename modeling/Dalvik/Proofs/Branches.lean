import Mathlib
import Dalvik.Proofs.Checks

/-!
# Branch checks

The branch at an offset is decoded to the relative offset that the layout speaks of. A branch
check passes if and only if the target is an opcode of the table in the range of 32-bit offsets
and the branch does not go to itself, unless that is allowed.
-/

namespace Dalvik
namespace Layout

/-- A branch holds one relative offset. -/
theorem BranchOffset.unique {code : Code} {o : ℕ} {rel rel' : ℤ} (h : BranchOffset code o rel)
    (h' : BranchOffset code o rel') : rel = rel' := by
  cases h <;> cases h' <;> omega

/-- The high byte of a unit, in two's complement. -/
theorem toInt8_highByte (u : UInt16) :
    (u >>> 8).toUInt8.toInt8.toInt = Int.bmod (u.toNat / 256 : ℕ) 256 := by
  have hu := u.toNat_lt
  have hb : (u >>> 8).toUInt8.toInt8.toInt = Int.bmod (u >>> 8).toUInt8.toNat 256 :=
    BitVec.toInt_eq_toNat_bmod _
  have hs : (u >>> 8).toNat = u.toNat / 256 := by
    rw [UInt16.toNat_shiftRight]
    show u.toNat >>> 8 = _
    rw [Nat.shiftRight_eq_div_pow]
  have hlt : u.toNat / 256 % 2 ^ 8 = u.toNat / 256 := by
    apply Nat.mod_eq_of_lt
    omega
  rw [hb, UInt16.toNat_toUInt8, hs, hlt]

theorem toInt16_eq_bmod (u : UInt16) : u.toInt16.toInt = Int.bmod u.toNat 65536 :=
  BitVec.toInt_eq_toNat_bmod u.toBitVec

end Layout

namespace Check

open Layout

/-! ## Decoding -/

/-- A whole branch inside the code is decoded to its relative offset; it is conditional unless it
is one of the three forms of goto. -/
theorem branchAt_eq_some {code : Code} {o : ℕ}
    (hbranch : (Opcode.ofUnit (rawAt code o)).isBranch = true)
    (hsize : o + (Opcode.ofUnit (rawAt code o)).width ≤ code.size) :
    ∃ rel cond, branchAt code o = .ok (some ⟨rel, cond⟩) ∧ BranchOffset code o rel ∧
      (cond = true ↔ 0x32 ≤ opcodeAt code o) := by
  obtain ⟨hvalue, hone, htwo, hthree⟩ := transfer_info (Opcode.ofUnit (rawAt code o))
  rw [value_ofUnit] at hvalue hone htwo hthree
  have hrange := hvalue.mp hbranch
  have hpos : (Opcode.ofUnit (rawAt code o)).width ≠ 0 := by omega
  have h8 : Opcode.ofUnit (rawAt code o) = .goto8 ↔ opcodeAt code o = 0x28 := ofUnit_eq_iff _ _
  have h16 : Opcode.ofUnit (rawAt code o) = .goto16 ↔ opcodeAt code o = 0x29 := ofUnit_eq_iff _ _
  have h32 : Opcode.ofUnit (rawAt code o) = .goto32 ↔ opcodeAt code o = 0x2a := ofUnit_eq_iff _ _
  change (0x28 ≤ opcodeAt code o ∧ opcodeAt code o ≤ 0x2a) ∨
    (0x32 ≤ opcodeAt code o ∧ opcodeAt code o ≤ 0x3d) at hrange
  change opcodeAt code o = 0x29 ∨ 0x32 ≤ opcodeAt code o ∧ opcodeAt code o ≤ 0x3d → _ at htwo
  change opcodeAt code o = 0x26 ∨ 0x2a ≤ opcodeAt code o ∧ opcodeAt code o ≤ 0x2c → _ at hthree
  -- the guard against a branch that is cut short
  have hwhole : (!(Opcode.ofUnit (rawAt code o)).isBranch ||
      decide (code.size < o + (Opcode.ofUnit (rawAt code o)).width)) = false := by
    rw [hbranch, decide_eq_false (by omega)]
    rfl
  unfold branchAt
  rw [getElem?_code (show o < code.size by omega)]
  simp only [hwhole, Bool.false_eq_true, if_false]
  -- the three forms of goto in turn; what is left is conditional. The operands of each are
  -- units of the code, because the branch is whole
  by_cases hg8 : opcodeAt code o = 0x28
  · rw [if_pos (h8.mpr hg8), toInt8_highByte]
    exact ⟨_, false, rfl, .goto8 hg8, iff_of_false (by decide) (by omega)⟩
  · rw [if_neg (mt h8.mp hg8)]
    by_cases hg16 : opcodeAt code o = 0x29
    · rw [if_pos (h16.mpr hg16), unit_eq (show o + 1 < code.size by omega), Except.map,
        toInt16_eq_bmod]
      exact ⟨_, false, rfl, .goto16 hg16, iff_of_false (by decide) (by omega)⟩
    · rw [if_neg (mt h16.mp hg16)]
      by_cases hg32 : opcodeAt code o = 0x2a
      · rw [if_pos (h32.mpr hg32), signedPair_eq (show o + 1 + 1 < code.size by omega),
          Except.map]
        exact ⟨_, false, rfl, .goto32 hg32, iff_of_false (by decide) (by omega)⟩
      · rw [if_neg (mt h32.mp hg32), unit_eq (show o + 1 < code.size by omega), Except.map,
          toInt16_eq_bmod]
        exact ⟨_, true, rfl, .cond (by omega), iff_of_true rfl (by omega)⟩

/-- Decoding a branch never fails. -/
theorem exists_branchAt (code : Code) (o : ℕ) : ∃ b, branchAt code o = .ok b := by
  by_cases hlt : o < code.size
  · by_cases hwhole : (Opcode.ofUnit (rawAt code o)).isBranch = true ∧
        o + (Opcode.ofUnit (rawAt code o)).width ≤ code.size
    · obtain ⟨rel, cond, hb, -⟩ := branchAt_eq_some hwhole.1 hwhole.2
      exact ⟨_, hb⟩
    -- anything that is not a whole branch is decoded to nothing
    · refine ⟨none, ?_⟩
      unfold branchAt
      rw [getElem?_code hlt]
      simp only
      rw [if_pos]
      by_cases hbranch : (Opcode.ofUnit (rawAt code o)).isBranch = true
      · have hcut : code.size < o + (Opcode.ofUnit (rawAt code o)).width := by
          by_contra hle
          exact hwhole ⟨hbranch, by omega⟩
        simp [hcut]
      · simp [hbranch]
  · exact ⟨none, by rw [branchAt, Array.getElem?_eq_none (by omega)]⟩

theorem refuses_branchOf (m : Method) (t : FlagTable) (query : Query) (off : Int) :
    Refuses (branchOf m t query off) := by
  refine (refuses_covered m t).bind fun _ _ => ?_
  refine (refuses_instructionAt t query off).bind fun _ _ => ?_
  obtain ⟨b, hb⟩ := exists_branchAt m.code off.toNat
  rw [hb, ok_bind]
  cases b with
  | none => exact Refuses.refuseAt _ _
  | some b => exact Refuses.ok b

/-- A whole branch at an opcode of the table. -/
theorem branchOf_eq_ok {m : Method} {t : FlagTable} {o : ℕ} (query : Query)
    (hsize : t.size = m.code.size) (hop : t.isOpcode o = true)
    (hbranch : (Opcode.ofUnit (rawAt m.code o)).isBranch = true)
    (hwhole : o + (Opcode.ofUnit (rawAt m.code o)).width ≤ m.code.size) :
    ∃ rel cond, branchOf m t query o = .ok ⟨rel, cond⟩ ∧ BranchOffset m.code o rel ∧
      (cond = true ↔ 0x32 ≤ opcodeAt m.code o) := by
  obtain ⟨rel, cond, hb, hrel⟩ := branchAt_eq_some hbranch hwhole
  refine ⟨rel, cond, ?_, hrel⟩
  rw [branchOf, (covered_eq_ok_iff m t).mpr hsize, ok_bind,
    (instructionAt_eq_ok_iff t query o).mpr hop, ok_bind, Int.toNat_natCast, hb, ok_bind]
  rfl

/-! ## Checking -/

theorem refuses_branchTarget (m : Method) (t : FlagTable) (off : Int) (selfOkay : Bool) :
    Refuses (branchTarget m t off selfOkay) := by
  refine (refuses_branchOf m t _ off).bind fun b _ => ?_
  refine Refuses.ite (fun _ => Refuses.refuseAt _ _) fun _ => ?_
  refine Refuses.ite (fun _ => Refuses.refuseAt _ _) fun _ => ?_
  exact Refuses.ite (fun _ => Refuses.refuseAt _ _) fun _ => Refuses.ok _

/-- The kinds of faults of a branch; one that may go to itself has no fault for that. -/
def branchKinds (selfOkay : Bool) : List FaultKind :=
  if selfOkay then [.branchOverflow, .branchTarget]
  else [.selfBranch, .branchOverflow, .branchTarget]

/-- The check of a whole branch fails where it stands, for its target. -/
theorem confined_branchTarget {m : Method} {t : FlagTable} {o : ℕ} (selfOkay : Bool)
    (hsize : t.size = m.code.size) (hop : t.isOpcode o = true)
    (hbranch : (Opcode.ofUnit (rawAt m.code o)).isBranch = true)
    (hwhole : o + (Opcode.ofUnit (rawAt m.code o)).width ≤ m.code.size) :
    Confined o (branchKinds selfOkay) (branchTarget m t o selfOkay) := by
  obtain ⟨rel, cond, hb, -⟩ := branchOf_eq_ok .branchCheck hsize hop hbranch hwhole
  have hoverflow : FaultKind.branchOverflow ∈ branchKinds selfOkay := by
    cases selfOkay <;> simp [branchKinds]
  have htarget : FaultKind.branchTarget ∈ branchKinds selfOkay := by
    cases selfOkay <;> simp [branchKinds]
  rw [branchTarget, hb, ok_bind]
  refine Confined.ite (fun hself => Confined.refuseAt ?_) fun _ => ?_
  · have hno : selfOkay = false := by simpa using hself.2
    rw [hno]
    simp [branchKinds, Cause.kind]
  refine Confined.ite (fun _ => Confined.refuseAt hoverflow) fun _ => ?_
  exact Confined.ite (fun _ => Confined.refuseAt htarget) fun _ => Confined.ok _

/-- The check of a whole branch passes if and only if it goes to an opcode of the table. -/
theorem branchTarget_eq_ok_iff {m : Method} {t : FlagTable} {o target : ℕ} {selfOkay : Bool}
    (hsize : t.size = m.code.size) (hop : t.isOpcode o = true)
    (hbranch : (Opcode.ofUnit (rawAt m.code o)).isBranch = true)
    (hwhole : o + (Opcode.ofUnit (rawAt m.code o)).width ≤ m.code.size) :
    branchTarget m t o selfOkay = .ok target ↔
      ∃ rel, BranchOffset m.code o rel ∧ (rel = 0 → selfOkay = true) ∧
        Lands t (o + rel) target := by
  obtain ⟨rel, cond, hb, hrel, -⟩ := branchOf_eq_ok .branchCheck hsize hop hbranch hwhole
  rw [branchTarget, hb, ok_bind]
  simp only
  rw [guard_eq_ok_iff]
  have hself : ¬ (rel = 0 ∧ (!selfOkay) = true) ↔ (rel = 0 → selfOkay = true) := by
    cases selfOkay <;> simp
  rw [hself]
  constructor
  · intro hpassed
    rcases hpassed with ⟨hokay, h⟩
    exact ⟨rel, hrel, hokay, (landing_eq_ok_iff hsize _ _ _ _ _).mp h⟩
  · intro hlanding
    rcases hlanding with ⟨rel', hrel', hokay, h⟩
    -- there is only one offset to speak of
    cases hrel.unique hrel'
    exact ⟨hokay, (landing_eq_ok_iff hsize _ _ _ _ _).mpr h⟩

theorem branchTarget_eq_of_sameWidths {m : Method} {t t' : FlagTable} (hw : t.SameWidths t')
    (off : ℤ) (selfOkay : Bool) : branchTarget m t off selfOkay = branchTarget m t' off selfOkay := by
  rw [branchTarget, branchTarget, branchOf, branchOf, covered_eq_of_sameWidths hw,
    instructionAt_eq_of_sameWidths hw]
  simp only [hw.isOpcode_eq]

end Check
end Dalvik
