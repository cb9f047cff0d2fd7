import Mathlib
import Dalvik.Pass
import Dalvik.Proofs.Branches
import Dalvik.Proofs.Tables
import Dalvik.Proofs.Tries

/-!
# Checks on a table with the widths of the code

When the flag table holds the widths that the scan records, its opcodes are the instruction
starts of the layout. The checks of one instruction then pass if and only if the instruction is
legal in the sense of the layout, and they mark the addresses it can go to (`decides`).
-/

namespace Dalvik
namespace Layout

open Check

/-! ## Opcodes at starts -/

/-- The opcode at `o` is one of `goto`, `goto/16` and `goto/32`, or one of the `if` forms. -/
abbrev HoldsBranch (code : Code) (o : ℕ) : Prop :=
  (0x28 ≤ opcodeAt code o ∧ opcodeAt code o ≤ 0x2a) ∨
    (0x32 ≤ opcodeAt code o ∧ opcodeAt code o ≤ 0x3d)

/-- The opcode at `o` is one of the two switches. -/
abbrev HoldsSwitch (code : Code) (o : ℕ) : Prop :=
  opcodeAt code o = 0x2b ∨ opcodeAt code o = 0x2c

/-- Only a branch has an offset of its own. -/
theorem BranchOffset.opcode {code : Code} {o : ℕ} {rel : ℤ} (h : BranchOffset code o rel) :
    HoldsBranch code o := by
  cases h <;> omega

/-- Only a switch has cases. -/
theorem CaseOffset.opcode {code : Code} {o : ℕ} {rel : ℤ} (h : CaseOffset code o rel) :
    HoldsSwitch code o := by
  cases h
  · exact .inl (by assumption)
  · exact .inr (by assumption)

/-- The opcodes of branches are those that the layout lists. -/
theorem isBranch_iff (code : Code) (o : ℕ) :
    (Opcode.ofUnit (rawAt code o)).isBranch = true ↔ HoldsBranch code o := by
  have hinfo := (transfer_info (Opcode.ofUnit (rawAt code o))).1
  rwa [value_ofUnit] at hinfo

/-- The low byte of a payload signature is zero. -/
theorem opcodeAt_of_payload {code : Code} {o : ℕ} (h : isPayloadUnit (rawAt code o) = true) :
    opcodeAt code o = 0 := by
  obtain ⟨kind, hkind⟩ := Option.isSome_iff_exists.mp h
  rw [opcodeAt, unitAt, (ofUnit?_eq_some_iff _ kind).mp hkind]
  cases kind <;> rfl

/-- An instruction that is no payload table is whole. -/
theorem add_width_le {code : Code} {o : ℕ} (ho : o ∈ startsFrom code 0)
    (hop : opcodeAt code o ≠ 0) : o + (Opcode.ofUnit (rawAt code o)).width ≤ code.size := by
  obtain ⟨ins, hins⟩ := decode_of_mem_startsFrom ho
  obtain ⟨hle, ⟨-, hwidth, -⟩ | ⟨kind, hkind, -⟩⟩ := decode_cases hins
  · rwa [hwidth] at hle
  -- a table has no opcode but zero
  · refine absurd (opcodeAt_of_payload ?_) hop
    rw [isPayloadUnit, (ofUnit?_eq_some_iff _ kind).mpr hkind]
    rfl

/-- Instructions start inside the code. -/
theorem lt_size_of_mem_startsFrom {code : Code} {o : ℕ} (ho : o ∈ startsFrom code 0) :
    o < code.size := by
  obtain ⟨ins, hins⟩ := decode_of_mem_startsFrom ho
  exact decode_lt_size hins

/-- An instruction whose operand is a reference to a table has three units. -/
theorem add_three_le {code : Code} {o : ℕ} (ho : o ∈ startsFrom code 0)
    (hop : opcodeAt code o = 0x26 ∨ HoldsSwitch code o) :
    o + 3 ≤ code.size := by
  have hle := add_width_le ho (by omega)
  have hthree := (transfer_info (Opcode.ofUnit (rawAt code o))).2.2.2
  rw [value_ofUnit] at hthree
  change opcodeAt code o = 0x26 ∨ 0x2a ≤ opcodeAt code o ∧ opcodeAt code o ≤ 0x2c → _ at hthree
  rw [hthree (by omega)] at hle
  exact hle

namespace Recorded

variable {code : Code} {t t' : FlagTable}

/-! ## The table and the layout -/

/-- The widths of a table are all that has to agree with the code. -/
theorem of_sameWidths (h : Recorded code t) (hw : t.SameWidths t') : Recorded code t' where
  size_eq := hw.size_eq.symm.trans h.size_eq
  width_eq i := (hw.width_eq i).symm.trans (h.width_eq i)

/-- The opcodes of the table are the instruction starts of the code. -/
theorem isOpcode_iff (h : Recorded code t) (o : ℕ) : t.isOpcode o = true ↔ IsStart code o := by
  rw [FlagTable.isOpcode_iff, h.width_eq, startWidth_pos_iff, isStart_iff]

/-- An address is a legal target if and only if it lands on an opcode of the table. -/
theorem legalTarget_iff (h : Recorded code t) (a : ℤ) :
    LegalTarget code a ↔ ∃ target, Lands t a target := by
  constructor
  · intro htarget
    rcases htarget with ⟨n, heq, hstart, hle⟩
    exact ⟨n, heq, hle, (h.isOpcode_iff n).mpr hstart⟩
  · intro hlanding
    rcases hlanding with ⟨n, heq, hle, hop⟩
    exact ⟨n, heq, (h.isOpcode_iff n).mp hop, hle⟩

/-- There is a payload table of the kind at an even start with its signature: the scan has recorded
its extent. -/
theorem tableAt_iff (h : Recorded code t) (kind : PayloadKind) (s : ℕ) :
    TableAt code t kind s ↔
      s % 2 = 0 ∧ IsStart code s ∧ unitAt code s = kind.signature.toNat := by
  have hsign : unitAt code s = kind.signature.toNat ↔ rawAt code s = kind.signature :=
    UInt16.toNat_inj
  rw [hsign]
  constructor
  · intro htableAt
    rcases htableAt with ⟨heven, hkind, hinside, hrecorded⟩
    -- the recorded width of a table is its extent, which is not zero
    have htwo := two_le_extentAt code kind s
    refine ⟨heven, ?_, hkind⟩
    rw [isStart_iff, ← startWidth_pos_iff, ← h.width_eq, hrecorded]
    omega
  · intro hstartAt
    rcases hstartAt with ⟨heven, hstart, hkind⟩
    -- a start with a signature has been measured as a table
    have hmem := (isStart_iff code s).mp hstart
    have hwidth := startWidth_eq_extentAt hmem hkind
    refine ⟨heven, hkind, ?_, ?_⟩
    · rw [← hwidth]
      exact add_startWidth_le hmem
    · rw [h.width_eq, hwidth]

/-- A reference to a table, as the checks see it. -/
theorem refersToTable_iff (h : Recorded code t) (kind : PayloadKind) (o s : ℕ) :
    RefersToTable code o s kind.signature.toNat ↔ RefersTo code o s ∧ TableAt code t kind s := by
  rw [RefersToTable, h.tableAt_iff]

/-- A try block is good for the table if and only if it is not empty, begins at a start and ends at
a start or with the code. -/
theorem goodTry_iff (h : Recorded code t) (b : TryBlock) :
    GoodTry t b ↔ 0 < b.count.toNat ∧ IsStart code b.start.toNat ∧
      (IsStart code (b.start.toNat + b.count.toNat) ∨
        b.start.toNat + b.count.toNat = code.size) := by
  constructor
  · intro hgood
    rcases hgood with ⟨hcount, hstart, hstop⟩
    rw [h.isOpcode_iff] at hstart hstop
    rw [h.size_eq] at hstop
    exact ⟨hcount, hstart, hstop⟩
  · intro hgood
    rcases hgood with ⟨hcount, hstart, hstop⟩
    refine ⟨hcount, (h.isOpcode_iff _).mpr hstart, ?_⟩
    rw [h.isOpcode_iff, h.size_eq]
    exact hstop

end Recorded
end Layout

/-! ## One instruction -/

namespace Check

open Layout

/-- The addresses that the instruction at `o` can go to, if it passes its check. -/
def targetsAt (m : Method) (t : FlagTable) (o : ℕ) : Check (List ℕ) :=
  let op := Opcode.ofUnit (rawAt m.code o)
  if isPayloadUnit (rawAt m.code o) then .ok []
  else if op.isBranch then (branchTarget m t o (op == .goto32)).map ([·])
  else if op.isSwitch then switchTargets m t o
  else if op = .fillArrayData then (arrayData m t o).map fun _ => []
  else .ok []

variable {m : Method} {t : FlagTable} {o : ℕ}

/-- A branch goes to its target. -/
theorem targetsAt_branch (h : HoldsBranch m.code o) :
    targetsAt m t o
      = (branchTarget m t o (Opcode.ofUnit (rawAt m.code o) == .goto32)).map ([·]) := by
  have hpay : isPayloadUnit (rawAt m.code o) ≠ true := mt opcodeAt_of_payload (by omega)
  rw [targetsAt]
  rw [if_neg hpay, if_pos ((isBranch_iff _ _).mpr h)]

/-- A switch goes to the targets of its cases. -/
theorem targetsAt_switch (h : HoldsSwitch m.code o) :
    targetsAt m t o = switchTargets m t o := by
  have hpay : isPayloadUnit (rawAt m.code o) ≠ true := mt opcodeAt_of_payload (by omega)
  have hbranch : (Opcode.ofUnit (rawAt m.code o)).isBranch ≠ true := by
    rw [Ne, isBranch_iff]
    omega
  rw [targetsAt]
  rw [if_neg hpay, if_neg hbranch, if_pos ((isSwitch_iff _ _).mpr h)]

/-- Array data goes nowhere, but is checked. -/
theorem targetsAt_array (h : opcodeAt m.code o = 0x26) :
    targetsAt m t o = (arrayData m t o).map fun _ => [] := by
  have hpay : isPayloadUnit (rawAt m.code o) ≠ true := mt opcodeAt_of_payload (by omega)
  have hbranch : (Opcode.ofUnit (rawAt m.code o)).isBranch ≠ true := by
    rw [Ne, isBranch_iff]
    omega
  have hswitch : (Opcode.ofUnit (rawAt m.code o)).isSwitch ≠ true := by
    rw [Ne, isSwitch_iff]
    omega
  have hfill : Opcode.ofUnit (rawAt m.code o) = .fillArrayData := (ofUnit_eq_iff _ _).mpr h
  rw [targetsAt]
  rw [if_neg hpay, if_neg hbranch, if_neg hswitch, if_pos hfill]

/-- The instructions that are not checked. -/
def Plain (code : Code) (o : ℕ) : Prop :=
  ¬ HoldsBranch code o ∧ ¬ HoldsSwitch code o ∧ opcodeAt code o ≠ 0x26

/-- All other instructions go nowhere and cannot fail. -/
theorem targetsAt_plain (h : Plain m.code o) : targetsAt m t o = .ok [] := by
  obtain ⟨hbranch, hswitch, hfill⟩ := h
  have harray : Opcode.ofUnit (rawAt m.code o) ≠ .fillArrayData := mt (ofUnit_eq_iff _ _).mp hfill
  have hnobranch := mt (isBranch_iff m.code o).mp hbranch
  have hnoswitch := mt (isSwitch_iff m.code o).mp hswitch
  rw [targetsAt]
  rw [if_neg hnobranch, if_neg hnoswitch, if_neg harray, ite_self]

/-- A check of one instruction that fails has a cause. -/
theorem refuses_targetsAt (m : Method) (t : FlagTable) (o : ℕ) : Refuses (targetsAt m t o) := by
  unfold targetsAt
  refine Refuses.ite (fun _ => Refuses.ok _) fun _ => ?_
  refine Refuses.ite (fun _ => (refuses_branchTarget m t o _).map _) fun _ => ?_
  refine Refuses.ite (fun _ => refuses_switchTargets m t o) fun _ => ?_
  exact Refuses.ite (fun _ => (refuses_arrayData m t o).map _) fun _ => Refuses.ok _

/-- What the check of one instruction says about it. -/
structure Decides (m : Method) (t : FlagTable) (o : ℕ) : Prop where
  ok_iff : (∃ targets, targetsAt m t o = .ok targets) ↔ LegalAt m.code o
  mem_iff : ∀ targets, targetsAt m t o = .ok targets → ∀ a, a ∈ targets ↔ JumpsTo m.code o a

/-- An instruction that neither transfers control nor refers to a table is legal, and no check
refuses it. -/
theorem decides_plain (h : Plain m.code o) : Decides m t o := by
  obtain ⟨hbranch, hswitch, hfill⟩ := id h
  constructor
  · rw [targetsAt_plain h]
    refine ⟨fun _ => ⟨?_, ?_, ?_, ?_, ?_⟩, fun _ => ⟨[], rfl⟩⟩
    · exact fun rel hrel => absurd hrel.opcode hbranch
    · exact fun hop => absurd (.inl hop) hswitch
    · exact fun hop => absurd (.inr hop) hswitch
    · exact fun rel hrel => absurd hrel.opcode hswitch
    · exact fun hop => absurd hop hfill
  · intro targets htargets a
    rw [targetsAt_plain h] at htargets
    cases htargets
    refine ⟨fun hmem => absurd hmem List.not_mem_nil, ?_⟩
    intro hjumps
    rcases hjumps with ⟨rel, hrel | hrel, -⟩
    · exact absurd hrel.opcode hbranch
    · exact absurd hrel.opcode hswitch

/-- The checks decide which branches are legal. -/
theorem decides_branch (hrec : Recorded m.code t) (ho : o ∈ startsFrom m.code 0)
    (h : HoldsBranch m.code o) : Decides m t o := by
  have hop : t.isOpcode o = true := (hrec.isOpcode_iff o).mpr ((isStart_iff _ _).mpr ho)
  have hbranch := (isBranch_iff m.code o).mpr h
  have hwhole := add_width_le ho (by omega)
  have hself : (Opcode.ofUnit (rawAt m.code o) == .goto32) = true ↔ opcodeAt m.code o = 0x2a := by
    rw [beq_iff_eq]
    exact ofUnit_eq_iff _ _
  obtain ⟨rel, -, -, hrel, -⟩ := branchOf_eq_ok .branchCheck hrec.size_eq hop hbranch hwhole
  -- the branch has one relative offset, so there is one target to look at
  have htarget : ∀ targets, targetsAt m t o = .ok targets ↔
      (rel = 0 → opcodeAt m.code o = 0x2a) ∧ ∃ target, Lands t (o + rel) target ∧
        [target] = targets := by
    intro targets
    rw [targetsAt_branch h, map_eq_ok]
    simp only [branchTarget_eq_ok_iff hrec.size_eq hop hbranch hwhole, hself]
    constructor
    · intro hpassed
      rcases hpassed with ⟨target, ⟨rel', hrel', hzero, hlands⟩, htargets⟩
      cases hrel.unique hrel'
      exact ⟨hzero, target, hlands, htargets⟩
    · intro hlanding
      rcases hlanding with ⟨hzero, target, hlands, htargets⟩
      exact ⟨target, ⟨rel, hrel, hzero, hlands⟩, htargets⟩
  constructor
  · simp only [htarget]
    constructor
    · intro hpassed
      rcases hpassed with ⟨targets, hzero, target, hlands, -⟩
      refine ⟨?_, fun hop => by omega, fun hop => by omega, ?_, fun hop => by omega⟩
      · intro rel' hrel'
        cases hrel.unique hrel'
        exact ⟨(hrec.legalTarget_iff _).mpr ⟨target, hlands⟩, hzero⟩
      · intro rel' hrel'
        have := hrel'.opcode
        omega
    · intro hlegal
      obtain ⟨htarget, hzero⟩ := hlegal.branch rel hrel
      obtain ⟨target, hlands⟩ := (hrec.legalTarget_iff _).mp htarget
      exact ⟨[target], hzero, target, hlands, rfl⟩
  · intro targets htargets a
    obtain ⟨-, target, hlands, rfl⟩ := (htarget targets).mp htargets
    rw [List.mem_singleton]
    constructor
    · rintro rfl
      exact ⟨rel, .inl hrel, hlands.eq⟩
    · intro hjumps
      rcases hjumps with ⟨rel', hrel' | hrel', ha⟩
      · cases hrel.unique hrel'
        exact Int.natCast_inj.mp (ha.trans hlands.eq.symm)
      · have := hrel'.opcode
        omega

/-- The checks decide which references to array data are legal. -/
theorem decides_array (hrec : Recorded m.code t) (ho : o ∈ startsFrom m.code 0)
    (h : opcodeAt m.code o = 0x26) : Decides m t o := by
  have hop : t.isOpcode o = true := (hrec.isOpcode_iff o).mpr ((isStart_iff _ _).mpr ho)
  have hbranch : ∀ rel, ¬ BranchOffset m.code o rel := by
    intro rel hrel
    have := hrel.opcode
    omega
  have hcase : ∀ rel, ¬ CaseOffset m.code o rel := by
    intro rel hrel
    have := hrel.opcode
    omega
  -- an array instruction goes nowhere else, so all that counts is its table
  have htable : arrayData m t o = .ok () ↔ ∃ s, RefersToTable m.code o s 0x0300 := by
    rw [arrayData_eq_ok_iff hrec.size_eq hop h (add_three_le ho (.inl h))]
    exact exists_congr fun s => (hrec.refersToTable_iff .arrayData o s).symm
  constructor
  · simp only [targetsAt_array h, map_eq_ok]
    constructor
    · intro hpassed
      rcases hpassed with ⟨-, ⟨⟩, harray, -⟩
      refine ⟨fun rel hrel => absurd hrel (hbranch rel), fun hop => by omega, fun hop => by omega,
        fun rel hrel => absurd hrel (hcase rel), fun _ => htable.mp harray⟩
    · intro hlegal
      exact ⟨[], (), htable.mpr (hlegal.array h), rfl⟩
  · intro targets htargets a
    rw [targetsAt_array h, map_eq_ok] at htargets
    obtain ⟨-, -, rfl⟩ := htargets
    refine ⟨fun hmem => absurd hmem List.not_mem_nil, ?_⟩
    intro hjumps
    rcases hjumps with ⟨rel, hrel | hrel, -⟩
    · exact absurd hrel (hbranch rel)
    · exact absurd hrel (hcase rel)

/-- The checks decide which switches are legal. -/
theorem decides_switch (hrec : Recorded m.code t) (ho : o ∈ startsFrom m.code 0)
    (h : HoldsSwitch m.code o) : Decides m t o := by
  have hop : t.isOpcode o = true := (hrec.isOpcode_iff o).mpr ((isStart_iff _ _).mpr ho)
  have hwhole := add_three_le ho (by omega)
  have hbranch : ∀ rel, ¬ BranchOffset m.code o rel := by
    intro rel hrel
    have := hrel.opcode
    omega
  obtain ⟨shape, hshape⟩ : ∃ shape, switchShape? (Opcode.ofUnit (rawAt m.code o)) = some shape := by
    rcases h with h | h
    · exact ⟨_, switchShape?_of_packed h⟩
    · exact ⟨_, switchShape?_of_sparse h⟩
  constructor
  · rw [targetsAt_switch h, exists_switchTargets_iff hrec.size_eq hop hshape hwhole]
    simp only [← hrec.legalTarget_iff]
    -- the kinds differ in their tables and in whether keys are compared
    rcases h with h | h
    · rw [switchShape?_of_packed h] at hshape
      cases hshape
      have htable : ∀ s, RefersToTable m.code o s 0x0100 ↔
          RefersTo m.code o s ∧ TableAt m.code t packedShape.kind s :=
        hrec.refersToTable_iff .packedSwitch o
      constructor
      · intro hswitch
        rcases hswitch with ⟨⟨s, href, hs, -⟩, hcases⟩
        exact ⟨fun rel hrel => absurd hrel (hbranch rel), fun _ => ⟨s, (htable s).mpr ⟨href, hs⟩⟩,
          fun hop => by omega, hcases, fun hop => by omega⟩
      · intro hlegal
        obtain ⟨s, hs⟩ := hlegal.packed h
        obtain ⟨href, hs⟩ := (htable s).mp hs
        exact ⟨⟨s, href, hs, fun hkind => by cases hkind⟩, hlegal.caseTarget⟩
    · rw [switchShape?_of_sparse h] at hshape
      cases hshape
      have htable : ∀ s, RefersToTable m.code o s 0x0200 ↔
          RefersTo m.code o s ∧ TableAt m.code t sparseShape.kind s :=
        hrec.refersToTable_iff .sparseSwitch o
      constructor
      · intro hswitch
        rcases hswitch with ⟨⟨s, href, hs, hkeys⟩, hcases⟩
        exact ⟨fun rel hrel => absurd hrel (hbranch rel), fun hop => by omega,
          fun _ => ⟨s, (htable s).mpr ⟨href, hs⟩, hkeys rfl⟩, hcases, fun hop => by omega⟩
      · intro hlegal
        obtain ⟨s, hs, hkeys⟩ := hlegal.sparse h
        obtain ⟨href, hs⟩ := (htable s).mp hs
        exact ⟨⟨s, href, hs, fun _ => hkeys⟩, hlegal.caseTarget⟩
  · intro targets htargets a
    rw [targetsAt_switch h] at htargets
    rw [mem_switchTargets_iff hrec.size_eq hop hshape hwhole htargets]
    constructor
    · intro hlanding
      rcases hlanding with ⟨rel, hrel, hlands⟩
      exact ⟨rel, .inr hrel, hlands.eq⟩
    · intro hjumps
      rcases hjumps with ⟨rel, hrel | hrel, ha⟩
      · exact absurd hrel (hbranch rel)
      · obtain ⟨-, hcases⟩ :=
          (exists_switchTargets_iff hrec.size_eq hop hshape hwhole).mp ⟨targets, htargets⟩
        obtain ⟨target, hlands⟩ := hcases rel hrel
        cases Int.natCast_inj.mp (ha.trans hlands.eq.symm)
        exact ⟨rel, hrel, hlands⟩

/-- On a table with the widths of the code, the check of an instruction passes if and only if the
instruction is legal, and finds the addresses it can go to. -/
theorem decides (hrec : Recorded m.code t) (ho : o ∈ startsFrom m.code 0) : Decides m t o := by
  by_cases hbranch : HoldsBranch m.code o
  · exact decides_branch hrec ho hbranch
  · by_cases hswitch : HoldsSwitch m.code o
    · exact decides_switch hrec ho hswitch
    · by_cases hfill : opcodeAt m.code o = 0x26
      · exact decides_array hrec ho hfill
      · exact decides_plain ⟨hbranch, hswitch, hfill⟩

end Check
end Dalvik
