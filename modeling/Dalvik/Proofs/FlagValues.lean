import Mathlib
import Dalvik.Proofs.Acceptance

/-!
# The flag table of an accepted method

Every bit of the table that the pre-analysis returns is determined by the method. The passes write
different bits of the same words, so each bit is that of the one pass that writes it; `Flags` says
which bits are set, in the terms of the layout.
-/

namespace Dalvik

open Layout Check

/-! ## Single bits -/

/-- A word that holds nothing but a width has no bit above it. -/
theorem getLsbD_setWidth_zero {w i : ℕ} (hi : 16 ≤ i) :
    (FlagWord.zero.reset.setWidth w).bits.getLsbD i = false := by
  rw [FlagWord.getLsbD_setWidth, if_neg (by omega), FlagWord.getLsbD_reset]
  split
  · rfl
  · exact FlagWord.getLsbD_zero i

/-! ## All bits of a word -/

/-- The offset is the entry of the method or the target of a branch or of a switch case. -/
def IsTarget (code : Code) (o : ℕ) : Prop := o = 0 ∨ ∃ o', IsStart code o' ∧ JumpsTo code o' o

/-- An ordinary instruction with an opcode that can branch, switch, throw or return. -/
def CanLeave (code : Code) (o : ℕ) : Prop :=
  (unitAt code o ≠ 0x0100 ∧ unitAt code o ≠ 0x0200 ∧ unitAt code o ≠ 0x0300) ∧
    ∃ flow, flow = (Opcode.ofUnit (rawAt code o)).flow ∧
      (flow.branches = true ∨ flow.switches = true ∨ flow.throws = true ∨ flow.returns = true)

/-- The flag word that the unit at `o` of an accepted method has. -/
structure Flags (m : Method) (gcPoints : Bool) (o : ℕ) (w : BitVec 32) : Prop where
  /-- The low bits are the exact width of the instruction that starts here. -/
  width : ∀ p, InstructionAt m.code o p → w.toNat % 65536 = p.length
  /-- They are zero if no instruction does. -/
  noWidth : ¬ IsStart m.code o → w.toNat % 65536 = 0
  /-- Bit 16: the unit belongs to a try block. -/
  inTry : w.getLsbD 16 = true ↔
    ∃ b ∈ m.tries, b.start.toNat ≤ o ∧ o < b.start.toNat + b.count.toNat
  /-- Bit 17: control can come here from elsewhere. -/
  branchTarget : w.getLsbD 17 = true ↔ IsTarget m.code o
  /-- Bit 18: a collection may have to run here. -/
  gcPoint : w.getLsbD 18 = true ↔
    gcPoints = true ∧ IsStart m.code o ∧ (IsTarget m.code o ∨ CanLeave m.code o)
  /-- There are no other bits. -/
  noMore : ∀ i, 19 ≤ i → w.getLsbD i = false

theorem canLeave_iff (code : Code) (o : ℕ) :
    CanLeave code o ↔
      (!isPayloadUnit (rawAt code o) && (Opcode.ofUnit (rawAt code o)).flow.leavesLine) = true := by
  have hpay : (!isPayloadUnit (rawAt code o)) = true ↔
      unitAt code o ≠ 0x0100 ∧ unitAt code o ≠ 0x0200 ∧ unitAt code o ≠ 0x0300 := by
    rw [isPayloadUnit, Bool.not_eq_true', Option.isSome_eq_false_iff, Option.isNone_iff_eq_none,
      ofUnit?_eq_none_iff, unitAt]
    simp only [ne_eq, ← UInt16.toNat_inj]
    rfl
  rw [CanLeave, Bool.and_eq_true, hpay, Flow.leavesLine]
  simp only [exists_eq_left, Bool.or_eq_true, or_assoc]

/-- The words before collection points are marked. -/
theorem flags_without_gcPoints {m : Method} {t : FlagTable} {targets : List ℕ}
    (hrec : Recorded m.code t)
    (hword : ∀ i, t.wordAt i = FlagWord.zero.reset.setWidth (startWidth m.code i))
    (hmem : ∀ a, a ∈ targets ↔ ∃ o ∈ startsFrom m.code 0, JumpsTo m.code o a) {o : ℕ}
    (ho : o < m.code.size) (i : ℕ) (hi : 16 ≤ i) :
    (((t.markBlocks m.tries).markEach .branchTarget (0 :: targets)).wordAt o).bits.getLsbD i = true ↔
      (i = 17 ∧ IsTarget m.code o) ∨ (i = 16 ∧ ∃ b ∈ m.tries, b.Contains o) := by
  have htarget : o ∈ 0 :: targets ↔ IsTarget m.code o := by
    rw [List.mem_cons, hmem, IsTarget]
    simp only [isStart_iff]
  have hinside : o < t.size := by
    rwa [hrec.size_eq]
  have hinside' : o < (t.markBlocks m.tries).size := by
    rwa [← (FlagTable.SameWidths.markBlocks t m.tries).size_eq]
  rw [FlagTable.getLsbD_markEach, FlagTable.getLsbD_markBlocks, hword, getLsbD_setWidth_zero hi, htarget]
  simp only [hinside, hinside', and_true, Bool.false_eq_true, or_false]
  rfl

/-- The collection points are starts that are marked as targets or can leave the line. -/
theorem getLsbD_withGcPoints {m : Method} {t : FlagTable} {o : ℕ} (hsize : t.size = m.code.size)
    (ho : o < m.code.size) (gcPoints : Bool) (i : ℕ) :
    ((withGcPoints m gcPoints t).wordAt o).bits.getLsbD i = true ↔
      (i = 18 ∧ gcPoints = true ∧ IsStart m.code o ∧
        ((t.wordAt o).bits.getLsbD 17 = true ∨ CanLeave m.code o)) ∨
      (t.wordAt o).bits.getLsbD i = true := by
  have hinside : o < t.size := by omega
  rw [withGcPoints]
  cases gcPoints with
  | false => simp
  | true =>
    rw [if_pos rfl, FlagTable.getLsbD_markEach, List.mem_filter, collects, Bool.or_eq_true, ← canLeave_iff,
      FlagWord.has_eq_getLsbD, ← isStart_iff]
    simp only [hinside, and_true, true_and]
    rfl

theorem sameWidths_withGcPoints (m : Method) (gcPoints : Bool) (t : FlagTable) :
    t.SameWidths (withGcPoints m gcPoints t) := by
  rw [withGcPoints]
  split
  · exact FlagTable.SameWidths.markEach t _ _
  · exact FlagTable.SameWidths.refl t

/-- The words that the passes leave. -/
theorem flags_of_words {m : Method} {t : FlagTable} {targets : List ℕ} (hrec : Recorded m.code t)
    (hword : ∀ i, t.wordAt i = FlagWord.zero.reset.setWidth (startWidth m.code i))
    (hmem : ∀ a, a ∈ targets ↔ ∃ o ∈ startsFrom m.code 0, JumpsTo m.code o a)
    (gcPoints : Bool) {o : ℕ} (ho : o < m.code.size) :
    Flags m gcPoints o ((withGcPoints m gcPoints
      ((t.markBlocks m.tries).markEach .branchTarget (0 :: targets))).wordAt o).bits := by
  -- the passes after the scan leave the widths alone
  have hmarks := (FlagTable.SameWidths.markBlocks t m.tries).trans
    (FlagTable.SameWidths.markEach _ .branchTarget (0 :: targets))
  have hrec₁ := hrec.of_sameWidths hmarks
  have hrec₂ := hrec₁.of_sameWidths (sameWidths_withGcPoints m gcPoints _)
  have hwidth := hrec₂.width_eq o
  rw [FlagWord.width_eq_mod] at hwidth
  have hbits := flags_without_gcPoints hrec hword hmem ho
  have hgc := getLsbD_withGcPoints hrec₁.size_eq ho gcPoints
  constructor
  · intro p hp
    rw [hwidth, startWidth_of_instructionAt hp]
  · intro hno
    rw [hwidth]
    by_contra hpos
    exact hno ((isStart_iff m.code o).mpr
      ((startWidth_pos_iff m.code o).mp (Nat.pos_of_ne_zero hpos)))
  -- bits 16, 17 and 18 are each written by one pass
  · rw [hgc, hbits 16 (by omega)]
    simp only [show (16 : ℕ) ≠ 18 by omega, show (16 : ℕ) ≠ 17 by omega, false_and, false_or,
      true_and]
    rfl
  · rw [hgc, hbits 17 (by omega)]
    simp
  · rw [hgc, hbits 18 (by omega), hbits 17 (by omega)]
    simp
  · intro i hi
    rw [Bool.eq_false_iff, Ne, hgc, hbits i (by omega)]
    omega

/-! ## Allocations -/

/-- The allocations are counted once for each start. -/
theorem allocations_eq_ncard (code : Code) :
    allocations code (startsFrom code 0)
      = Set.ncard {o | IsStart code o ∧ opcodeAt code o = 0x22} := by
  -- the starts ascend, so none is listed twice
  have hnodup : (startsFrom code 0).Nodup := by
    exact (startsFrom_pairwise code 0).imp fun h => Nat.ne_of_lt h
  have hset : {o | IsStart code o ∧ opcodeAt code o = 0x22}
      = (((startsFrom code 0).filter fun o => opcodeAt code o == 0x22).toFinset : Set ℕ) := by
    ext o
    rw [Finset.mem_coe, List.mem_toFinset, List.mem_filter, beq_iff_eq, ← isStart_iff]
    rfl
  rw [hset, Set.ncard_coe_finset, List.toFinset_card_of_nodup (hnodup.filter _), allocations,
    List.countP_eq_length_filter]

/-- The table of an accepted method is determined by the method: the widths of its instructions,
the units of its try blocks, the targets of its branches and switches and, if they are asked for,
its collection points. The count is that of its allocations. -/
theorem flags_of_preAnalyze {config : Config} {m : Method} {a : Analysis}
    (h : (preAnalyze config m).result = .ok a) :
    a.table.words.size = m.code.size ∧
      (∀ o < m.code.size, ∃ w, a.table.words[o]? = some w ∧ Flags m config.gcPoints o w.bits) ∧
      a.newInstances = Set.ncard {o | IsStart m.code o ∧ opcodeAt m.code o = 0x22} := by
  obtain ⟨t, targets, heffect, hrec, hword, hmem⟩ :=
    all_wellFormed (wellFormed_of_preAnalyze h) config.gcPoints
  rw [preAnalyze_result, heffect] at h
  cases h
  have hsize : (withGcPoints m config.gcPoints
      ((t.markBlocks m.tries).markEach .branchTarget (0 :: targets))).size = m.code.size := by
    rw [← (sameWidths_withGcPoints _ _ _).size_eq, FlagTable.size_markEach,
      ← (FlagTable.SameWidths.markBlocks t m.tries).size_eq, hrec.size_eq]
  refine ⟨hsize, fun o ho => ?_, allocations_eq_ncard m.code⟩
  exact ⟨_, FlagTable.getElem?_words (by rwa [hsize]),
    flags_of_words hrec hword hmem config.gcPoints ho⟩

/-- A loop with an allocation in a try block, a switch and its table. -/
def switchLoop : Method where
  className := "LLoop;"
  name := "run"
  proto := "(I)V"
  code := #[0x0022, 0, 0x002b, 4, 0, 0xfb28, 0x0100, 1, 0, 0, 3, 0]
  tries := [⟨0, 2, [⟨0, 5⟩]⟩]

theorem flags_of_switchLoop :
    let a : Analysis := ⟨switchLoop, ⟨#[⟨0x70002#32⟩, ⟨0x10000#32⟩, ⟨0x40003#32⟩, ⟨0#32⟩, ⟨0#32⟩,
      ⟨0x60001#32⟩, ⟨6#32⟩, ⟨0#32⟩, ⟨0#32⟩, ⟨0#32⟩, ⟨0#32⟩, ⟨0#32⟩]⟩, 1⟩
    (preAnalyze {} switchLoop).result = .ok a ∧ a.table.words.size = switchLoop.code.size ∧
      (∀ o < switchLoop.code.size, ∃ w, a.table.words[o]? = some w ∧
        Flags switchLoop true o w.bits) ∧
      a.newInstances
        = Set.ncard {o | IsStart switchLoop.code o ∧ opcodeAt switchLoop.code o = 0x22} := by
  intro a
  have haccepted : (preAnalyze {} switchLoop).result = .ok a := by decide +kernel
  exact ⟨haccepted, flags_of_preAnalyze haccepted⟩

end Dalvik
