import Mathlib
import Dalvik.Proofs.FlagTable
import Dalvik.Proofs.Starts

/-!
# What the width scan records

The scan follows the sequential decode and writes the width of each instruction at its start. So
the widths in the table after a scan are those of the code, whether the scan succeeded or stopped
short (`Recorded`), and the scan succeeds if and only if the code is tiled.
-/

namespace Dalvik
namespace Layout

/-- The table has a word for each unit, and its widths are those of the sequential decode. -/
structure Recorded (code : Code) (t : FlagTable) : Prop where
  size_eq : t.size = code.size
  width_eq : ∀ i, (t.wordAt i).width = startWidth code i

/-- The width of the instruction that is decoded at `o`, zero if none is. -/
def stepWidth (code : Code) (o : ℕ) : ℕ :=
  match Instruction.decode code o with
  | .ok ins => ins.width
  | .error _ => 0

theorem stepWidth_eq {code : Code} {o : ℕ} {ins : Instruction}
    (h : Instruction.decode code o = .ok ins) : stepWidth code o = ins.width := by
  rw [stepWidth, h]

/-- The width of a step fits its field in a word. -/
theorem stepWidth_le (code : Code) (o : ℕ) : stepWidth code o ≤ FlagWord.maxWidth := by
  rw [stepWidth]
  split
  · rename_i ins hins
    exact decode_width_le hins
  · exact Nat.zero_le _

/-- The starts have the widths of their steps, and other units have none. -/
theorem startWidth_eq_stepWidth (code : Code) (o : ℕ) :
    startWidth code o = if o ∈ startsFrom code 0 then stepWidth code o else 0 := by
  rfl

/-! ## One step of the scan -/

/-- The scan is refused where a step fails. -/
theorem scanFrom_stop {code : Code} {off : ℕ} {cause : Cause}
    (h : Instruction.decode code off = .error cause) (hlt : off < code.size) (count : ℕ)
    (t : FlagTable) : Check.scanFrom code off count t = (Check.refuseAt off cause, t) := by
  rw [Check.scanFrom, if_pos hlt, h]

theorem scanFrom_end (code : Code) (count : ℕ) (t : FlagTable) :
    Check.scanFrom code code.size count t = (.ok count, t) := by
  rw [Check.scanFrom, if_neg (lt_irrefl _)]

/-- A step that succeeds writes its width, and the scan goes on behind it. -/
theorem scanFrom_step {code : Code} {off : ℕ} {ins : Instruction} {t : FlagTable}
    (h : Instruction.decode code off = .ok ins) (hsize : t.size = code.size) (count : ℕ) :
    Check.scanFrom code off count t
      = Check.scanFrom code (off + ins.width) (count + ins.allocates.toNat)
          (t.modify off (·.setWidth ins.width)) := by
  have hlt := decode_lt_size h
  rw [Check.scanFrom, if_pos hlt, h]
  simp only
  rw [if_pos (by omega)]

/-! ## The table after a scan -/

/-- The scan leaves the size of the table. -/
theorem size_scanFrom {code : Code} {off count : ℕ} {t : FlagTable} (hsize : t.size = code.size)
    (hoff : off ≤ code.size) : (Check.scanFrom code off count t).2.size = code.size := by
  induction off using decode_induction code generalizing count t with
  | stop off cause hdec =>
    -- the scan stops inside the code, or at its end
    rcases Nat.lt_or_eq_of_le hoff with hlt | rfl
    · rwa [scanFrom_stop hdec hlt]
    · rwa [scanFrom_end]
  | step off ins hdec ih =>
    rw [scanFrom_step hdec hsize]
    exact ih (by rwa [FlagTable.size_modify]) (decode_le_size hdec)

/-- The scan writes a width at every start from `off` on, and nothing else. -/
theorem wordAt_scanFrom {code : Code} {off count : ℕ} {t : FlagTable}
    (hsize : t.size = code.size) (hoff : off ≤ code.size) (i : ℕ) :
    (Check.scanFrom code off count t).2.wordAt i
      = if i ∈ startsFrom code off then (t.wordAt i).setWidth (stepWidth code i)
        else t.wordAt i := by
  induction off using decode_induction code generalizing count t with
  | stop off cause hdec =>
    rw [if_neg (by rw [startsFrom_error hdec]; exact List.not_mem_nil)]
    rcases Nat.lt_or_eq_of_le hoff with hlt | rfl
    · rw [scanFrom_stop hdec hlt]
    · rw [scanFrom_end]
  | step off ins hdec ih =>
    have hlt := decode_lt_size hdec
    have hpos := ins.width_pos
    rw [scanFrom_step hdec hsize, ih (by rwa [FlagTable.size_modify]) (decode_le_size hdec),
      FlagTable.wordAt_modify]
    by_cases hi : i = off
    · -- the later starts lie beyond `off`
      have hnot : i ∉ startsFrom code (off + ins.width) := by
        intro hmem
        have := le_of_mem_startsFrom hmem
        omega
      have hmem : i ∈ startsFrom code off := by
        rw [startsFrom_ok hdec, hi]
        exact List.mem_cons_self
      rw [if_neg hnot, if_pos ⟨hi, by omega⟩, if_pos hmem, hi, stepWidth_eq hdec]
    · have hiff : i ∈ startsFrom code off ↔ i ∈ startsFrom code (off + ins.width) := by
        rw [startsFrom_ok hdec, List.mem_cons]
        exact or_iff_right hi
      rw [if_neg (fun h : i = off ∧ off < t.size => hi h.1)]
      exact if_congr hiff.symm rfl rfl

/-! ## The result of a scan -/

/-- The number of allocations among the instructions at the given starts. -/
def allocations (code : Code) (starts : List ℕ) : ℕ :=
  starts.countP fun o => opcodeAt code o == 0x22

/-- The allocations are the instructions with the opcode of new-instance. -/
theorem allocates_eq {code : Code} {o : ℕ} {ins : Instruction}
    (h : Instruction.decode code o = .ok ins) : ins.allocates = (opcodeAt code o == 0x22) := by
  obtain ⟨-, ⟨-, -, halloc⟩ | ⟨kind, hkind, -, -, halloc⟩⟩ := decode_cases h
  · rw [halloc, Bool.eq_iff_iff, Opcode.isAllocation, beq_iff_eq, beq_iff_eq]
    exact ofUnit_eq_iff _ 0x22
  · -- the low byte of a signature is zero
    have hlow : opcodeAt code o = 0 := by
      rw [opcodeAt, unitAt, hkind]
      cases kind <;> decide
    rw [halloc, hlow]
    rfl

/-- The allocations from an offset on are that of the first step and those behind it. -/
theorem allocations_cons {code : Code} {off : ℕ} {ins : Instruction}
    (h : Instruction.decode code off = .ok ins) :
    allocations code (startsFrom code off)
      = ins.allocates.toNat + allocations code (startsFrom code (off + ins.width)) := by
  rw [startsFrom_ok h, allocations, List.countP_cons, allocates_eq h, allocations]
  cases opcodeAt code off == 0x22
  · simp
  · simp [Nat.add_comm]

/-- A decode that reaches the end of the code makes the scan succeed. -/
theorem scanFrom_ok {code : Code} {off count : ℕ} {t : FlagTable} (hsize : t.size = code.size)
    (hoff : off ≤ code.size) (hstop : stopFrom code off = code.size) :
    (Check.scanFrom code off count t).1
      = .ok (count + allocations code (startsFrom code off)) := by
  induction off using decode_induction code generalizing count t with
  | stop off cause hdec =>
    rw [stopFrom_error hdec] at hstop
    subst hstop
    rw [scanFrom_end, startsFrom_error hdec]
    rfl
  | step off ins hdec ih =>
    rw [stopFrom_ok hdec] at hstop
    rw [scanFrom_step hdec hsize,
      ih (by rwa [FlagTable.size_modify]) (decode_le_size hdec) hstop, allocations_cons hdec,
      Nat.add_assoc]

/-- A decode that ends inside the code makes the scan refuse it there, with the cause of the
decode. -/
theorem scanFrom_error {code : Code} {off count : ℕ} {t : FlagTable} (hsize : t.size = code.size)
    (hoff : off ≤ code.size) (hstop : stopFrom code off ≠ code.size) :
    ∃ cause, Instruction.decode code (stopFrom code off) = .error cause ∧
      (Check.scanFrom code off count t).1 = Check.refuseAt (stopFrom code off : ℕ) cause := by
  induction off using decode_induction code generalizing count t with
  | stop off cause hdec =>
    rw [stopFrom_error hdec] at hstop ⊢
    exact ⟨cause, hdec, by rw [scanFrom_stop hdec (by omega)]⟩
  | step off ins hdec ih =>
    rw [stopFrom_ok hdec] at hstop ⊢
    rw [scanFrom_step hdec hsize]
    exact ih (by rwa [FlagTable.size_modify]) (decode_le_size hdec) hstop

/-! ## The scan as a whole -/

/-- The scan of a code with units and a table of the same size. -/
theorem widths_eq {m : Method} {t : FlagTable} (hne : m.code.size ≠ 0)
    (hsize : t.size = m.code.size) :
    Check.widths m t = Check.scanFrom m.code 0 0 t.reset := by
  have hempty : m.code.isEmpty = false := by
    rw [Array.isEmpty_eq_false_iff, ← Array.size_pos_iff]
    omega
  rw [Check.widths, hempty, if_neg Bool.false_ne_true, if_pos (by rw [FlagTable.covers, hsize]; simp)]

/-- A scan of anything else leaves the table alone. -/
theorem widths_refused {m : Method} {t : FlagTable}
    (h : m.code.size = 0 ∨ t.size ≠ m.code.size) :
    ∃ cause, Check.widths m t = (Check.refuse cause, t) := by
  unfold Check.widths
  split
  · exact ⟨_, rfl⟩
  · rename_i hempty
    split
    · rename_i hcovers
      -- the code has units and the table covers them, which `h` excludes
      exfalso
      rw [FlagTable.covers, beq_iff_eq] at hcovers
      rcases h with h | h
      · exact hempty (by rw [Array.isEmpty_iff_size_eq_zero, h])
      · exact h hcovers
    · exact ⟨_, rfl⟩

/-- The word that a scan leaves at `i`: the bits that belong to others, and the width. -/
theorem wordAt_widths {m : Method} {t : FlagTable} (hne : m.code.size ≠ 0)
    (hsize : t.size = m.code.size) (i : ℕ) :
    (Check.widths m t).2.wordAt i = (t.wordAt i).reset.setWidth (startWidth m.code i) := by
  have hreset : t.reset.size = m.code.size := by rwa [FlagTable.size_reset]
  rw [widths_eq hne hsize, wordAt_scanFrom hreset (Nat.zero_le _), FlagTable.wordAt_reset,
    startWidth_eq_stepWidth]
  split
  · rfl
  · -- a word without a width is written like one of width zero
    apply FlagWord.ext_bits
    intro k
    rw [FlagWord.getLsbD_setWidth]
    split
    · rw [FlagWord.getLsbD_reset, if_pos (by omega), Nat.zero_testBit]
    · rfl

/-- After the scan of a code with units the table has its widths, even if the scan was refused. -/
theorem recorded_widths {m : Method} {t : FlagTable} (hne : m.code.size ≠ 0)
    (hsize : t.size = m.code.size) : Recorded m.code (Check.widths m t).2 := by
  constructor
  · rw [widths_eq hne hsize]
    exact size_scanFrom (by rwa [FlagTable.size_reset]) (Nat.zero_le _)
  · intro i
    rw [wordAt_widths hne hsize, FlagWord.width_setWidth]
    -- every width of the decode fits the field, so the field gives it back
    rw [startWidth_eq_stepWidth]
    split
    · exact stepWidth_le _ _
    · exact Nat.zero_le _

end Layout
end Dalvik
