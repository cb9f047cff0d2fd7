import Mathlib
import Dalvik.Pass
import Dalvik.Proofs.Transfers

/-!
# Walks

The loops of the pre-analysis without their records: `walk` is the loop and `instruction` its body
for the checks of all instructions. On a table with the widths of a tiled code, a walk visits the
instruction starts in order, as long as the body leaves the widths alone (`walk_eq_visit`). What a
walk does is then an induction over the list of starts: `visit_instruction` for the checks of all
instructions, `visit_gcPoint` for the collection points.
-/

namespace Dalvik
namespace Check

open Layout

/-- A walk from `off` on and below `limit` that keeps no records: what `Pass.walk` does to the
table, and how it ends. -/
def walk (limit : ℕ) (body : ℕ → FlagTable → Check Unit × FlagTable) (off : ℕ) (t : FlagTable) :
    Check Unit × FlagTable :=
  if off < limit then
    match body off t with
    | (.error h, t') => (.error h, t')
    | (.ok (), t') =>
      match t'.words[off]? with
      | none => (.error .outOfRange, t')
      | some w =>
        if 0 < w.width then walk limit body (off + w.width) t' else (.error .stalled, t')
  else (.ok (), t)
termination_by limit - off

/-- The checks of the instruction at `off` without their records. -/
def instruction (m : Method) (off : ℕ) (t : FlagTable) : Check Unit × FlagTable :=
  match unit m.code off with
  | .error h => (.error h, t)
  | .ok u =>
    let op := Opcode.ofUnit u
    if isPayloadUnit u then (.ok (), t)
    else if op.isBranch then branch m off (op == .goto32) t
    else if op.isSwitch then switch m off t
    else if op = .fillArrayData then (arrayData m t off, t)
    else (.ok (), t)

/-- Runs `body` at every listed offset, up to the first failure. -/
def visit (body : ℕ → FlagTable → Check Unit × FlagTable) :
    List ℕ → FlagTable → Check Unit × FlagTable
  | [], t => (.ok (), t)
  | o :: os, t =>
    match body o t with
    | (.error h, t') => (.error h, t')
    | (.ok (), t') => visit body os t'

/-- A walk over a tiled code visits the instruction starts in order. -/
theorem walk_eq_visit {code : Code} {body : ℕ → FlagTable → Check Unit × FlagTable}
    (hbody : ∀ o (t : FlagTable), t.SameWidths (body o t).2) {off : ℕ} {t : FlagTable}
    (hrec : Recorded code t) (hsub : ∀ o ∈ startsFrom code off, o ∈ startsFrom code 0)
    (hstop : stopFrom code off = code.size) :
    walk code.size body off t = visit body (startsFrom code off) t := by
  induction off using decode_induction code generalizing t with
  | stop off cause hdec =>
    rw [stopFrom_error hdec] at hstop
    rw [startsFrom_error hdec, walk, if_neg (by omega), visit]
  | step off ins hdec ih =>
    have hlt := decode_lt_size hdec
    have hmem : off ∈ startsFrom code 0 := by
      apply hsub
      rw [startsFrom_ok hdec]
      exact List.mem_cons_self
    have hwidths := hbody off t
    rw [startsFrom_ok hdec, walk, if_pos hlt, visit]
    cases hrun : body off t with
    | mk result t' =>
      rw [hrun] at hwidths
      cases result with
      | error h => rfl
      | ok u =>
        -- the widths are still those of the code, so the walk goes to the next start
        have hrec' := hrec.of_sameWidths hwidths
        have hwidth : (t'.wordAt off).width = ins.width := by
          rw [hrec'.width_eq, startWidth_eq hmem hdec]
        have hpos := ins.width_pos
        simp only
        rw [FlagTable.getElem?_words (by rw [hrec'.size_eq]; exact hlt)]
        simp only [hwidth]
        rw [if_pos hpos]
        refine ih hrec' ?_ ?_
        · intro o ho
          apply hsub
          rw [startsFrom_ok hdec]
          exact List.mem_cons_of_mem _ ho
        · rwa [stopFrom_ok hdec] at hstop

/-! ## The checks of all instructions -/

/-- The check of one instruction marks the addresses it can go to. -/
theorem instruction_eq {m : Method} {o : ℕ} (ho : o < m.code.size) (t : FlagTable) :
    instruction m o t = match targetsAt m t o with
      | .error h => (.error h, t)
      | .ok targets => markAll t .branchTarget targets := by
  rw [instruction, unit_eq ho, targetsAt]
  simp only
  -- a payload table, a branch, a switch, array data, and all others
  split_ifs with hpay hbranch hswitch hfill
  · rfl
  · unfold branch
    cases branchTarget m t o _ <;> rfl
  · unfold switch
    rfl
  · cases arrayData m t o <;> rfl
  · rfl

/-- Marking leaves the widths alone. -/
theorem sameWidths_markAll (t : FlagTable) (k : Mark) (addrs : List ℕ) :
    t.SameWidths (markAll t k addrs).2 := by
  rw [markAll]
  split
  · exact FlagTable.SameWidths.markEach t k addrs
  · exact FlagTable.SameWidths.refl t

theorem sameWidths_instruction (m : Method) (o : ℕ) (t : FlagTable) :
    t.SameWidths (instruction m o t).2 := by
  by_cases ho : o < m.code.size
  · rw [instruction_eq ho]
    split
    · exact FlagTable.SameWidths.refl t
    · exact sameWidths_markAll t _ _
  · rw [instruction, unit, Array.getElem?_eq_none (by omega)]
    exact FlagTable.SameWidths.refl t

/-- A legal instruction goes to instruction starts only. -/
theorem isStart_of_jumpsTo {code : Code} {o a : ℕ} (hlegal : LegalAt code o)
    (h : JumpsTo code o a) : IsStart code a := by
  obtain ⟨rel, hrel, ha⟩ := h
  have htarget : LegalTarget code (o + rel) := by
    rcases hrel with hrel | hrel
    · exact (hlegal.branch rel hrel).1
    · exact hlegal.caseTarget rel hrel
  obtain ⟨n, hn, hstart, -⟩ := htarget
  rwa [Int.natCast_inj.mp (ha.trans hn.symm)]

/-- The check of a legal instruction. -/
theorem instruction_legal {m : Method} {t : FlagTable} {o : ℕ} (hrec : Recorded m.code t)
    (ho : o ∈ startsFrom m.code 0) (hlegal : LegalAt m.code o) :
    ∃ targets, instruction m o t = (.ok (), t.markEach .branchTarget targets) ∧
      ∀ a, a ∈ targets ↔ JumpsTo m.code o a := by
  have hdecides := decides hrec ho
  obtain ⟨targets, htargets⟩ := hdecides.ok_iff.mpr hlegal
  have hmem := hdecides.mem_iff targets htargets
  refine ⟨targets, ?_, hmem⟩
  have hinside : ∀ a ∈ targets, a < t.size := by
    intro a ha
    have hstart := isStart_of_jumpsTo hlegal ((hmem a).mp ha)
    rw [hrec.size_eq]
    exact lt_size_of_mem_startsFrom ((isStart_iff _ _).mp hstart)
  rw [instruction_eq (lt_size_of_mem_startsFrom ho), htargets]
  exact markAll_eq hinside

/-- The check of an instruction that is not legal. -/
theorem instruction_illegal {m : Method} {t : FlagTable} {o : ℕ} (hrec : Recorded m.code t)
    (ho : o ∈ startsFrom m.code 0) (hillegal : ¬ LegalAt m.code o) :
    ∃ offset cause, instruction m o t = (.error (.refused offset cause), t) := by
  cases htargets : targetsAt m t o with
  | ok targets => exact absurd ((decides hrec ho).ok_iff.mp ⟨targets, htargets⟩) hillegal
  | error h =>
    obtain ⟨offset, cause, rfl⟩ := refuses_targetsAt m t o h htargets
    refine ⟨offset, cause, ?_⟩
    rw [instruction_eq (lt_size_of_mem_startsFrom ho), htargets]

theorem markEach_append (t : FlagTable) (k : Mark) (l l' : List ℕ) :
    (t.markEach k l).markEach k l' = t.markEach k (l ++ l') := by
  rw [FlagTable.markEach, FlagTable.markEach, FlagTable.markEach, List.foldl_append]

/-- If all instructions are legal, the addresses they can go to are marked. -/
theorem visit_instruction {m : Method} {t : FlagTable} {os : List ℕ} (hrec : Recorded m.code t)
    (hos : ∀ o ∈ os, o ∈ startsFrom m.code 0) (hlegal : ∀ o ∈ os, LegalAt m.code o) :
    ∃ targets, visit (instruction m) os t = (.ok (), t.markEach .branchTarget targets) ∧
      ∀ a, a ∈ targets ↔ ∃ o ∈ os, JumpsTo m.code o a := by
  induction os generalizing t with
  | nil => exact ⟨[], rfl, by simp⟩
  | cons o os ih =>
    rw [List.forall_mem_cons] at hos hlegal
    obtain ⟨first, hfirst, hmem⟩ := instruction_legal hrec hos.1 hlegal.1
    -- the marks of the first instruction do not matter to the checks of the others
    have hwidths := FlagTable.SameWidths.markEach t .branchTarget first
    obtain ⟨rest, hrest, hmem'⟩ := ih (hrec.of_sameWidths hwidths) hos.2 hlegal.2
    refine ⟨first ++ rest, ?_, ?_⟩
    · rw [visit, hfirst]
      simp only
      rw [hrest, markEach_append]
    · intro a
      rw [List.mem_append, hmem, hmem']
      simp

/-- If an instruction is not legal, the walk ends with a cause. -/
theorem visit_instruction_illegal {m : Method} {t : FlagTable} {os : List ℕ}
    (hrec : Recorded m.code t) (hos : ∀ o ∈ os, o ∈ startsFrom m.code 0)
    (hillegal : ¬ ∀ o ∈ os, LegalAt m.code o) :
    ∃ offset cause, (visit (instruction m) os t).1 = .error (.refused offset cause) := by
  induction os generalizing t with
  | nil => exact absurd (by simp) hillegal
  | cons o os ih =>
    rw [List.forall_mem_cons] at hos hillegal
    by_cases hlegal : LegalAt m.code o
    · obtain ⟨first, hfirst, -⟩ := instruction_legal hrec hos.1 hlegal
      have hwidths := FlagTable.SameWidths.markEach t .branchTarget first
      rw [visit, hfirst]
      exact ih (hrec.of_sameWidths hwidths) hos.2 fun hall => hillegal ⟨hlegal, hall⟩
    · obtain ⟨offset, cause, hfirst⟩ := instruction_illegal hrec hos.1 hlegal
      exact ⟨offset, cause, by rw [visit, hfirst]⟩

/-! ## Collection points -/

/-- The instruction at `o` is a branch target, or it can leave the straight line. -/
def collects (m : Method) (t : FlagTable) (o : ℕ) : Bool :=
  (t.wordAt o).has .branchTarget ||
    (!isPayloadUnit (rawAt m.code o) && (Opcode.ofUnit (rawAt m.code o)).flow.leavesLine)

theorem gcPoint_eq {m : Method} {t : FlagTable} {o : ℕ} (hsize : t.size = m.code.size)
    (ho : o < m.code.size) :
    gcPoint m o t = (.ok (), t.markEach .gcPoint ([o].filter (collects m t))) := by
  rw [gcPoint, word_eq (by omega), List.filter_singleton, collects]
  simp only [unit_eq ho]
  cases (t.wordAt o).has .branchTarget with
  | true => rfl
  | false =>
    simp only [Bool.false_eq_true, if_false, Bool.false_or]
    cases !isPayloadUnit (rawAt m.code o) && (Opcode.ofUnit (rawAt m.code o)).flow.leavesLine with
    | true => rfl
    | false => rfl

theorem sameWidths_gcPoint (m : Method) (o : ℕ) (t : FlagTable) :
    t.SameWidths (gcPoint m o t).2 := by
  have hmark : t.SameWidths (t.mark .gcPoint o) := FlagTable.SameWidths.markEach t .gcPoint [o]
  -- each way through the pass marks one unit or none
  rw [gcPoint]
  split
  · exact FlagTable.SameWidths.refl t
  · split
    · exact hmark
    · split
      · exact FlagTable.SameWidths.refl t
      · split
        · exact hmark
        · exact FlagTable.SameWidths.refl t

/-- The marks of collection points do not make new ones. -/
theorem collects_markEach (m : Method) (t : FlagTable) (addrs : List ℕ) :
    collects m (t.markEach .gcPoint addrs) = collects m t := by
  funext o
  rw [collects, collects, FlagTable.wordAt_markEach]
  split
  · rw [FlagWord.has_put, if_neg (by decide)]
  · rfl

/-- The collection points among the visited instructions are marked. -/
theorem visit_gcPoint {m : Method} {t : FlagTable} {os : List ℕ} (hsize : t.size = m.code.size)
    (hos : ∀ o ∈ os, o < m.code.size) :
    visit (gcPoint m) os t = (.ok (), t.markEach .gcPoint (os.filter (collects m t))) := by
  induction os generalizing t with
  | nil => rfl
  | cons o os ih =>
    rw [List.forall_mem_cons] at hos
    rw [visit, gcPoint_eq hsize hos.1]
    simp only
    rw [ih (by rwa [FlagTable.size_markEach]) hos.2, collects_markEach, markEach_append,
      ← List.filter_append, List.singleton_append]

end Check
end Dalvik
