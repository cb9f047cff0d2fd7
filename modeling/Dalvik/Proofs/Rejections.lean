import Mathlib
import Dalvik.Proofs.Acceptance
import Dalvik.Proofs.Faults

/-!
# Rejections

For what a rejected method is rejected, and where. An instruction that fails its own check does so
at its own offset, with a fault of the family of its opcode, whatever marks the table has by then
(`TransferFault`). The first pass that fails decides, so the faults of the code come first, those
of the exception table second and those of the instructions last: `RejectedFor` says of every
method what the pre-analysis answers, and `Classified` spells out what that means for each kind.
-/

namespace Dalvik
namespace Check

open Layout Pass

/-! ## Checks and the marks of the table -/

section

variable {m : Method} {t t' : FlagTable}

/-- The check of an instruction looks at the widths of the table only, so marks that earlier
checks have set do not matter. -/
theorem targetsAt_eq_of_sameWidths (hw : t.SameWidths t') (o : ℕ) :
    targetsAt m t o = targetsAt m t' o := by
  rw [targetsAt, targetsAt, branchTarget_eq_of_sameWidths hw, switchTargets_eq_of_sameWidths hw,
    arrayData_eq_of_sameWidths hw]

theorem instruction_eq_of_sameWidths (hw : t.SameWidths t') (o : ℕ) :
    (instruction m o t).1 = (instruction m o t').1 := by
  by_cases ho : o < m.code.size
  · rw [instruction_eq ho, instruction_eq ho, targetsAt_eq_of_sameWidths hw]
    cases targetsAt m t' o with
    | error h => rfl
    | ok targets =>
      simp only [markAll, hw.size_eq]
      split <;> rfl
  · rw [instruction, instruction, unit, Array.getElem?_eq_none (by omega)]

/-- The kinds of faults that the check of an instruction can find, by its opcode. -/
def transferKinds (op : ℕ) : List FaultKind :=
  if (0x28 ≤ op ∧ op ≤ 0x2a) ∨ (0x32 ≤ op ∧ op ≤ 0x3d) then branchKinds (op == 0x2a)
  else if op = 0x2b ∨ op = 0x2c then switchKinds
  else if op = 0x26 then arrayKinds
  else []

/-- The check of an instruction fails where the instruction stands, with a fault of its family. -/
theorem confined_targetsAt (hrec : Recorded m.code t) {o : ℕ} (ho : o ∈ startsFrom m.code 0) :
    Confined o (transferKinds (opcodeAt m.code o)) (targetsAt m t o) := by
  have hop : t.isOpcode o = true := (hrec.isOpcode_iff o).mpr ((isStart_iff _ _).mpr ho)
  by_cases hbranch : HoldsBranch m.code o
  · have hself : (Opcode.ofUnit (rawAt m.code o) == .goto32) = (opcodeAt m.code o == 0x2a) := by
      rw [Bool.eq_iff_iff, beq_iff_eq, beq_iff_eq]
      exact ofUnit_eq_iff _ _
    rw [targetsAt_branch hbranch, transferKinds, if_pos hbranch, hself]
    exact (confined_branchTarget _ hrec.size_eq hop ((isBranch_iff _ _).mpr hbranch)
      (add_width_le ho (by omega))).map _
  · rw [transferKinds, if_neg hbranch]
    by_cases hswitch : HoldsSwitch m.code o
    · obtain ⟨shape, hshape⟩ :
          ∃ shape, switchShape? (Opcode.ofUnit (rawAt m.code o)) = some shape := by
        rcases hswitch with h | h
        · exact ⟨_, switchShape?_of_packed h⟩
        · exact ⟨_, switchShape?_of_sparse h⟩
      rw [targetsAt_switch hswitch, if_pos hswitch]
      exact confined_switchTargets hrec.size_eq hop hshape (add_three_le ho (.inr hswitch))
    · rw [if_neg hswitch]
      by_cases hfill : opcodeAt m.code o = 0x26
      · rw [targetsAt_array hfill, if_pos hfill]
        exact (confined_arrayData hrec.size_eq hop hfill (add_three_le ho (.inl hfill))).map _
      · rw [targetsAt_plain ⟨hbranch, hswitch, hfill⟩]
        exact Confined.ok _

/-- The checks of an instruction fail at its offset, with the kinds that belong to its opcode. -/
theorem confined_instruction (hrec : Recorded m.code t) {o : ℕ} (ho : o ∈ startsFrom m.code 0) :
    Confined o (transferKinds (opcodeAt m.code o)) (instruction m o t).1 := by
  by_cases hlegal : LegalAt m.code o
  · obtain ⟨targets, hok, -⟩ := instruction_legal hrec ho hlegal
    rw [hok]
    exact Confined.ok ()
  · intro h hfails
    rw [instruction_eq (lt_size_of_mem_startsFrom ho)] at hfails
    cases htargets : targetsAt m t o with
    | error h' =>
      rw [htargets] at hfails
      cases hfails
      exact confined_targetsAt hrec ho h htargets
    | ok targets => exact absurd ((decides hrec ho).ok_iff.mp ⟨targets, htargets⟩) hlegal

end

/-! ## Walks -/

/-- The own check of the instruction at the offset fails, and the checks of all instructions
before it pass. Any table with the widths of the code will do to check them on. -/
def TransferFault (m : Method) (k : FaultKind) (offset : Option ℤ) : Prop :=
  ∃ (o : ℕ) (t : FlagTable), offset = some (o : ℤ) ∧ IsStart m.code o ∧ Recorded m.code t ∧
    (∀ o' < o, IsStart m.code o' → (instruction m o' t).1 = .ok ()) ∧
    FailsWith (instruction m o t).1 k (some o)

theorem TransferFault.mem_transferKinds {m : Method} {k : FaultKind} {o : ℕ}
    (h : TransferFault m k (some (o : ℤ))) : k ∈ transferKinds (opcodeAt m.code o) := by
  obtain ⟨o', t, ho, hstart, hrec, -, hfails⟩ := h
  cases ho
  exact ((confined_instruction hrec ((isStart_iff _ _).mp hstart)).of_failsWith hfails).2

/-- The faults of single instructions. -/
theorem transferKinds_subset (op : ℕ) :
    transferKinds op ⊆ branchKinds false ++ (switchKinds ++ arrayKinds) := by
  unfold transferKinds
  split_ifs
  · cases op == 0x2a <;> decide
  · decide
  · decide
  · decide

theorem TransferFault.kind_mem {m : Method} {k : FaultKind} {offset : Option ℤ}
    (h : TransferFault m k offset) :
    k ∈ branchKinds false ++ (switchKinds ++ arrayKinds) := by
  obtain ⟨o, -, rfl, -⟩ := id h
  exact transferKinds_subset _ h.mem_transferKinds

/-- The faults of instructions belong to the control transfers. -/
theorem TransferFault.category {m : Method} {k : FaultKind} {offset : Option ℤ}
    (h : TransferFault m k offset) : k.category = .controlTransfer := by
  have hall : ∀ k ∈ branchKinds false ++ (switchKinds ++ arrayKinds),
      FaultKind.category k = .controlTransfer := by decide
  exact hall k h.kind_mem

section

variable {body : ℕ → FlagTable → Check Unit × FlagTable}

/-- A body that leaves the widths alone leaves them alone at every visit. -/
theorem sameWidths_visit (hbody : ∀ o (t : FlagTable), t.SameWidths (body o t).2) (os : List ℕ)
    (t : FlagTable) : t.SameWidths (visit body os t).2 := by
  induction os generalizing t with
  | nil => exact FlagTable.SameWidths.refl t
  | cons o os ih =>
    have hfirst := hbody o t
    rw [visit]
    cases hrun : body o t with
    | mk result t' =>
      rw [hrun] at hfirst
      cases result with
      | error h => exact hfirst
      | ok u => exact hfirst.trans (ih t')

/-- Visits in ascending order fail at the least offset at which the body fails. -/
theorem failsWith_visit_iff (hbody : ∀ o (t : FlagTable), t.SameWidths (body o t).2)
    (hcongr : ∀ o {t t' : FlagTable}, t.SameWidths t' → (body o t).1 = (body o t').1)
    {os : List ℕ} (hos : os.Pairwise (· < ·)) (t : FlagTable) (k : FaultKind)
    (offset : Option ℤ) :
    FailsWith (visit body os t).1 k offset ↔
      ∃ o ∈ os, (∀ o' ∈ os, o' < o → (body o' t).1 = .ok ()) ∧
        FailsWith (body o t).1 k offset := by
  induction os generalizing t with
  | nil => exact ⟨fun h => absurd h (not_failsWith_ok ()), fun h => by simp at h⟩
  | cons o os ih =>
    rw [List.pairwise_cons] at hos
    have hfirst := hbody o t
    rw [visit]
    cases hrun : body o t with
    | mk result t' =>
      rw [hrun] at hfirst
      cases result with
      | error h =>
        constructor
        · intro hfails
          refine ⟨o, List.mem_cons_self, ?_, by rwa [hrun]⟩
          intro o' ho' hlt
          rcases List.mem_cons.mp ho' with rfl | ho'
          · omega
          · have := hos.1 o' ho'
            omega
        · intro hleast
          rcases hleast with ⟨o', ho', hbefore, hfails⟩
          rcases List.mem_cons.mp ho' with rfl | ho'
          · rwa [hrun] at hfails
          · have hok := hbefore o List.mem_cons_self (hos.1 o' ho')
            rw [hrun] at hok
            cases hok
      | ok u =>
        simp only
        rw [ih hos.2 t']
        simp only [← hcongr _ hfirst]
        constructor
        · intro hleast
          rcases hleast with ⟨o', ho', hbefore, hfails⟩
          refine ⟨o', List.mem_cons_of_mem o ho', ?_, hfails⟩
          intro o₁ ho₁ hlt
          rcases List.mem_cons.mp ho₁ with rfl | ho₁
          · rw [hrun]
          · exact hbefore o₁ ho₁ hlt
        · intro hleast
          rcases hleast with ⟨o', ho', hbefore, hfails⟩
          rcases List.mem_cons.mp ho' with rfl | ho'
          · rw [hrun] at hfails
            exact absurd hfails (not_failsWith_ok u)
          · exact ⟨o', ho', fun o₁ ho₁ => hbefore o₁ (List.mem_cons_of_mem o ho₁), hfails⟩

end

section

variable {m : Method} {t : FlagTable}

theorem Recorded.sameWidths {code : Code} {t t' : FlagTable} (h : Recorded code t)
    (h' : Recorded code t') : t.SameWidths t' where
  size_eq := h.size_eq.trans h'.size_eq.symm
  width_eq i := (h.width_eq i).trans (h'.width_eq i).symm

/-- The walk over a tiled code fails at the first instruction whose own check does. -/
theorem failsWith_walk_iff (hrec : Recorded m.code t) (hstop : stopFrom m.code 0 = m.code.size)
    (k : FaultKind) (offset : Option ℤ) :
    FailsWith (walk m.code.size (instruction m) 0 t).1 k offset ↔ TransferFault m k offset := by
  rw [walk_eq_visit (sameWidths_instruction m) hrec (fun o ho => ho) hstop,
    failsWith_visit_iff (sameWidths_instruction m) (fun o _ _ hw => instruction_eq_of_sameWidths hw o)
      (startsFrom_pairwise m.code 0)]
  constructor
  · intro hleast
    rcases hleast with ⟨o, ho, hbefore, hfails⟩
    obtain ⟨rfl, -⟩ := (confined_instruction hrec ho).of_failsWith hfails
    exact ⟨o, t, rfl, (isStart_iff _ _).mpr ho, hrec,
      fun o' hlt ho' => hbefore o' ((isStart_iff _ _).mp ho') hlt, hfails⟩
  · intro hfault
    rcases hfault with ⟨o, t', rfl, ho, hrec', hbefore, hfails⟩
    -- the two tables have the same widths, and so the same checks fail on them
    have hcongr : ∀ o, (instruction m o t').1 = (instruction m o t).1 := fun o =>
      instruction_eq_of_sameWidths (Recorded.sameWidths hrec' hrec) o
    simp only [hcongr] at hbefore hfails
    exact ⟨o, (isStart_iff _ _).mp ho,
      fun o' ho' hlt => hbefore o' hlt ((isStart_iff _ _).mpr ho'), hfails⟩

/-- Marking collection points never fails. -/
theorem not_failsWith_gcPoints (hrec : Recorded m.code t)
    (hstop : stopFrom m.code 0 = m.code.size) (gcPoints : Bool) (k : FaultKind)
    (offset : Option ℤ) :
    ¬ FailsWith (if gcPoints then walk m.code.size (gcPoint m) 0 t else (.ok (), t)).1 k offset := by
  cases gcPoints with
  | false => exact not_failsWith_ok ()
  | true =>
    simp only [if_true]
    rw [walk_eq_visit (sameWidths_gcPoint m) hrec (fun o ho => ho) hstop,
      visit_gcPoint hrec.size_eq fun o ho => lt_size_of_mem_startsFrom ho]
    exact not_failsWith_ok ()

end

end Check

/-! ## The pre-analysis -/

open Layout Check Pass

/-- For what a method is rejected, and where: the code comes first, then the exception table, then
the instructions one by one. -/
inductive RejectedFor (m : Method) (k : FaultKind) (offset : Option ℤ) : Prop where
  | stream (h : StreamFault m.code k offset)
  | table (htiled : Tiled m.code) (h : TableFault m k offset)
  | transfer (htiled : Tiled m.code) (htries : ∀ b ∈ m.tries, WholeTry m.code b)
      (hhandlers : ∀ hs ∈ m.allHandlers, ∀ h ∈ hs, IsStart m.code h.addr.toNat)
      (h : TransferFault m k offset)

/-- After the scan of a tiled code, the exception table decides, and then the instructions. -/
theorem failsWith_afterScan_iff {m : Method} {t : FlagTable} (htiled : Tiled m.code)
    (hrec : Recorded m.code t) (gcPoints : Bool) (n : ℕ) (k : FaultKind) (offset : Option ℤ) :
    FailsWith (andThen (Check.tries m t) fun _ t =>
      andThen (Check.markAll t .branchTarget [0]) fun _ t =>
      andThen (Check.walk m.code.size (Check.instruction m) 0 t) fun _ t =>
      andThen (if gcPoints then Check.walk m.code.size (Check.gcPoint m) 0 t else (.ok (), t))
        fun _ t => (.ok n, t)).1 k offset ↔
    TableFault m k offset ∨ ((∀ b ∈ m.tries, WholeTry m.code b) ∧
      ∀ hs ∈ m.allHandlers, ∀ h ∈ hs, IsStart m.code h.addr.toNat) ∧ TransferFault m k offset := by
  obtain ⟨hne, hstop⟩ := (tiled_iff m.code).mp htiled
  have hrec₁ := hrec.of_sameWidths (FlagTable.SameWidths.markBlocks t m.tries)
  have hrec₂ := hrec₁.of_sameWidths (FlagTable.SameWidths.markEach _ .branchTarget [0])
  have hwalk := failsWith_walk_iff hrec₂ hstop k offset
  rw [failsWith_andThen_iff, failsWith_tries_iff hrec]
  refine or_congr_right ⟨?_, ?_⟩
  · intro h
    rcases h with ⟨⟨⟩, hok, h⟩
    refine ⟨(tries_ok_iff hrec).mp hok, ?_⟩
    rw [tries_table_of_ok hrec.size_eq hok, markAll_entry hrec₁ hne, andThen, failsWith_andThen_iff,
      failsWith_andThen_iff] at h
    rcases h with h | ⟨-, -, h | ⟨-, -, h⟩⟩
    · exact hwalk.mp h
    -- the walk has left the widths alone, so the collection points can be marked
    · rw [walk_eq_visit (sameWidths_instruction m) hrec₂ (fun o ho => ho) hstop] at h
      have hrec₃ := hrec₂.of_sameWidths
        (sameWidths_visit (sameWidths_instruction m) (startsFrom m.code 0) _)
      exact absurd h (not_failsWith_gcPoints hrec₃ hstop gcPoints k offset)
    · exact absurd h (not_failsWith_ok n)
  · intro h
    rcases h with ⟨hgood, hfault⟩
    have hok := (tries_ok_iff hrec).mpr hgood
    refine ⟨(), hok, ?_⟩
    rw [tries_table_of_ok hrec.size_eq hok, markAll_entry hrec₁ hne, andThen, failsWith_andThen_iff]
    exact .inl (hwalk.mpr hfault)

/-- The pre-analysis fails with a kind at an offset if and only if that is for what, and where,
the method is rejected. -/
theorem failsWith_preAnalyze_iff (config : Config) (m : Method) (k : FaultKind)
    (offset : Option ℤ) :
    FailsWith (preAnalyze config m).result k offset ↔ RejectedFor m k offset := by
  have hresult : (preAnalyze config m).result
      = (((Pass.all m config.gcPoints).run (.blank m.code.size)).effect.1 >>= fun n =>
          .ok ⟨m, ((Pass.all m config.gcPoints).run (.blank m.code.size)).effect.2, n⟩) := by
    rw [preAnalyze_result]
    rcases ((Pass.all m config.gcPoints).run (.blank m.code.size)).effect with ⟨_ | n, t⟩ <;> rfl
  rw [hresult, failsWith_bind_iff]
  simp only [not_failsWith_ok, and_false, exists_false, or_false]
  rw [effect_all, failsWith_andThen_iff, failsWith_widths_iff]
  constructor
  · intro h
    rcases h with h | ⟨n, hn, h⟩
    · exact .stream h
    · have htiled : Tiled m.code := by
        by_contra hno
        obtain ⟨offset, cause, herror⟩ := widths_not_tiled hno
        rw [herror] at hn
        cases hn
      obtain ⟨t, hwidths, hrec, -⟩ := widths_tiled htiled
      rw [hwidths, failsWith_afterScan_iff htiled hrec] at h
      rcases h with h | ⟨⟨htries, hhandlers⟩, h⟩
      · exact .table htiled h
      · exact .transfer htiled htries hhandlers h
  · intro h
    cases h with
    | stream h => exact .inl h
    | table htiled h =>
      obtain ⟨t, hwidths, hrec, -⟩ := widths_tiled htiled
      rw [hwidths]
      exact .inr ⟨_, rfl, (failsWith_afterScan_iff htiled hrec _ _ _ _).mpr (.inl h)⟩
    | transfer htiled htries hhandlers h =>
      obtain ⟨t, hwidths, hrec, -⟩ := widths_tiled htiled
      rw [hwidths]
      exact .inr ⟨_, rfl,
        (failsWith_afterScan_iff htiled hrec _ _ _ _).mpr (.inr ⟨⟨htries, hhandlers⟩, h⟩)⟩

/-! ## Kinds of rejections -/

section

variable {m : Method} {k : FaultKind} {offset : Option ℤ}

/-! The category of a kind tells the pass that finds it. -/

/-- A fault of the stream comes before all others. -/
theorem rejectedFor_iff_streamFault (hk : k.category = .malformedStream) :
    RejectedFor m k offset ↔ StreamFault m.code k offset := by
  constructor
  · intro h
    cases h with
    | stream h => exact h
    | table _ h => exact absurd (h.category.symm.trans hk) (by decide)
    | transfer _ _ _ h => exact absurd (h.category.symm.trans hk) (by decide)
  · exact .stream

/-- A fault of the exception table comes after those of the stream. -/
theorem rejectedFor_iff_tableFault (hk : k.category = .exceptionRegion) :
    RejectedFor m k offset ↔ Tiled m.code ∧ TableFault m k offset := by
  constructor
  · intro h
    cases h with
    | stream h => exact absurd (h.category.symm.trans hk) (by decide)
    | table htiled h => exact ⟨htiled, h⟩
    | transfer _ _ _ h => exact absurd (h.category.symm.trans hk) (by decide)
  · intro h
    exact .table h.1 h.2

/-- A fault of an instruction comes last, in a method whose stream and exception table are good. -/
theorem rejectedFor_iff_transferFault (hk : k.category = .controlTransfer) :
    RejectedFor m k offset ↔ Tiled m.code ∧ (∀ b ∈ m.tries, WholeTry m.code b) ∧
      (∀ hs ∈ m.allHandlers, ∀ h ∈ hs, IsStart m.code h.addr.toNat) ∧ TransferFault m k offset := by
  constructor
  · intro h
    cases h with
    | stream h => exact absurd (h.category.symm.trans hk) (by decide)
    | table _ h => exact absurd (h.category.symm.trans hk) (by decide)
    | transfer htiled htries hhandlers h => exact ⟨htiled, htries, hhandlers, h⟩
  · intro h
    rcases h with ⟨htiled, htries, hhandlers, h⟩
    exact .transfer htiled htries hhandlers h

/-- No method is rejected for a fault of the caller of a check, or for one of another analysis. -/
theorem RejectedFor.kind_ne (h : RejectedFor m k offset) :
    k ∉ [FaultKind.flagsSize, .offsetOutOfRange, .notBranch, .notSwitch, .notFillArray,
      .unresolvedClass] := by
  cases h with
  | stream h =>
    cases h with
    | empty => decide
    | stuck _ hstop => cases hstop <;> decide
  | table _ h =>
    have hk := h.category
    intro hmem
    have hall : ∀ k ∈ [FaultKind.flagsSize, .offsetOutOfRange, .notBranch, .notSwitch,
        .notFillArray, .unresolvedClass], k.category ≠ .exceptionRegion := by decide
    exact hall k hmem hk
  | transfer _ _ _ h =>
    have hall : ∀ k ∈ branchKinds false ++ (switchKinds ++ arrayKinds),
        k ∉ [FaultKind.flagsSize, .offsetOutOfRange, .notBranch, .notSwitch, .notFillArray,
          .unresolvedClass] := by decide
    exact hall k h.kind_mem

/-! What a rejection says, kind by kind. -/

/-- Only a method without units is rejected for that. -/
theorem rejectedFor_emptyCode_iff :
    RejectedFor m .emptyCode offset ↔ offset = none ∧ m.code.size = 0 := by
  rw [rejectedFor_iff_streamFault rfl]
  constructor
  · intro h
    cases h with
    | empty hsize => exact ⟨rfl, hsize⟩
    | stuck _ hstop => cases hstop
  · intro h
    rcases h with ⟨rfl, hsize⟩
    exact .empty hsize

/-- A method is rejected where its decode stops. -/
theorem rejectedFor_undecodable_iff
    (hk : k ∈ [FaultKind.unknownOpcode, .payloadOverrun, .codeEndMismatch, .insaneWidth]) :
    RejectedFor m k offset ↔
      ∃ f : ℕ, offset = some (f : ℤ) ∧ Reaches m.code f ∧ Undecodable m.code f k := by
  have hcategory : k.category = .malformedStream := by
    revert k
    decide
  rw [rejectedFor_iff_streamFault hcategory]
  constructor
  · intro h
    cases h with
    | empty => simp at hk
    | stuck hreach hstop => exact ⟨_, rfl, hreach, hstop⟩
  · intro h
    rcases h with ⟨f, rfl, hreach, hstop⟩
    exact .stuck hreach hstop

/-- A method is rejected for the first try block that is not whole. -/
theorem rejectedFor_tryBlock_iff (hk : k ∈ [FaultKind.tryBounds, .tryStart, .tryEnd]) :
    RejectedFor m k offset ↔ Tiled m.code ∧ FirstTryFault m.code m.tries k offset := by
  have hcategory : k.category = .exceptionRegion := by
    revert k
    decide
  rw [rejectedFor_iff_tableFault hcategory]
  refine and_congr_right fun _ => ⟨?_, .tryBlock⟩
  intro h
  cases h with
  | tryBlock h => exact h
  | handler => simp at hk

/-- A method is rejected for a handler once all its try blocks are whole. -/
theorem rejectedFor_handlerAddress_iff :
    RejectedFor m .handlerAddress offset ↔
      offset = none ∧ Tiled m.code ∧ (∀ b ∈ m.tries, WholeTry m.code b) ∧
        ∃ hs ∈ m.allHandlers, ∃ h ∈ hs, ¬ IsStart m.code h.addr.toNat := by
  rw [rejectedFor_iff_tableFault rfl]
  constructor
  · intro h
    rcases h with ⟨htiled, h⟩
    cases h with
    | tryBlock h => exact absurd rfl h.kind_ne
    | handler htries h => exact ⟨rfl, htiled, htries, h⟩
  · intro h
    rcases h with ⟨rfl, htiled, htries, h⟩
    exact ⟨htiled, .handler htries h⟩

end

/-- The pre-analysis fails with a kind only: it neither leaves the table nor gets stuck. -/
theorem exists_failsWith_of_preAnalyze {config : Config} {m : Method} {h : Halt}
    (herror : (preAnalyze config m).result = .error h) :
    ∃ k offset, FailsWith (preAnalyze config m).result k offset := by
  have hno : ¬ WellFormed m := by
    intro hwell
    obtain ⟨a, ha⟩ := exists_preAnalyze_of_wellFormed hwell config
    rw [herror] at ha
    cases ha
  obtain ⟨offset, cause, hrefused⟩ := preAnalyze_of_not_wellFormed hno config
  exact ⟨cause.kind, offset, cause, hrefused, rfl⟩

/-- What the answers to a method say about it, kind by kind. -/
structure Classified (m : Method) (answer : Check Analysis) : Prop where
  /-- Every failure has a kind. -/
  refused : ∀ h, answer = .error h → ∃ k offset, FailsWith answer k offset
  /-- The code is empty. -/
  empty : ∀ offset, FailsWith answer .emptyCode offset ↔ offset = none ∧ m.code.size = 0
  /-- The sequential decode succeeds up to an offset and stops there. -/
  stream : ∀ k ∈ [FaultKind.unknownOpcode, .payloadOverrun, .codeEndMismatch, .insaneWidth],
    ∀ offset, FailsWith answer k offset ↔
      ∃ f : ℕ, offset = some (f : ℤ) ∧ Reaches m.code f ∧ Undecodable m.code f k
  /-- The code is tiled, and a try block is the first that is not whole. -/
  tryBlock : ∀ k ∈ [FaultKind.tryBounds, .tryStart, .tryEnd], ∀ offset,
    FailsWith answer k offset ↔ Tiled m.code ∧ FirstTryFault m.code m.tries k offset
  /-- The code is tiled and all try blocks are whole, but a handler starts at no instruction. -/
  handler : ∀ offset, FailsWith answer .handlerAddress offset ↔
    offset = none ∧ Tiled m.code ∧ (∀ b ∈ m.tries, WholeTry m.code b) ∧
      ∃ hs ∈ m.allHandlers, ∃ h ∈ hs, ¬ IsStart m.code h.addr.toNat
  /-- The code and the exception table are good, and an instruction is the first to fail its own
  check. -/
  transfer : ∀ k, k.category = .controlTransfer → ∀ offset, FailsWith answer k offset ↔
    Tiled m.code ∧ (∀ b ∈ m.tries, WholeTry m.code b) ∧
      (∀ hs ∈ m.allHandlers, ∀ h ∈ hs, IsStart m.code h.addr.toNat) ∧ TransferFault m k offset
  /-- The fault of an instruction belongs to the check that its opcode calls for. -/
  family : ∀ k, k.category = .controlTransfer → ∀ o : ℕ, FailsWith answer k (some (o : ℤ)) →
    k ∈ transferKinds (opcodeAt m.code o)
  /-- Faults of the callers of a check do not occur, nor do faults of other analyses. -/
  never : ∀ k ∈ [FaultKind.flagsSize, .offsetOutOfRange, .notBranch, .notSwitch, .notFillArray,
    .unresolvedClass], ∀ offset, ¬ FailsWith answer k offset
  /-- A `goto/32` may go to itself. -/
  selfBranch : ∀ o : ℕ, FailsWith answer .selfBranch (some (o : ℤ)) → opcodeAt m.code o ≠ 0x2a

/-- Whatever the settings, a rejection is classified and localised exactly. -/
theorem classified_preAnalyze (config : Config) (m : Method) :
    Classified m (preAnalyze config m).result := by
  have hiff := failsWith_preAnalyze_iff config m
  refine ⟨fun h => exists_failsWith_of_preAnalyze, ?_, ?_, ?_, ?_, ?_, ?_, ?_, ?_⟩
  · intro offset
    rw [hiff, rejectedFor_emptyCode_iff]
  · intro k hk offset
    rw [hiff, rejectedFor_undecodable_iff hk]
  · intro k hk offset
    rw [hiff, rejectedFor_tryBlock_iff hk]
  · intro offset
    rw [hiff, rejectedFor_handlerAddress_iff]
  · intro k hk offset
    rw [hiff, rejectedFor_iff_transferFault hk]
  · intro k hk o h
    rw [hiff, rejectedFor_iff_transferFault hk] at h
    exact h.2.2.2.mem_transferKinds
  · intro k hk offset h
    exact ((hiff k offset).mp h).kind_ne hk
  -- a branch to itself is no fault of the family of `goto/32`
  · intro o h hop
    rw [hiff, rejectedFor_iff_transferFault rfl] at h
    have hmem := h.2.2.2.mem_transferKinds
    rw [hop] at hmem
    exact absurd hmem (by decide)

end Dalvik
