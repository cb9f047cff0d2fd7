import Mathlib
import Dalvik.Proofs.ExceptionTable
import Dalvik.Proofs.TableInvariant

/-!
# Reads inside bounds

A read of a unit or a flag word that does not exist halts a check without a cause. No pass comes to
that, whatever the code, the table and the offset are (`Check.Answers`): what a check reads is
covered by what it has compared before.

Some definitions compare and read in one step, with an answer for the missing unit. `Strict` holds
the same computations with the comparisons written out and with reads that halt. Both are equal, so
the comparisons are enough there, too. All of this is put together in `inBounds_method`.
-/

namespace Dalvik

open Check
open Layout

/-! ## Checks that answer -/

namespace Check

/-- The check gives a result or refuses with a cause. It neither leaves the code and the table nor
stalls. -/
def Answers {α : Type} (c : Check α) : Prop :=
  (∃ a, c = .ok a) ∨ ∃ offset cause, c = .error (.refused offset cause)

/-- A check that never halts without a cause never reads out of bounds. -/
theorem Refuses.answers {α : Type} {c : Check α} (h : Refuses c) : Answers c := by
  cases c with
  | ok a => exact .inl ⟨a, rfl⟩
  | error e =>
    obtain ⟨offset, cause, rfl⟩ := h e rfl
    exact .inr ⟨offset, cause, rfl⟩

/-- The scan of any code and any table ends in the code or with a refusal. -/
theorem refuses_widths (m : Method) (t : FlagTable) : Refuses (widths m t).1 := by
  by_cases hscan : m.code.size = 0 ∨ t.size ≠ m.code.size
  · obtain ⟨cause, hrefused⟩ := widths_refused hscan
    rw [hrefused]
    exact Refuses.refuse cause
  · rw [not_or, not_not] at hscan
    obtain ⟨hne, hsize⟩ := hscan
    have hreset : t.reset.size = m.code.size := by rw [FlagTable.size_reset, hsize]
    rw [widths_eq hne hsize]
    by_cases hstop : stopFrom m.code 0 = m.code.size
    · rw [scanFrom_ok hreset (Nat.zero_le _) hstop]
      exact Refuses.ok _
    · have hrefused : ∃ cause, (scanFrom m.code 0 0 t.reset).1
          = refuseAt (stopFrom m.code 0 : ℕ) cause := by
        obtain ⟨cause, -, hcause⟩ := scanFrom_error hreset (Nat.zero_le _) hstop
        exact ⟨cause, hcause⟩
      obtain ⟨cause, hcause⟩ := hrefused
      rw [hcause]
      exact Refuses.refuseAt _ cause

/-- Opcodes of the table can be marked. -/
theorem refuses_markAll {t : FlagTable} {targets : List ℕ}
    (hop : ∀ a ∈ targets, t.isOpcode a = true) : Refuses (markAll t .branchTarget targets).1 := by
  rw [markAll_eq]
  · exact Refuses.ok ()
  · intro a ha
    exact FlagTable.lt_size_of_isOpcode (hop a ha)

/-- The check of a branch halts with a cause or not at all. -/
theorem refuses_branch (m : Method) (off : ℤ) (selfOkay : Bool) (t : FlagTable) :
    Refuses (branch m off selfOkay t).1 := by
  have htarget := refuses_branchTarget m t off selfOkay
  rw [branch]
  cases hb : branchTarget m t off selfOkay with
  | error h =>
    rw [hb] at htarget
    exact htarget.map fun _ => ()
  | ok target =>
    have hop : ∀ a ∈ [target], t.isOpcode a = true := by
      simpa using isOpcode_of_branchTarget hb
    exact refuses_markAll hop

/-- The check of a switch halts with a cause or not at all. -/
theorem refuses_switch (m : Method) (off : ℤ) (t : FlagTable) : Refuses (switch m off t).1 := by
  have htargets := refuses_switchTargets m t off
  rw [switch]
  cases hs : switchTargets m t off with
  | error h =>
    rw [hs] at htargets
    exact htargets.map fun _ => ()
  | ok targets => exact refuses_markAll (isOpcode_of_switchTargets hs)

/-- The query for a branch target halts with a cause or not at all. -/
theorem refuses_encodedTarget (m : Method) (t : FlagTable) (off : ℤ) :
    Refuses (encodedTarget m t off) :=
  (refuses_branchOf m t .branchQuery off).bind fun _ _ => Refuses.ok _

end Check

/-- A sequence of passes halts with a cause if each of them does. -/
theorem Pass.refuses_bind {α β : Type} {p : Pass α} {f : α → Pass β} {t : FlagTable}
    (hp : Refuses (p.run t).result) (hf : ∀ a t', Refuses ((f a).run t').result) :
    Refuses ((p >>= f).run t).result := by
  cases hrun : p.run t with
  | mk result t' records =>
    cases result with
    | error h =>
      rw [hrun] at hp
      rw [run_bind_error hrun f]
      exact fun h' hc => hp h' (by cases hc; rfl)
    | ok a =>
      rw [run_bind_ok hrun f]
      exact hf a t'

/-- Every pass answers, on any table and at any offset. -/
theorem Step.refuses_pass (m : Method) (t : FlagTable) (s : Step) :
    Refuses ((s.pass m).run t).result := by
  cases s with
  | widths =>
    refine Pass.refuses_bind (Pass.refuses_bind (refuses_widths m t) ?_) fun _ _ => .ok _
    exact fun _ _ => Pass.refuses_bind (.ok _) fun _ _ => .ok _
  | tries =>
    refine Pass.refuses_bind (Pass.refuses_bind (refuses_tries m t) ?_) fun _ _ => .ok _
    exact fun _ _ => .ok _
  | branch off selfOkay =>
    exact Pass.refuses_bind (refuses_branch m off selfOkay t) fun _ _ => .ok _
  | switch off => exact Pass.refuses_bind (refuses_switch m off t) fun _ _ => .ok _
  | arrayData off => exact Pass.refuses_bind (refuses_arrayData m t off) fun _ _ => .ok _
  | encodedTarget off =>
    exact Pass.refuses_bind (refuses_encodedTarget m t off) fun _ _ => .ok _

/-- The pre-analysis of any method answers. -/
theorem refuses_preAnalyze (config : Config) (m : Method) :
    Refuses (preAnalyze config m).result := by
  by_cases hm : WellFormed m
  · obtain ⟨a, haccepted⟩ := exists_preAnalyze_of_wellFormed hm config
    rw [haccepted]
    exact Refuses.ok a
  · obtain ⟨offset, cause, hrefused⟩ := preAnalyze_of_not_wellFormed hm config
    intro h herror
    rw [hrefused] at herror
    cases herror
    exact ⟨offset, cause, rfl⟩

/-! ## Reads that halt -/

namespace Strict

/-- The extent that the header of a table asks for. The header has to end inside the code; then
its fields are read. -/
def payloadExtent (code : Code) (off : ℕ) : PayloadKind → Check (Option ℕ)
  | .packedSwitch =>
    if code.size ≤ off + 1 then return none
    else return some (packedSwitchExtent (← unit code (off + 1)).toNat)
  | .sparseSwitch =>
    if code.size ≤ off + 1 then return none
    else return some (sparseSwitchExtent (← unit code (off + 1)).toNat)
  | .arrayData =>
    if code.size ≤ off + 3 then return none
    else do
      let low ← unit code (off + 2)
      let high ← unit code (off + 3)
      return some (arrayDataExtent (← unit code (off + 1)).toNat (joinUnits low high).toNat)

/-- The extent of the table at an offset of any sign. -/
def measure (code : Code) (off : ℤ) : Check (Except PayloadFault (Option ℕ)) :=
  if off < 0 ∨ code.size ≤ off then return .error (.outside off code.size)
  else do
    match PayloadKind.ofUnit? (← unit code off.toNat) with
    | none => return .ok none
    | some kind =>
      match ← payloadExtent code off.toNat kind with
      | none => return .error (.header kind off.toNat)
      | some extent =>
        if extent ≤ code.size - off.toNat then return .ok (some extent)
        else return .error (.body off.toNat extent (code.size - off.toNat))

/-- The width of the instruction at `off`, and whether it allocates. -/
def decode (code : Code) (off : ℕ) : Check (Except Cause (ℕ × Bool)) := do
  match ← measure code off with
  | .error fault => return .error (.payload fault)
  | .ok (some extent) =>
    if FlagWord.maxWidth < extent then return .error (.width extent)
    else return .ok (extent, false)
  | .ok none =>
    let op := Opcode.ofUnit (← unit code off)
    if op.width = 0 then return .error (.unknownOpcode op)
    else if code.size - off < op.width then
      return .error (.instructionEnd op op.width (code.size - off))
    else return .ok (op.width, op.isAllocation)

/-- The reads of an extent stay inside the code. -/
theorem payloadExtent_eq (code : Code) (kind : PayloadKind) (off : ℕ) :
    payloadExtent code off kind = .ok (Code.payloadExtent? code kind off) := by
  have hnone : code.size ≤ off + 1 → code[off + 1]? = none := Array.getElem?_eq_none
  cases kind with
  | packedSwitch | sparseSwitch =>
    rw [payloadExtent, Code.payloadExtent?]
    split
    · rw [hnone (by assumption)]
      rfl
    · rw [unit_eq (by omega), getElem?_code (by omega)]
      rfl
  | arrayData =>
    rw [payloadExtent, Code.payloadExtent?]
    split
    · rw [pair?_eq_none (by omega)]
      cases code[off + 1]? <;> rfl
    · rw [unit_eq (by omega), unit_eq (by omega), unit_eq (by omega), pair?_eq (by omega),
        getElem?_code (by omega)]
      rfl

/-- The reads of a measurement stay inside the code, whatever the offset. -/
theorem measure_eq (code : Code) (off : ℤ) : measure code off = .ok (Code.measure code off) := by
  cases off with
  | negSucc n =>
    rw [measure, if_pos (.inl (Int.negSucc_lt_zero n))]
    rfl
  | ofNat off =>
    rw [measure, Code.measure, Code.measureAt]
    -- inside the code the first read succeeds, and the header is compared before it is read
    by_cases hoff : off < code.size
    · rw [if_neg (by simp only [Int.ofNat_eq_natCast]; omega), Int.ofNat_eq_natCast,
        Int.toNat_natCast, unit_eq hoff, getElem?_code hoff, ok_bind]
      simp only
      cases PayloadKind.ofUnit? (rawAt code off) with
      | none => rfl
      | some kind =>
        simp only [payloadExtent_eq, ok_bind]
        cases Code.payloadExtent? code kind off with
        | none => rfl
        | some extent =>
          simp only
          split <;> rfl
    · rw [if_pos (.inr (by simp only [Int.ofNat_eq_natCast]; omega)),
        Array.getElem?_eq_none (Nat.not_lt.mp hoff)]
      rfl

/-- The reads of a step of the decode stay inside the code. -/
theorem decode_eq (code : Code) (off : ℕ) :
    decode code off
      = .ok ((Instruction.decode code off).map fun ins => (ins.width, ins.allocates)) := by
  have hmeasure : measure code off = .ok (Code.measureAt code off) := measure_eq code off
  rw [decode, hmeasure, ok_bind]
  cases hm : Code.measureAt code off with
  | error fault =>
    rw [decode_of_measure_error hm]
    rfl
  | ok extent? =>
    cases extent? with
    | some extent =>
      rw [decode_of_measure_some hm]
      simp only
      split <;> rfl
    | none =>
      -- the measure has looked at the unit that is read again here
      obtain ⟨hlt, hkind⟩ := measureAt_none hm
      rw [decode_of_not_payload hlt hkind, unit_eq hlt]
      simp only [ok_bind]
      split
      · rfl
      · split <;> rfl

/-! ### Views of an accepted method -/

/-- Running counts over the words of a table. -/
structure Tally where
  instructions : ℕ := 0
  payloads : ℕ := 0
  branchTargets : ℕ := 0
  inTryUnits : ℕ := 0
  gcPoints : ℕ := 0
  opcodes : Array ℕ := Array.replicate 256 0

/-- The counts with one more word. -/
def Tally.addWord (s : Tally) (w : FlagWord) : Tally :=
  { s with inTryUnits := s.inTryUnits + (w.has .inTry).toNat }

/-- The counts with one more instruction start. -/
def Tally.addStart (s : Tally) (w : FlagWord) (u : UInt16) : Tally :=
  { s with
    instructions := s.instructions + (!isPayloadUnit u).toNat
    payloads := s.payloads + (isPayloadUnit u).toNat
    branchTargets := s.branchTargets + (w.has .branchTarget).toNat
    gcPoints := s.gcPoints + (w.has .gcPoint).toNat
    opcodes :=
      if isPayloadUnit u then s.opcodes
      else s.opcodes.modify (Opcode.ofUnit u).value.toNat (· + 1) }

/-- The counts over words with their addresses. A unit is read where an instruction starts. -/
def tally (code : Code) (s : Tally) : List (FlagWord × ℕ) → Check Tally
  | [] => .ok s
  | (w, i) :: rest =>
    if w.isOpcode then do tally code ((s.addWord w).addStart w (← unit code i)) rest
    else tally code (s.addWord w) rest

/-- The statistics of an accepted method. -/
def stats (a : Analysis) : Check Stats := do
  let s ← tally a.method.code {} a.table.words.toList.zipIdx
  return {
    instructions := s.instructions
    payloads := s.payloads
    branchTargets := s.branchTargets
    inTryUnits := s.inTryUnits
    gcPoints := s.gcPoints
    distribution :=
      (s.opcodes.toList.zipIdx.filter fun (n, _) => n ≠ 0).map fun (n, i) => (⟨i.toUInt8⟩, n) }

/-- The listing of words with their addresses. -/
def listing (code : Code) : List (FlagWord × ℕ) → Check (List InstructionInfo)
  | [] => .ok []
  | (w, i) :: rest =>
    if w.isOpcode then do
      let u ← unit code i
      return Analysis.entry (i, w, u) :: (← listing code rest)
    else listing code rest

/-- Every instruction start of an accepted method in order of address. -/
def instructions (a : Analysis) : Check (List InstructionInfo) :=
  listing a.method.code a.table.words.toList.zipIdx

/-- The addresses that are marked as branch targets, for which no unit is read. -/
def branchTargets (a : Analysis) : List ℕ :=
  (a.table.words.toList.zipIdx.filter fun p => p.1.has .branchTarget).map (·.2)

section

variable {code : Code} {us : List (ℕ × FlagWord × UInt16)}

/-- The counts with the entries of `us` added. -/
def Tally.plus (s : Tally) (us : List (ℕ × FlagWord × UInt16)) : Tally :=
  let starts := us.filter fun e => e.2.1.isOpcode
  { instructions := s.instructions + starts.countP fun e => !isPayloadUnit e.2.2
    payloads := s.payloads + starts.countP fun e => isPayloadUnit e.2.2
    branchTargets := s.branchTargets + starts.countP fun e => e.2.1.has .branchTarget
    inTryUnits := s.inTryUnits + us.countP fun e => e.2.1.has .inTry
    gcPoints := s.gcPoints + starts.countP fun e => e.2.1.has .gcPoint
    opcodes := starts.foldl (fun acc e =>
      if isPayloadUnit e.2.2 then acc
      else acc.modify (Opcode.ofUnit e.2.2).value.toNat (· + 1)) s.opcodes }

theorem countP_cons_eq {α : Type} (p : α → Bool) (x : α) (l : List α) :
    (x :: l).countP p = (p x).toNat + l.countP p := by
  rw [List.countP_cons, Nat.add_comm]
  cases p x <;> rfl

/-- A word without a width counts for its marks only. -/
theorem Tally.plus_cons_of_not (s : Tally) {e : ℕ × FlagWord × UInt16}
    (hop : e.2.1.isOpcode = false) : s.plus (e :: us) = (s.addWord e.2.1).plus us := by
  simp only [plus, addWord, List.filter_cons, hop, countP_cons_eq, Nat.add_assoc,
    Bool.false_eq_true, if_false]

/-- A word with a width counts as an instruction too. -/
theorem Tally.plus_cons_of_isOpcode (s : Tally) {e : ℕ × FlagWord × UInt16}
    (hop : e.2.1.isOpcode = true) :
    s.plus (e :: us) = ((s.addWord e.2.1).addStart e.2.1 e.2.2).plus us := by
  simp only [plus, addWord, addStart, List.filter_cons, hop, countP_cons_eq, Nat.add_assoc,
    if_true, List.foldl_cons]

/-- The counts never read out of bounds if each listed unit is there. -/
theorem tally_eq (h : ∀ e ∈ us, unit code e.1 = .ok e.2.2) (s : Tally) :
    tally code s (us.map fun e => (e.2.1, e.1)) = .ok (s.plus us) := by
  induction us generalizing s with
  | nil => rfl
  | cons e us ih =>
    rw [List.forall_mem_cons] at h
    rw [List.map_cons, tally]
    cases hop : e.2.1.isOpcode with
    | false => rw [if_neg Bool.false_ne_true, ih h.2, Tally.plus_cons_of_not s hop]
    | true => rw [if_pos rfl, h.1, ok_bind, ih h.2, Tally.plus_cons_of_isOpcode s hop]

/-- The listing never reads out of bounds if each listed unit is there. -/
theorem listing_eq (h : ∀ e ∈ us, unit code e.1 = .ok e.2.2) :
    listing code (us.map fun e => (e.2.1, e.1))
      = .ok ((us.filter fun e => e.2.1.isOpcode).map Analysis.entry) := by
  induction us with
  | nil => rfl
  | cons e us ih =>
    rw [List.forall_mem_cons] at h
    rw [List.map_cons, listing]
    cases hop : e.2.1.isOpcode with
    | false =>
      rw [if_neg Bool.false_ne_true, ih h.2, List.filter_cons, hop, if_neg Bool.false_ne_true]
    | true =>
      rw [if_pos rfl, h.1, ih h.2, List.filter_cons, hop, if_pos rfl]
      rfl

end

/-- The unit of an entry stands at its address. -/
theorem unit_of_mem_units (a : Analysis) : ∀ e ∈ a.units, unit a.method.code e.1 = .ok e.2.2 := by
  intro e he
  rw [Analysis.units, List.mem_map] at he
  obtain ⟨⟨⟨w, u⟩, i⟩, hmem, rfl⟩ := he
  rw [List.mem_zipIdx_iff_getElem?, List.getElem?_zip_eq_some] at hmem
  rw [unit, ← Array.getElem?_toList, hmem.2]

section

variable {a : Analysis} (hsize : a.table.size = a.method.code.size)
include hsize

/-- Every word of the table has its entry. -/
theorem map_units_eq_zipIdx :
    a.units.map (fun e => (e.2.1, e.1)) = a.table.words.toList.zipIdx := by
  have hlen : a.table.words.toList.length ≤ a.method.code.toList.length := by
    rw [Array.length_toList, Array.length_toList, ← FlagTable.size, hsize]
  have hfst := congrArg List.zipIdx (List.map_fst_zip hlen)
  rw [List.zipIdx_map] at hfst
  rw [Analysis.units, List.map_map, ← hfst]
  rfl

/-- The statistics of an accepted method read inside its code. -/
theorem stats_eq : stats a = .ok a.stats := by
  rw [stats, ← map_units_eq_zipIdx hsize, tally_eq (unit_of_mem_units a), ok_bind]
  simp only [Tally.plus, Nat.zero_add]
  rfl

/-- The listing of an accepted method reads inside its code. -/
theorem instructions_eq : instructions a = .ok a.instructions := by
  rw [instructions, ← map_units_eq_zipIdx hsize, listing_eq (unit_of_mem_units a)]
  rfl

/-- The branch targets need no reads of the code. -/
theorem branchTargets_eq : branchTargets a = a.branchTargets := by
  rw [branchTargets, ← map_units_eq_zipIdx hsize, List.filter_map, List.map_map]
  rfl

end

end Strict

/-! ## All inputs -/

/-- Nothing that is computed for a method looks outside its code or a table. -/
structure InBounds (m : Method) : Prop where
  /-- Every pass answers, on a table of any size with any words, and at any offset. -/
  passes : ∀ (t : FlagTable) (s : Step), Answers ((s.pass m).run t).result
  /-- A payload table is measured without a read outside the code. -/
  measure : ∀ off : ℤ, Strict.measure m.code off = .ok (Code.measure m.code off)
  /-- The scan decodes without a read outside the code. -/
  decode : ∀ off : ℕ, Strict.decode m.code off
    = .ok ((Instruction.decode m.code off).map fun ins => (ins.width, ins.allocates))
  /-- The pre-analysis accepts the method or refuses it with a cause. -/
  analysis : ∀ config, Answers (preAnalyze config m).result
  /-- The statistics of an accepted method are made without a read outside the code. -/
  stats : ∀ config a, (preAnalyze config m).result = .ok a → Strict.stats a = .ok a.stats
  /-- So is the listing. -/
  instructions : ∀ config a, (preAnalyze config m).result = .ok a →
    Strict.instructions a = .ok a.instructions
  /-- The branch targets come from all words of the table. -/
  branchTargets : ∀ config a, (preAnalyze config m).result = .ok a →
    Strict.branchTargets a = a.branchTargets

/-- No method, table and offset lead to a read or a write that is out of range. -/
theorem inBounds_method (m : Method) : InBounds m := by
  have hsize : ∀ config a, (preAnalyze config m).result = .ok a →
      a.table.size = a.method.code.size := by
    intro config a haccepted
    obtain ⟨hmethod, hrec, -⟩ := table_of_preAnalyze haccepted
    rw [hmethod, hrec.size_eq]
  constructor
  · exact fun t s => (s.refuses_pass m t).answers
  · exact Strict.measure_eq m.code
  · exact Strict.decode_eq m.code
  · exact fun config => (refuses_preAnalyze config m).answers
  · exact fun config a haccepted => Strict.stats_eq (hsize config a haccepted)
  · exact fun config a haccepted => Strict.instructions_eq (hsize config a haccepted)
  · exact fun config a haccepted => Strict.branchTargets_eq (hsize config a haccepted)

end Dalvik
