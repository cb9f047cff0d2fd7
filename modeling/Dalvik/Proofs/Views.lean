import Mathlib
import Dalvik.Proofs.Bounds

/-!
# The views of an accepted method

Statistics, listing and branch targets are read off one flag table, each in its own way: the
listing goes over the instruction starts, the branch targets come from all units, and the
statistics count units in try blocks but starts for all else. That they agree
(`consistentViews_of_preAnalyze`) rests on the table: the starts tile the code, only starts are
branch targets, and a try block has an instruction as a whole or not at all.
-/

namespace Dalvik

open Layout Check

/-! ## Starts one behind the other -/

namespace Layout

variable {code : Code} {off : ℕ}

/-- Each instruction starts where the one before it ends. -/
theorem isChain_startsFrom (code : Code) (off : ℕ) :
    (startsFrom code off).IsChain fun o o' => o' = o + stepWidth code o := by
  induction off using decode_induction code with
  | stop off cause hdec =>
    rw [startsFrom_error hdec]
    exact .nil
  | step off ins hdec ih =>
    rw [startsFrom_ok hdec]
    cases hnext : Instruction.decode code (off + ins.width) with
    | error cause =>
      rw [startsFrom_error hnext]
      exact .singleton off
    | ok ins' =>
      rw [startsFrom_ok hnext] at ih ⊢
      exact .cons_cons (by rw [stepWidth_eq hdec]) ih

/-- The first instruction of a tiled code starts at its first unit. -/
theorem exists_startsFrom_eq_cons (htiled : Tiled code) :
    ∃ rest, startsFrom code 0 = 0 :: rest := by
  obtain ⟨hne, hstop⟩ := (tiled_iff code).mp htiled
  cases hdec : Instruction.decode code 0 with
  | error cause =>
    rw [stopFrom_error hdec] at hstop
    exact absurd hstop.symm hne
  | ok ins => exact ⟨_, startsFrom_ok hdec⟩

/-- The widths add up to the units between the first start and the end of the decode. -/
theorem sum_stepWidth (code : Code) (off : ℕ) :
    off + ((startsFrom code off).map (stepWidth code)).sum = stopFrom code off := by
  induction off using decode_induction code with
  | stop off cause hdec =>
    rw [startsFrom_error hdec, stopFrom_error hdec]
    rfl
  | step off ins hdec ih =>
    rw [startsFrom_ok hdec, stopFrom_ok hdec, ← ih, List.map_cons, List.sum_cons, stepWidth_eq hdec]
    omega

/-- A mark that an instruction has as a whole or not at all is on as many units as the marked
instructions are wide. -/
theorem countP_units (p : ℕ → Bool)
    (hwhole : ∀ o ∈ startsFrom code off, ∀ k, o ≤ k → k < o + stepWidth code o → p k = p o) :
    (List.range' off (stopFrom code off - off)).countP p
      = (((startsFrom code off).filter p).map (stepWidth code)).sum := by
  induction off using decode_induction code with
  | stop off cause hdec =>
    rw [startsFrom_error hdec, stopFrom_error hdec, Nat.sub_self]
    rfl
  | step off ins hdec ih =>
    rw [startsFrom_ok hdec] at hwhole ⊢
    rw [List.forall_mem_cons, stepWidth_eq hdec] at hwhole
    have hend := sum_stepWidth code (off + ins.width)
    have hsplit : stopFrom code off - off
        = ins.width + (stopFrom code (off + ins.width) - (off + ins.width)) := by
      rw [stopFrom_ok hdec]
      omega
    -- the units of the first instruction are all marked, or none of them is
    have hfirst : (List.range' off ins.width).countP p = if p off then ins.width else 0 := by
      split
      · rename_i hp
        have hall : ∀ k ∈ List.range' off ins.width, p k = true := by
          intro k hk
          rw [List.mem_range'_1] at hk
          rw [hwhole.1 k hk.1 hk.2, hp]
        rw [List.countP_eq_length.mpr hall, List.length_range']
      · rename_i hp
        have hnone : ∀ k ∈ List.range' off ins.width, ¬ p k = true := by
          intro k hk
          rw [List.mem_range'_1] at hk
          rw [hwhole.1 k hk.1 hk.2]
          exact hp
        exact List.countP_eq_zero.mpr hnone
    rw [hsplit, ← List.range'_append_1, List.countP_append, hfirst, ih hwhole.2, List.filter_cons]
    split
    · rw [List.map_cons, List.sum_cons, stepWidth_eq hdec]
    · rw [Nat.zero_add]

end Layout

/-! ## Counts of opcodes -/

namespace Analysis

/-- The number of starts with the given opcode that are no payload tables. -/
def opcodeCount (starts : List (ℕ × FlagWord × UInt16)) (v : ℕ) : ℕ :=
  starts.countP fun e => !isPayloadUnit e.2.2 && (Opcode.ofUnit e.2.2).value.toNat == v

theorem opcodeCount_cons (e : ℕ × FlagWord × UInt16) (starts : List (ℕ × FlagWord × UInt16))
    (v : ℕ) : opcodeCount (e :: starts) v = opcodeCount starts v
      + if (!isPayloadUnit e.2.2 && (Opcode.ofUnit e.2.2).value.toNat == v) then 1 else 0 := by
  rw [opcodeCount, List.countP_cons]
  rfl

/-- The counter of an opcode goes up at each of its starts. -/
theorem getElem?_counts (starts : List (ℕ × FlagWord × UInt16)) (acc : Array ℕ) (v : ℕ) :
    (starts.foldl (fun (acc : Array ℕ) (e : ℕ × FlagWord × UInt16) =>
      if isPayloadUnit e.2.2 then acc
      else acc.modify (Opcode.ofUnit e.2.2).value.toNat (· + 1)) acc)[v]?
      = acc[v]?.map (· + opcodeCount starts v) := by
  induction starts generalizing acc with
  | nil => simp [opcodeCount]
  | cons e starts ih =>
    rw [List.foldl_cons, ih, opcodeCount_cons]
    cases isPayloadUnit e.2.2 with
    | true => simp
    | false =>
      simp only [Bool.false_eq_true, if_false, Array.getElem?_modify, Bool.not_false, Bool.true_and,
        beq_iff_eq]
      split
      · rw [Option.map_map]
        congr 1
        funext n
        simp only [Function.comp]
        omega
      · rfl

/-- The distribution lists the opcodes that occur, in ascending order. -/
theorem distribution_eq (a : Analysis) :
    a.distribution = ((List.range 256).filter fun v => opcodeCount a.starts v ≠ 0).map
      fun v => (⟨v.toUInt8⟩, opcodeCount a.starts v) := by
  have hcounts : (a.starts.foldl (fun (acc : Array ℕ) (e : ℕ × FlagWord × UInt16) =>
      if isPayloadUnit e.2.2 then acc
      else acc.modify (Opcode.ofUnit e.2.2).value.toNat (· + 1))
        (Array.replicate 256 0)).toList.zipIdx
      = (List.range 256).map fun v => (opcodeCount a.starts v, v) := by
    apply List.ext_getElem?
    intro v
    rw [List.getElem?_zipIdx, Array.getElem?_toList, getElem?_counts, List.getElem?_map,
      Array.getElem?_replicate]
    by_cases hv : v < 256
    · simp [hv]
    · simp [hv]
  show (List.filter _ (List.zipIdx _)).map _ = _
  rw [hcounts, List.filter_map, List.map_map]
  rfl

/-- Each start that is no payload table has one opcode. -/
theorem sum_opcodeCount (starts : List (ℕ × FlagWord × UInt16)) :
    ∑ v ∈ Finset.range 256, opcodeCount starts v = starts.countP fun e => !isPayloadUnit e.2.2 := by
  induction starts with
  | nil => exact Finset.sum_const_zero
  | cons e starts ih =>
    have hone : (∑ v ∈ Finset.range 256,
        if (!isPayloadUnit e.2.2 && (Opcode.ofUnit e.2.2).value.toNat == v) then 1 else 0)
          = if !isPayloadUnit e.2.2 then 1 else 0 := by
      cases isPayloadUnit e.2.2 with
      | true => exact Finset.sum_const_zero
      | false =>
        have hmem : (Opcode.ofUnit e.2.2).value.toNat ∈ Finset.range 256 :=
          Finset.mem_range.mpr (UInt8.toNat_lt _)
        simp only [Bool.not_false, Bool.true_and, beq_iff_eq, Finset.sum_ite_eq, if_pos hmem,
          if_true]
    simp only [opcodeCount_cons]
    rw [Finset.sum_add_distrib, ih, hone, List.countP_cons]

/-- The counts of the distribution add up to the number of instructions. -/
theorem sum_distribution (a : Analysis) :
    (a.distribution.map (·.2)).sum = a.stats.instructions := by
  have hmap : a.distribution.map (·.2) = ((List.range 256).filter fun v =>
      opcodeCount a.starts v ≠ 0).map (opcodeCount a.starts) := by
    rw [distribution_eq, List.map_map]
    rfl
  rw [hmap, ← List.sum_toFinset _ (List.nodup_range.filter _), List.toFinset_filter,
    List.toFinset_range]
  simp only [decide_eq_true_eq]
  rw [Finset.sum_filter_ne_zero, sum_opcodeCount]
  rfl

/-- No opcode is listed twice. -/
theorem pairwise_distribution (a : Analysis) :
    (a.distribution.map (·.1.value)).Pairwise (· < ·) := by
  rw [distribution_eq, List.map_map, List.pairwise_map]
  refine (List.pairwise_lt_range.filter _).imp_of_mem fun {v w} hv hw hlt => ?_
  have hvlt : v < 256 := List.mem_range.mp (List.mem_of_mem_filter hv)
  have hwlt : w < 256 := List.mem_range.mp (List.mem_of_mem_filter hw)
  show v.toUInt8 < w.toUInt8
  rwa [UInt8.lt_iff_toNat_lt, Nat.toUInt8, UInt8.toNat_ofNat_of_lt' hvlt,
    UInt8.toNat_ofNat_of_lt' hwlt]

/-- An opcode is listed once if it occurs, else not at all. -/
theorem lookup_occurring (count : ℕ → ℕ) {values : List ℕ} (hlt : ∀ v ∈ values, v < 256)
    (op : Opcode) :
    ((((values.filter fun v => count v ≠ 0).map fun v => ((⟨v.toUInt8⟩ : Opcode), count v)).lookup
      op).getD 0) = if op.value.toNat ∈ values then count op.value.toNat else 0 := by
  induction values with
  | nil => rfl
  | cons v values ih =>
    rw [List.forall_mem_cons] at hlt
    have hvalue : op = ⟨v.toUInt8⟩ ↔ op.value.toNat = v := by
      rw [Opcode.mk.injEq, ← UInt8.toNat_inj, Nat.toUInt8, UInt8.toNat_ofNat_of_lt' hlt.1]
    by_cases hzero : count v = 0
    · rw [List.filter_cons_of_neg (by simpa using hzero), ih hlt.2]
      by_cases hv : op.value.toNat = v
      · simp [hv, hzero]
      · simp [hv]
    · rw [List.filter_cons_of_pos (by simpa using hzero), List.map_cons, List.lookup_cons]
      by_cases hv : op.value.toNat = v
      · rw [beq_iff_eq.mpr (hvalue.mpr hv), if_pos (List.mem_cons.mpr (.inl hv)), hv]
        rfl
      · have hmem : op.value.toNat ∈ v :: values ↔ op.value.toNat ∈ values := by
          rw [List.mem_cons, or_iff_right hv]
        rw [beq_eq_false_iff_ne.mpr (mt hvalue.mp hv)]
        simp only [hmem]
        exact ih hlt.2

/-- The entry of an opcode in the distribution. -/
theorem lookup_distribution (a : Analysis) (op : Opcode) :
    (a.distribution.lookup op).getD 0 = opcodeCount a.starts op.value.toNat := by
  rw [distribution_eq, lookup_occurring _ fun v hv => List.mem_range.mp hv,
    if_pos (List.mem_range.mpr (UInt8.toNat_lt _))]

/-! ## Units and starts -/

/-- The unit at `o` with its offset and flags. -/
def flagged (a : Analysis) (o : ℕ) : ℕ × FlagWord × UInt16 :=
  (o, a.table.wordAt o, rawAt a.method.code o)

section

variable {a : Analysis}

theorem units_eq (hsize : a.table.size = a.method.code.size) :
    a.units = (List.range a.method.code.size).map a.flagged := by
  apply List.ext_getElem?
  intro i
  rw [units, List.getElem?_map, List.getElem?_zipIdx, List.getElem?_map]
  by_cases hi : i < a.method.code.size
  · have hpair : (a.table.words.toList.zip a.method.code.toList)[i]?
        = some (a.table.wordAt i, rawAt a.method.code i) := by
      rw [List.getElem?_zip_eq_some, Array.getElem?_toList, Array.getElem?_toList]
      exact ⟨FlagTable.getElem?_words (by rwa [hsize]), getElem?_code hi⟩
    rw [hpair, List.getElem?_range hi, Option.map_some, Option.map_some, Option.map_some,
      Nat.zero_add]
    rfl
  · rw [List.getElem?_eq_none, List.getElem?_eq_none]
    · rfl
    · simpa using hi
    · rw [List.length_zip, Array.length_toList, Array.length_toList, ← FlagTable.size, hsize]
      omega

/-- The starts of the table are those of the code. -/
theorem starts_eq (hrec : Recorded a.method.code a.table) :
    a.starts = (startsFrom a.method.code 0).map a.flagged := by
  have hoffsets : (List.range a.method.code.size).filter (fun o => (a.table.wordAt o).isOpcode)
      = startsFrom a.method.code 0 := by
    apply (List.pairwise_lt_range.filter _).eq_of_mem_iff (startsFrom_pairwise a.method.code 0)
    intro o
    rw [List.mem_filter, List.mem_range, FlagWord.isOpcode_iff, hrec.width_eq, startWidth_pos_iff]
    exact and_iff_right_of_imp lt_size_of_mem_startsFrom
  rw [starts, units_eq hrec.size_eq, List.filter_map, ← hoffsets]
  rfl

theorem instructions_eq (hrec : Recorded a.method.code a.table) :
    a.instructions = (startsFrom a.method.code 0).map fun o => entry (a.flagged o) := by
  rw [instructions, starts_eq hrec, List.map_map]
  rfl

/-- The width of an entry is that of the instruction. -/
theorem width_entry (hrec : Recorded a.method.code a.table) {o : ℕ}
    (ho : o ∈ startsFrom a.method.code 0) :
    (entry (a.flagged o)).width = stepWidth a.method.code o := by
  show (a.table.wordAt o).width = _
  rw [hrec.width_eq, startWidth_eq_stepWidth, if_pos ho]

/-- A count over the starts is a count over the listing. -/
theorem countP_instructions (a : Analysis) (p : InstructionInfo → Bool) :
    a.instructions.countP p = a.starts.countP fun e => p (entry e) := by
  rw [instructions, List.countP_map]
  rfl

/-- The counts of the distribution are those of the listing. -/
theorem opcodeCount_eq_countP (a : Analysis) (op : Opcode) :
    opcodeCount a.starts op.value.toNat
      = a.instructions.countP fun e => !e.payload && e.opcode == op := by
  rw [countP_instructions, opcodeCount]
  apply List.countP_congr
  intro e _
  have hop : Opcode.ofUnit e.2.2 = op ↔ (Opcode.ofUnit e.2.2).value.toNat = op.value.toNat := by
    rw [UInt8.toNat_inj]
    exact ⟨congrArg Opcode.value, fun hvalue => by cases op; exact congrArg Opcode.mk hvalue⟩
  show _ ↔ (!isPayloadUnit e.2.2 && Opcode.ofUnit e.2.2 == op) = true
  rw [Bool.and_eq_true, Bool.and_eq_true, beq_iff_eq, beq_iff_eq, hop]

end

end Analysis

/-! ## Accepted methods -/

/-- A block has all units of an instruction or none. -/
theorem contains_iff_of_spans {code : Code} {t : FlagTable} (hrec : Recorded code t) {b : TryBlock}
    (hstart : IsStart code b.start.toNat) (hstop : IsStart code b.stop ∨ b.stop = code.size)
    {s o : ℕ} (h : t.Spans s o) (ho : o < code.size) : b.Contains o ↔ b.Contains s := by
  have hle := h.2.1
  have hfirst := h.le_or_le hrec hstart
  have hlast : b.stop ≤ s ∨ o < b.stop := by
    rcases hstop with hop | hend
    · exact h.le_or_le hrec hop
    · exact .inr (by omega)
  have hcontains : ∀ u, b.Contains u ↔ b.start.toNat ≤ u ∧ u < b.stop := fun u => Iff.rfl
  rw [hcontains, hcontains]
  omega

/-- The branch targets and the allocations of an accepted method. -/
theorem targets_of_preAnalyze {config : Config} {m : Method} {a : Analysis}
    (h : (preAnalyze config m).result = .ok a) :
    (∀ o < m.code.size, ((a.table.wordAt o).has .branchTarget = true ↔ IsTarget m.code o)) ∧
      a.newInstances = allocations m.code (startsFrom m.code 0) := by
  obtain ⟨t, targets, heffect, hrec, hword, hmem⟩ :=
    all_wellFormed (wellFormed_of_preAnalyze h) config.gcPoints
  rw [preAnalyze_result, heffect] at h
  cases h
  refine ⟨fun o ho => ?_, rfl⟩
  rw [FlagWord.has_eq_getLsbD]
  exact (flags_of_words hrec hword hmem config.gcPoints ho).branchTarget

/-- Only starts are targets in a well-formed method. -/
theorem isStart_of_isTarget {m : Method} (h : WellFormed m) {o : ℕ} (ho : IsTarget m.code o) :
    IsStart m.code o := by
  rcases ho with rfl | ⟨o', hstart, hjump⟩
  · obtain ⟨rest, hstarts⟩ := exists_startsFrom_eq_cons h.tiled
    rw [isStart_iff, hstarts]
    exact List.mem_cons_self
  · exact isStart_of_jumpsTo (h.transfers o' hstart) hjump

namespace Analysis

section

variable {config : Config} {a : Analysis} (h : (preAnalyze config a.method).result = .ok a)
include h

/-- The branch targets are starts, so the listing has them all. -/
theorem branchTargets_eq_listed :
    a.branchTargets = (a.instructions.filter (·.branchTarget)).map (·.offset) := by
  obtain ⟨-, hrec, -⟩ := table_of_preAnalyze h
  have htargets := (targets_of_preAnalyze h).1
  have hoffsets : (List.range a.method.code.size).filter
      (fun o => (a.table.wordAt o).has .branchTarget)
        = (startsFrom a.method.code 0).filter fun o => (a.table.wordAt o).has .branchTarget := by
    apply (List.pairwise_lt_range.filter _).eq_of_mem_iff
      ((startsFrom_pairwise a.method.code 0).filter _)
    intro o
    rw [List.mem_filter, List.mem_filter, List.mem_range]
    constructor
    · rintro ⟨ho, hmarked⟩
      refine ⟨(isStart_iff _ o).mp ?_, hmarked⟩
      exact isStart_of_isTarget (wellFormed_of_preAnalyze h) ((htargets o ho).mp hmarked)
    · rintro ⟨ho, hmarked⟩
      exact ⟨lt_size_of_mem_startsFrom ho, hmarked⟩
  have hunits : a.branchTargets = (List.range a.method.code.size).filter
      fun o => (a.table.wordAt o).has .branchTarget := by
    rw [branchTargets, units_eq hrec.size_eq, List.filter_map, List.map_map]
    exact List.map_id _
  have hlisted : (a.instructions.filter (·.branchTarget)).map (·.offset)
      = (startsFrom a.method.code 0).filter fun o => (a.table.wordAt o).has .branchTarget := by
    rw [instructions_eq hrec, List.filter_map, List.map_map]
    exact List.map_id _
  rw [hunits, hlisted, hoffsets]

/-- A try block has whole instructions, so the listing has all units of it. -/
theorem inTryUnits_eq_listed :
    a.stats.inTryUnits = ((a.instructions.filter (·.inTry)).map (·.width)).sum := by
  obtain ⟨-, hrec, hinTry⟩ := table_of_preAnalyze h
  have hwf := wellFormed_of_preAnalyze h
  have hstop := ((tiled_iff _).mp hwf.tiled).2
  have hwhole : ∀ o ∈ startsFrom a.method.code 0, ∀ k, o ≤ k → k < o + stepWidth a.method.code o →
      (a.table.wordAt k).has .inTry = (a.table.wordAt o).has .inTry := by
    intro o ho k hle hlt
    have hwidth : (a.table.wordAt o).width = stepWidth a.method.code o := width_entry hrec ho
    have hspans : a.table.Spans o k :=
      ⟨(hrec.isOpcode_iff o).mpr ((isStart_iff _ o).mpr ho), hle, by rwa [hwidth]⟩
    have hk : k < a.method.code.size := by
      have hend := add_startWidth_le ho
      rw [← hrec.width_eq, hwidth] at hend
      omega
    rw [Bool.eq_iff_iff, hinTry k hk, hinTry o (lt_size_of_mem_startsFrom ho)]
    refine exists_congr fun b => and_congr_right fun hb => ?_
    obtain ⟨-, hfirst, hlast⟩ := hwf.tries b hb
    exact contains_iff_of_spans hrec hfirst hlast hspans hk
  have hunits : a.stats.inTryUnits
      = (List.range' 0 (stopFrom a.method.code 0 - 0)).countP fun o =>
        (a.table.wordAt o).has .inTry := by
    show a.units.countP _ = _
    rw [units_eq hrec.size_eq, List.countP_map, hstop, Nat.sub_zero, ← List.range_eq_range']
    rfl
  have hlisted : (a.instructions.filter (·.inTry)).map (·.width)
      = ((startsFrom a.method.code 0).filter fun o => (a.table.wordAt o).has .inTry).map
        (stepWidth a.method.code) := by
    rw [instructions_eq hrec, List.filter_map, List.map_map]
    exact List.map_congr_left fun o ho => width_entry hrec (List.mem_of_mem_filter ho)
  rw [hunits, countP_units _ hwhole, hlisted]

/-- The allocations are the starts with the opcode of an allocation. -/
theorem opcodeCount_newInstance :
    opcodeCount a.starts Opcode.newInstance.value.toNat = a.newInstances := by
  obtain ⟨-, hrec, -⟩ := table_of_preAnalyze h
  rw [(targets_of_preAnalyze h).2, opcodeCount, starts_eq hrec, List.countP_map, allocations]
  apply List.countP_congr
  intro o _
  have hvalue : (Opcode.ofUnit (rawAt a.method.code o)).value.toNat = opcodeAt a.method.code o :=
    value_ofUnit _
  -- the low byte of a signature is zero
  have hordinary : opcodeAt a.method.code o = 0x22 →
      isPayloadUnit (rawAt a.method.code o) = false := by
    intro hop
    rw [isPayloadUnit, Option.isSome_eq_false_iff, Option.isNone_iff_eq_none, ofUnit?_eq_none_iff]
    rw [← hvalue] at hop
    refine ⟨?_, ?_, ?_⟩ <;>
    · intro hsignature
      rw [hsignature] at hop
      exact absurd hop (by decide)
  show (!isPayloadUnit (rawAt a.method.code o)
    && (Opcode.ofUnit (rawAt a.method.code o)).value.toNat == 0x22) = true ↔ _
  rw [hvalue, Bool.and_eq_true, Bool.not_eq_true', beq_iff_eq]
  exact and_iff_right_of_imp hordinary

end

end Analysis

/-- The views of an analysis agree with each other. -/
structure ConsistentViews (a : Analysis) : Prop where
  /-- The listing starts at the first unit. -/
  first : (a.instructions.map (·.offset)).head? = some 0
  /-- Each instruction starts where the one before it ends. -/
  next : a.instructions.IsChain fun e e' => e'.offset = e.offset + e.width
  /-- The instructions make up the code. -/
  total : (a.instructions.map (·.width)).sum = a.method.code.size
  /-- All entries of the listing are counted, -/
  count : a.stats.instructions + a.stats.payloads = a.instructions.length
  /-- those of payload tables apart. -/
  payloads : a.stats.payloads = a.instructions.countP (·.payload)
  /-- The distribution accounts for all ordinary instructions, -/
  distribution : (a.stats.distribution.map (·.2)).sum = a.stats.instructions
  /-- each opcode once, -/
  ascending : (a.stats.distribution.map (·.1.value)).Pairwise (· < ·)
  /-- with as many as the listing has, -/
  opcode : ∀ op, (a.stats.distribution.lookup op).getD 0
    = a.instructions.countP fun e => !e.payload && e.opcode == op
  /-- and of allocations as many as the scan has found. -/
  allocations : (a.stats.distribution.lookup .newInstance).getD 0 = a.newInstances
  /-- The branch targets ascend, -/
  targetsAscend : a.branchTargets.Pairwise (· < ·)
  /-- from the entry of the method on. -/
  targetsFirst : a.branchTargets.head? = some 0
  targetCount : a.branchTargets.length = a.stats.branchTargets
  /-- They are the marked entries of the listing. -/
  targets : a.branchTargets = (a.instructions.filter (·.branchTarget)).map (·.offset)
  gcPoints : a.stats.gcPoints = a.instructions.countP (·.gcPoint)
  /-- The units in try blocks are those of the marked entries. -/
  inTryUnits : a.stats.inTryUnits = ((a.instructions.filter (·.inTry)).map (·.width)).sum

/-- Statistics, listing and branch targets of an accepted method agree, whatever the settings. -/
theorem consistentViews_of_preAnalyze {config : Config} {m : Method} {a : Analysis}
    (h : (preAnalyze config m).result = .ok a) : a.method = m ∧ ConsistentViews a := by
  obtain ⟨rfl, hrec, -⟩ := table_of_preAnalyze h
  have hwf := wellFormed_of_preAnalyze h
  obtain ⟨rest, hstarts⟩ := exists_startsFrom_eq_cons hwf.tiled
  have hoffsets : a.instructions.map (·.offset) = startsFrom a.method.code 0 := by
    rw [Analysis.instructions_eq hrec, List.map_map]
    exact List.map_id _
  have hwidths : a.instructions.map (·.width)
      = (startsFrom a.method.code 0).map (stepWidth a.method.code) := by
    rw [Analysis.instructions_eq hrec, List.map_map]
    exact List.map_congr_left fun o ho => Analysis.width_entry hrec ho
  have htargets := Analysis.branchTargets_eq_listed h
  refine ⟨rfl, ?_⟩
  constructor
  · rw [hoffsets, hstarts]
    rfl
  · rw [Analysis.instructions_eq hrec, List.isChain_map]
    refine (isChain_startsFrom a.method.code 0).imp_of_mem_imp fun o o' ho _ hnext => ?_
    rw [Analysis.width_entry hrec ho]
    exact hnext
  · have hsum := sum_stepWidth a.method.code 0
    rwa [((tiled_iff _).mp hwf.tiled).2, Nat.zero_add, ← hwidths] at hsum
  · rw [Analysis.instructions, List.length_map,
      List.length_eq_countP_add_countP fun e : ℕ × FlagWord × UInt16 => !isPayloadUnit e.2.2]
    simp only [Bool.not_eq_true', Bool.not_eq_false, Bool.decide_eq_true]
    rfl
  · rw [Analysis.countP_instructions]
    rfl
  · exact Analysis.sum_distribution a
  · exact Analysis.pairwise_distribution a
  · intro op
    exact (Analysis.lookup_distribution a op).trans (Analysis.opcodeCount_eq_countP a op)
  · exact (Analysis.lookup_distribution a _).trans (Analysis.opcodeCount_newInstance h)
  · rw [htargets]
    have hall := startsFrom_pairwise a.method.code 0
    rw [← hoffsets] at hall
    exact hall.sublist (List.filter_sublist.map _)
  · rw [htargets, Analysis.instructions_eq hrec, hstarts, List.map_cons, List.filter_cons_of_pos]
    · rfl
    · have hlt := lt_size_of_mem_startsFrom (hstarts ▸ List.mem_cons_self)
      exact ((targets_of_preAnalyze h).1 0 hlt).mpr (.inl rfl)
  · rw [htargets, List.length_map, ← List.countP_eq_length_filter, Analysis.countP_instructions]
    rfl
  · exact htargets
  · rw [Analysis.countP_instructions]
    rfl
  · exact Analysis.inTryUnits_eq_listed h

/-- The loop with an allocation in a try block, a switch and its table. -/
theorem consistentViews_of_switchLoop :
    let a : Analysis := ⟨switchLoop, ⟨#[⟨0x70002#32⟩, ⟨0x10000#32⟩, ⟨0x40003#32⟩, ⟨0#32⟩, ⟨0#32⟩,
      ⟨0x60001#32⟩, ⟨6#32⟩, ⟨0#32⟩, ⟨0#32⟩, ⟨0#32⟩, ⟨0#32⟩, ⟨0#32⟩]⟩, 1⟩
    (preAnalyze {} switchLoop).result = .ok a ∧ a.method = switchLoop ∧ ConsistentViews a := by
  intro a
  have haccepted : (preAnalyze {} switchLoop).result = .ok a := by decide +kernel
  exact ⟨haccepted, consistentViews_of_preAnalyze haccepted⟩

end Dalvik
