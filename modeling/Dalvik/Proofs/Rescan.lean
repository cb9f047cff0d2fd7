import Mathlib
import Dalvik.Proofs.ExceptionTable
import Dalvik.Proofs.Faults
import Dalvik.Proofs.PassOrder

/-!
# Scans of used tables

A table may come to the scan with any words in it, and the scan may stop half way. Either way the
words are determined by the code and by the bits that the scan keeps: bits 18 to 31 stay as they
were, bits 16 and 17 are cleared, and the width fields tile the code up to the unit where the
sequential decode stops (`StopsAt`, `TilesTo`). So nothing that earlier passes have written below
bit 18 has an influence, and a second scan gives what the first one gave: `cleanScan_widths`.
-/

namespace Dalvik

open Layout Check

/-! ## Where the decode stops -/

namespace Layout

/-- The sequential decode of the code gets to `f` and no further: whole instructions fill the units
below `f`, and the unit at `f` cannot be decoded, unless the code ends there. -/
def StopsAt (code : Code) (f : ℕ) : Prop :=
  Reaches code f ∧ (f = code.size ∨ ∃ k, Undecodable code f k)

variable {code : Code} {f o : ℕ}

/-- There is nothing to decode at the end of the code. -/
theorem stopFrom_size (code : Code) : stopFrom code code.size = code.size := by
  cases hdec : Instruction.decode code code.size with
  | error cause => exact stopFrom_error hdec
  | ok ins => exact absurd (decode_lt_size hdec) (lt_irrefl _)

/-- No instruction is decoded where the decode stops. -/
theorem exists_decode_stopFrom (code : Code) (off : ℕ) :
    ∃ cause, Instruction.decode code (stopFrom code off) = .error cause := by
  induction off using decode_induction code with
  | stop off cause hdec => exact ⟨cause, by rw [stopFrom_error hdec, hdec]⟩
  | step off ins hdec ih => rwa [stopFrom_ok hdec]

/-- The decode stops at the offset that `stopFrom` gives. -/
theorem stopsAt_iff (code : Code) (f : ℕ) : StopsAt code f ↔ stopFrom code 0 = f := by
  constructor
  · intro hstops
    rcases hstops with ⟨⟨front, hpre, hall, hlen⟩, rfl | ⟨k, hno⟩⟩
    · have hstop := @stopFrom_eq_stopFrom_add code 0 front (by rwa [List.drop_zero]) hall
      rw [hstop, Nat.zero_add, hlen, stopFrom_size]
    · obtain ⟨cause, hdec, -⟩ := hno.decode
      exact (reaches_iff hdec).mp ⟨front, hpre, hall, hlen⟩
  · rintro rfl
    obtain ⟨cause, hdec⟩ := exists_decode_stopFrom code 0
    refine ⟨(reaches_iff hdec).mpr rfl, ?_⟩
    rcases Nat.lt_or_eq_of_le (stopFrom_le_size code) with hlt | hend
    · exact .inr ⟨_, undecodable_of_decode hlt hdec⟩
    · exact .inl hend

/-- Every code has one offset where its decode stops. -/
theorem existsUnique_stopsAt (code : Code) : ∃! f, StopsAt code f :=
  ⟨stopFrom code 0, (stopsAt_iff code _).mpr rfl, fun f hf => ((stopsAt_iff code f).mp hf).symm⟩

theorem le_stopFrom (code : Code) (off : ℕ) : off ≤ stopFrom code off := by
  obtain ⟨front, -, -, hlen⟩ := exists_front_stopFrom code off
  omega

/-- The decode goes on behind every instruction that it finds. -/
theorem add_width_le_stopFrom {off : ℕ} {ins : Instruction} (ho : o ∈ startsFrom code off)
    (hins : Instruction.decode code o = .ok ins) : o + ins.width ≤ stopFrom code off := by
  induction off using decode_induction code with
  | stop off cause hdec =>
    rw [startsFrom_error hdec] at ho
    cases ho
  | step off first hdec ih =>
    rw [stopFrom_ok hdec]
    rw [startsFrom_ok hdec, List.mem_cons] at ho
    rcases ho with rfl | ho
    · rw [hdec] at hins
      cases hins
      exact le_stopFrom code _
    · exact ih ho

end Layout

/-! ## The words after a scan -/

/-- The recorded widths tile the units below `f`: each of these units belongs to one recorded
instruction, and no instruction goes beyond. -/
structure TilesTo (t : FlagTable) (f : ℕ) : Prop where
  inside : ∀ o, 0 < (t.wordAt o).width → o + (t.wordAt o).width ≤ f
  covered : ∀ u < f, ∃! o, o ≤ u ∧ u < o + (t.wordAt o).width

/-- The word that a scan leaves at `o` in the place of another one. -/
structure ScannedWord (code : Code) (o : ℕ) (old new : BitVec 32) : Prop where
  /-- Bits 0 to 15 are the width of the instruction that starts here. -/
  width : ∀ p, InstructionAt code o p → new.toNat % 65536 = p.length
  /-- They are zero if no instruction does. -/
  noWidth : ¬ IsStart code o → new.toNat % 65536 = 0
  /-- Bits 16 and 17 are cleared. -/
  cleared : new.getLsbD 16 = false ∧ new.getLsbD 17 = false
  /-- The other bits belong to other passes. -/
  kept : ∀ i, 18 ≤ i → new.getLsbD i = old.getLsbD i

/-- A table with the widths of the code is tiled up to where the decode stops. -/
theorem tilesTo_stopFrom {code : Code} {t : FlagTable} (hrec : Recorded code t) :
    TilesTo t (stopFrom code 0) := by
  constructor
  · intro o hpos
    rw [hrec.width_eq] at hpos ⊢
    have ho := (startWidth_pos_iff code o).mp hpos
    obtain ⟨ins, hins⟩ := decode_of_mem_startsFrom ho
    rw [startWidth_eq ho hins]
    exact add_width_le_stopFrom ho hins
  · intro u hu
    obtain ⟨s, hs, ins, hins, hle, hlt⟩ := exists_start_of_lt (Nat.zero_le u) hu
    have hwidth : (t.wordAt s).width = ins.width := by
      rw [hrec.width_eq, startWidth_eq hs hins]
    refine ⟨s, ⟨hle, by rwa [hwidth]⟩, ?_⟩
    -- two instructions that share a unit start at the same place
    rintro s' ⟨hle', hlt'⟩
    rw [hrec.width_eq] at hlt'
    have hs' := (startWidth_pos_iff code s').mp (by omega)
    rcases Nat.lt_trichotomy s s' with hbefore | heq | hafter
    · have := add_width_le_of_mem_startsFrom hs hs' hbefore hins
      omega
    · exact heq.symm
    · have := add_startWidth_le_of_lt hs' hs hafter
      omega

section

variable {m : Method} {t t' : FlagTable}

/-- A scan writes the width of each word, clears its try flag and branch target and keeps the
rest. -/
theorem scannedWord_widths (hne : m.code.size ≠ 0) (hsize : t.size = m.code.size) (o : ℕ) :
    ScannedWord m.code o (t.wordAt o).bits ((Check.widths m t).2.wordAt o).bits := by
  have hwidth := (recorded_widths hne hsize).width_eq o
  rw [FlagWord.width_eq_mod] at hwidth
  have hbit : ∀ i, 16 ≤ i → ((Check.widths m t).2.wordAt o).bits.getLsbD i
      = if i < 18 then false else (t.wordAt o).bits.getLsbD i := by
    intro i hi
    rw [wordAt_widths hne hsize, FlagWord.getLsbD_setWidth, if_neg (by omega),
      FlagWord.getLsbD_reset]
  constructor
  · intro p hp
    rw [hwidth, startWidth_of_instructionAt hp]
  · intro hno
    rw [hwidth, startWidth, if_neg (mt (isStart_iff m.code o).mpr hno)]
  · exact ⟨hbit 16 (le_refl _), hbit 17 (by omega)⟩
  · intro i hi
    rw [hbit i (by omega), if_neg (by omega)]

/-! ## Bits without an influence -/

/-- The tables have the same size and agree in the bits that a scan keeps. -/
structure AgreeAboveScan (t t' : FlagTable) : Prop where
  size_eq : t.size = t'.size
  bit_eq : ∀ o i, 18 ≤ i → (t.wordAt o).bits.getLsbD i = (t'.wordAt o).bits.getLsbD i

/-- Tables that agree above the bits of a scan are the same after a reset. -/
theorem AgreeAboveScan.reset_eq (h : AgreeAboveScan t t') : t.reset = t'.reset := by
  apply FlagTable.ext_wordAt
  · rw [FlagTable.size_reset, FlagTable.size_reset, h.size_eq]
  · intro o
    apply FlagWord.ext_bits
    intro i
    rw [FlagTable.wordAt_reset, FlagTable.wordAt_reset, FlagWord.getLsbD_reset,
      FlagWord.getLsbD_reset]
    split
    · rfl
    · exact h.bit_eq o i (by omega)

/-- A scan begins with a reset, and does not see what the reset clears. -/
theorem AgreeAboveScan.widths_eq (h : AgreeAboveScan t t') (hne : m.code.size ≠ 0)
    (hsize : t.size = m.code.size) : Check.widths m t = Check.widths m t' := by
  rw [Layout.widths_eq hne hsize, Layout.widths_eq hne (h.size_eq ▸ hsize), h.reset_eq]

theorem agreeAboveScan_widths (hne : m.code.size ≠ 0) (hsize : t.size = m.code.size) :
    AgreeAboveScan (Check.widths m t).2 t where
  size_eq := (recorded_widths hne hsize).size_eq.trans hsize.symm
  bit_eq o i hi := (scannedWord_widths hne hsize o).kept i hi

/-- A sequence of passes reads the table through its first pass only. -/
theorem Pass.run_bind_congr {α β : Type} {p : Pass α} (h : p.run t = p.run t') (f : α → Pass β) :
    (p >>= f).run t = (p >>= f).run t' := by
  change Pass.bind p f t = Pass.bind p f t'
  change p t = p t' at h
  rw [Pass.bind, Pass.bind, h]

/-- What a scan answers, writes and logs depends on its check alone. -/
theorem Pass.run_widths_congr (h : Check.widths m t = Check.widths m t') :
    (Pass.widths m).run t = (Pass.widths m).run t' := by
  have hcheck : (ofCheck m (Check.widths m)).run t = (ofCheck m (Check.widths m)).run t' := by
    simp only [Pass.run, ofCheck, h]
  exact Pass.run_bind_congr hcheck _

theorem Pass.result_widths (m : Method) (t : FlagTable) :
    ((Pass.widths m).run t).result = (Check.widths m t).1 :=
  congrArg Prod.fst (Pass.effect_widths m t)

theorem Pass.table_widths (m : Method) (t : FlagTable) :
    ((Pass.widths m).run t).table = (Check.widths m t).2 :=
  congrArg Prod.snd (Pass.effect_widths m t)

end

/-! ## All tables -/

/-- What a scan of the code of `m` makes of the table `t`, if the decode stops at `f`. -/
structure ScannedTo (m : Method) (t : FlagTable) (f : ℕ) (scan : Outcome ℕ) : Prop where
  size_eq : scan.table.size = t.size
  /-- Each word is written as the code says, also when the scan fails. -/
  words : ∀ o < t.size, ScannedWord m.code o (t.wordAt o).bits (scan.table.wordAt o).bits
  /-- The widths tile what could be decoded. -/
  tiles : TilesTo scan.table f
  /-- The scan succeeds if everything could be decoded, with the number of allocations. -/
  ok_iff : ∀ n, scan.result = .ok n ↔ f = m.code.size ∧
    n = Set.ncard {o | IsStart m.code o ∧ opcodeAt m.code o = 0x22}
  /-- Else it fails where the decode stops, for the reason that the unit there gives. -/
  stuck : f ≠ m.code.size → ∃ k, Undecodable m.code f k ∧ FailsWith scan.result k (some (f : ℤ))

/-- What a scan of the code of `m` makes of the table `t`. -/
structure CleanScan (m : Method) (t : FlagTable) (scan : Outcome ℕ) : Prop where
  /-- Without units, or with a table of another size, nothing is written. -/
  refused : m.code.size = 0 ∨ t.size ≠ m.code.size → scan.table = t ∧
    FailsWith scan.result (if m.code.size = 0 then .emptyCode else .flagsSize) none
  /-- There is one offset at which the decode stops. -/
  stops : ∃! f, StopsAt m.code f
  /-- Up to there the table holds the code. -/
  scanned : m.code.size ≠ 0 → t.size = m.code.size →
    ∀ f, StopsAt m.code f → ScannedTo m t f scan
  /-- The bits that earlier passes have written have no influence. -/
  independent : m.code.size ≠ 0 → t.size = m.code.size →
    ∀ t', AgreeAboveScan t t' → (Pass.widths m).run t' = scan
  /-- A second scan gives the same. -/
  again : (Pass.widths m).run scan.table = scan

section

variable {m : Method} {t : FlagTable}

theorem failsWith_widths_refused (h : m.code.size = 0 ∨ t.size ≠ m.code.size) :
    FailsWith (Check.widths m t).1 (if m.code.size = 0 then .emptyCode else .flagsSize) none := by
  rw [Check.widths]
  by_cases hempty : m.code.size = 0
  · rw [if_pos (Array.isEmpty_iff_size_eq_zero.mpr hempty), if_pos hempty]
    exact failsWith_refused_iff.mpr ⟨rfl, rfl⟩
  · have hcovers : ¬ t.covers m.code = true := by
      rw [FlagTable.covers, beq_iff_eq]
      exact h.resolve_left hempty
    rw [if_neg (mt Array.isEmpty_iff_size_eq_zero.mp hempty), if_neg hcovers, if_neg hempty]
    exact failsWith_refused_iff.mpr ⟨rfl, rfl⟩

/-- The result of a scan, on a table of the right size. -/
theorem widths_result (hne : m.code.size ≠ 0) (hsize : t.size = m.code.size) :
    (stopFrom m.code 0 = m.code.size ∧ (Check.widths m t).1
      = .ok (Set.ncard {o | IsStart m.code o ∧ opcodeAt m.code o = 0x22})) ∨
    (stopFrom m.code 0 ≠ m.code.size ∧ ∃ k, Undecodable m.code (stopFrom m.code 0) k ∧
      FailsWith (Check.widths m t).1 k (some (stopFrom m.code 0 : ℤ))) := by
  have hreset : t.reset.size = m.code.size := by rwa [FlagTable.size_reset]
  rw [Layout.widths_eq hne hsize]
  by_cases hstop : stopFrom m.code 0 = m.code.size
  · left
    rw [@scanFrom_ok m.code 0 0 _ hreset (Nat.zero_le _) hstop, Nat.zero_add,
      allocations_eq_ncard]
    exact ⟨hstop, rfl⟩
  · right
    obtain ⟨cause, hdec, herror⟩ := @scanFrom_error m.code 0 0 _ hreset (Nat.zero_le _) hstop
    have hlt := Nat.lt_of_le_of_ne (stopFrom_le_size m.code) hstop
    rw [herror]
    exact ⟨hstop, cause.kind, undecodable_of_decode hlt hdec,
      failsWith_refused_iff.mpr ⟨rfl, rfl⟩⟩

/-- What a scan does to any table of the right size. -/
theorem scannedTo_widths (hne : m.code.size ≠ 0) (hsize : t.size = m.code.size) {f : ℕ}
    (hf : StopsAt m.code f) : ScannedTo m t f ((Pass.widths m).run t) := by
  obtain rfl := (stopsAt_iff m.code f).mp hf
  have hrec := recorded_widths hne hsize
  constructor
  · rw [Pass.table_widths, hrec.size_eq, hsize]
  · intro o _
    rw [Pass.table_widths]
    exact scannedWord_widths hne hsize o
  · rw [Pass.table_widths]
    exact tilesTo_stopFrom hrec
  · intro n
    rw [Pass.result_widths]
    rcases widths_result hne hsize with ⟨hstop, hok⟩ | ⟨hstop, k, -, hfails⟩
    · rw [hok, Except.ok.injEq]
      exact ⟨fun hn => ⟨hstop, hn.symm⟩, fun hn => hn.2.symm⟩
    · refine ⟨fun hok => ?_, fun hend => absurd hend.1 hstop⟩
      rw [hok] at hfails
      exact absurd hfails (not_failsWith_ok n)
  · intro hstop
    rw [Pass.result_widths]
    rcases widths_result hne hsize with ⟨hend, -⟩ | ⟨-, hfails⟩
    · exact absurd hend hstop
    · exact hfails

end

/-- A scan leaves a table that the code and the bits of other passes determine, whatever the table
was before and whether or not the scan succeeds. -/
theorem cleanScan_widths (m : Method) (t : FlagTable) : CleanScan m t ((Pass.widths m).run t) := by
  have hrefused : m.code.size = 0 ∨ t.size ≠ m.code.size →
      ((Pass.widths m).run t).table = t := by
    intro h
    obtain ⟨cause, hwidths⟩ := widths_refused h
    rw [Pass.table_widths, hwidths]
  constructor
  · intro h
    refine ⟨hrefused h, ?_⟩
    rw [Pass.result_widths]
    exact failsWith_widths_refused h
  · exact existsUnique_stopsAt m.code
  · exact fun hne hsize f hf => scannedTo_widths hne hsize hf
  · exact fun hne hsize t' hagree =>
      (Pass.run_widths_congr (hagree.widths_eq hne hsize)).symm
  -- what a scan keeps is all that a second scan sees of the table
  · by_cases h : m.code.size = 0 ∨ t.size ≠ m.code.size
    · rw [hrefused h]
    · push Not at h
      rw [Pass.table_widths]
      have hagree := agreeAboveScan_widths h.1 h.2
      exact Pass.run_widths_congr (hagree.widths_eq h.1 (hagree.size_eq.trans h.2))

end Dalvik
