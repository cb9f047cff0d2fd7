import Mathlib
import Dalvik.Proofs.Passes

/-!
# What every flag table satisfies

The single passes can be run in any order, with any offsets, and can fail half way. Still, every
table that a series of them builds from a blank one is sound (`SoundTable`): its instructions lie
inside the table and do not overlap, only opcodes are branch targets, a try block has an
instruction as a whole or not at all, and no other bit is set. The invariant that carries this
(`Built`) keeps the origin of the widths: there are none, or they are those of the code.
-/

namespace Dalvik

open Layout Check

/-! ## Targets of branches and switches -/

/-- A branch check that passes has found an opcode, whatever the table. -/
theorem isOpcode_of_branchTarget {m : Method} {t : FlagTable} {off : Int} {selfOkay : Bool}
    {target : ℕ} (h : branchTarget m t off selfOkay = .ok target) : t.isOpcode target = true := by
  obtain ⟨b, hb, h⟩ := bind_eq_ok.mp h
  obtain ⟨⟨⟩, hcovered, -⟩ := bind_eq_ok.mp hb
  have hsize := (covered_eq_ok_iff m t).mp hcovered
  exact ((landing_eq_ok_iff hsize _ _ _ _ _).mp (guard_eq_ok_iff.mp h).2).isOpcode

/-- A switch check that passes was one of a whole switch at an opcode. -/
theorem whole_of_switchTargets {m : Method} {t : FlagTable} {off : Int} {targets : List ℕ}
    (h : switchTargets m t off = .ok targets) :
    t.size = m.code.size ∧ ∃ (o : ℕ) (shape : SwitchShape), off = o ∧ t.isOpcode o = true ∧
      switchShape? (Opcode.ofUnit (rawAt m.code o)) = some shape ∧ o + 3 ≤ m.code.size := by
  obtain ⟨⟨⟩, hcovered, h⟩ := bind_eq_ok.mp h
  have hsize := (covered_eq_ok_iff m t).mp hcovered
  obtain ⟨⟨⟩, hop, h⟩ := bind_eq_ok.mp h
  have hop := (instructionAt_eq_ok_iff t _ off).mp hop
  obtain ⟨o, rfl, hlt, -⟩ := exists_of_isOpcode hop
  rw [Int.toNat_natCast, unit_eq (by omega), ok_bind] at h
  simp only at h
  split at h
  · cases h
  · rename_i shape hshape
    obtain ⟨r, hr, h⟩ := bind_eq_ok.mp h
    refine ⟨hsize, o, shape, rfl, hop, hshape, ?_⟩
    -- a switch that is cut short refers to nothing, and is refused
    by_contra hcut
    rw [tableRef, if_pos (by omega)] at hr
    cases hr
    cases h

/-- A switch check that passes has found opcodes, whatever the table. -/
theorem isOpcode_of_switchTargets {m : Method} {t : FlagTable} {off : Int} {targets : List ℕ}
    (h : switchTargets m t off = .ok targets) : ∀ a ∈ targets, t.isOpcode a = true := by
  obtain ⟨hsize, o, shape, rfl, hop, hshape, hwhole⟩ := whole_of_switchTargets h
  intro a ha
  obtain ⟨rel, -, hlands⟩ := (mem_switchTargets_iff hsize hop hshape hwhole h a).mp ha
  exact hlands.isOpcode

/-! ## The table after one step -/

/-- The addresses are marked, or the table is left alone. -/
theorem markAll_table (t : FlagTable) (k : Mark) (addrs : List ℕ) :
    (markAll t k addrs).2 = t.markEach k addrs ∨ (markAll t k addrs).2 = t := by
  rw [markAll]
  split
  · exact .inl rfl
  · exact .inr rfl

/-- The check of a branch marks opcodes, if anything. -/
theorem branch_table (m : Method) (off : Int) (selfOkay : Bool) (t : FlagTable) :
    ∃ targets : List ℕ, (∀ a ∈ targets, t.isOpcode a = true) ∧
      (Check.branch m off selfOkay t).2 = t.markEach .branchTarget targets := by
  rw [Check.branch]
  cases htarget : branchTarget m t off selfOkay with
  | error h => exact ⟨[], by simp, rfl⟩
  | ok target =>
    -- the target is marked unless it lies outside the table
    rcases markAll_table t .branchTarget [target] with htable | htable
    · exact ⟨[target], by simpa using isOpcode_of_branchTarget htarget, htable⟩
    · exact ⟨[], by simp, htable⟩

/-- The check of a switch marks opcodes, if anything. -/
theorem switch_table (m : Method) (off : Int) (t : FlagTable) :
    ∃ targets : List ℕ, (∀ a ∈ targets, t.isOpcode a = true) ∧
      (Check.switch m off t).2 = t.markEach .branchTarget targets := by
  rw [Check.switch]
  cases htargets : switchTargets m t off with
  | error h => exact ⟨[], by simp, rfl⟩
  | ok targets =>
    rcases markAll_table t .branchTarget targets with htable | htable
    · exact ⟨targets, isOpcode_of_switchTargets htargets, htable⟩
    · exact ⟨[], by simp, htable⟩

namespace Step

/-- The table after a step, whether or not it succeeds. -/
def after (m : Method) (s : Step) (t : FlagTable) : FlagTable := ((s.pass m).run t).table

/-- What a step can do to the table. -/
theorem after_cases (m : Method) (s : Step) (t : FlagTable) :
    s.after m t = (Check.widths m t).2 ∨
      (∃ blocks, (∀ b ∈ blocks, GoodTry t b) ∧ s.after m t = t.markBlocks blocks) ∨
      ∃ targets : List ℕ, (∀ a ∈ targets, t.isOpcode a = true) ∧
        s.after m t = t.markEach .branchTarget targets := by
  cases s with
  | widths =>
    left
    rw [after, pass, Pass.table_bind_pure, Pass.effect_widths]
  | tries =>
    right; left
    obtain ⟨front, hgood, htable⟩ := tries_table m t
    exact ⟨front, hgood, by rw [after, pass, Pass.table_bind_pure, Pass.effect_tries, htable]⟩
  | branch off selfOkay =>
    right; right
    obtain ⟨targets, hop, htable⟩ := branch_table m off selfOkay t
    refine ⟨targets, hop, ?_⟩
    rw [after, pass, Pass.table_bind_pure, Pass.branch, Pass.effect_ofCheck, htable]
  | switch off =>
    right; right
    obtain ⟨targets, hop, htable⟩ := switch_table m off t
    refine ⟨targets, hop, ?_⟩
    rw [after, pass, Pass.table_bind_pure, Pass.switch, Pass.effect_ofCheck, htable]
  | arrayData off =>
    right; right
    exact ⟨[], by simp, by rw [after, pass, Pass.table_bind_pure, Pass.arrayData, Pass.effect_ofCheck]; rfl⟩
  | encodedTarget off =>
    right; right
    exact ⟨[], by simp, by rw [after, pass, Pass.table_bind_pure, Pass.encodedTarget, Pass.effect_ofQuery]; rfl⟩

/-- A step keeps the size of the table. -/
theorem size_after (m : Method) (s : Step) (t : FlagTable) : (s.after m t).size = t.size := by
  obtain hscan | ⟨blocks, -, htable⟩ | ⟨targets, -, htable⟩ := s.after_cases m t
  · rw [hscan]
    by_cases hrefused : m.code.size = 0 ∨ t.size ≠ m.code.size
    · obtain ⟨cause, hwidths⟩ := widths_refused hrefused
      rw [hwidths]
    · push Not at hrefused
      rw [(recorded_widths hrefused.1 hrefused.2).size_eq, hrefused.2]
  · rw [htable, ← (FlagTable.SameWidths.markBlocks t blocks).size_eq]
  · rw [htable, FlagTable.size_markEach]

end Step

/-! ## The invariant -/

/-- What every table that can be built satisfies. -/
structure SoundTable (t : FlagTable) : Prop where
  /-- An instruction lies inside the table, and no other one starts inside it. -/
  apart : ∀ o, 0 < (t.wordAt o).width → o + (t.wordAt o).width ≤ t.size ∧
    ∀ k, o < k → k < o + (t.wordAt o).width → (t.wordAt k).width = 0
  /-- A branch target is an opcode. -/
  targets : ∀ o, (t.wordAt o).has .branchTarget = true → 0 < (t.wordAt o).width
  /-- All units of an instruction agree on whether they belong to a try block. -/
  tries : ∀ o k, o ≤ k → k < o + (t.wordAt o).width →
    (t.wordAt k).has .inTry = (t.wordAt o).has .inTry
  /-- There are no other marks. -/
  noMore : ∀ o i, 18 ≤ i → (t.wordAt o).bits.getLsbD i = false

/-- The invariant of the passes over `m`. In place of the distances between instructions it has
the reason for them: the widths are those of the code, or there are none. -/
structure Built (m : Method) (t : FlagTable) : Prop where
  origin : (∀ i, (t.wordAt i).width = 0) ∨ Recorded m.code t
  targets : ∀ o, (t.wordAt o).has .branchTarget = true → 0 < (t.wordAt o).width
  tries : ∀ o k, o ≤ k → k < o + (t.wordAt o).width →
    (t.wordAt k).has .inTry = (t.wordAt o).has .inTry
  noMore : ∀ o i, 18 ≤ i → (t.wordAt o).bits.getLsbD i = false

namespace Built

variable {m : Method} {t : FlagTable}

/-- An instruction of a built table lies inside it, and no other one begins inside the
instruction. -/
theorem apart (h : Built m t) (o : ℕ) (hpos : 0 < (t.wordAt o).width) :
    o + (t.wordAt o).width ≤ t.size ∧
      ∀ k, o < k → k < o + (t.wordAt o).width → (t.wordAt k).width = 0 := by
  rcases h.origin with hzero | hrec
  · rw [hzero] at hpos
    omega
  · rw [hrec.width_eq] at hpos ⊢
    have ho := (startWidth_pos_iff m.code o).mp hpos
    refine ⟨?_, fun k hlt hk => ?_⟩
    · rw [hrec.size_eq]
      exact add_startWidth_le ho
    -- two starts are a width apart
    · by_contra hne
      rw [hrec.width_eq] at hne
      have hk' := (startWidth_pos_iff m.code k).mp (Nat.pos_of_ne_zero hne)
      have := add_startWidth_le_of_lt ho hk' hlt
      omega

/-- Every built table is sound. -/
theorem sound (h : Built m t) : SoundTable t :=
  ⟨h.apart, h.targets, h.tries, h.noMore⟩

/-- A blank table is built. -/
theorem blank (m : Method) (n : ℕ) : Built m (.blank n) := by
  constructor
  · left
    intro i
    rw [FlagTable.wordAt_blank, FlagWord.width_zero]
  · intro o h
    rw [FlagTable.wordAt_blank, FlagWord.has_zero] at h
    cases h
  · intro o k _ _
    rw [FlagTable.wordAt_blank, FlagTable.wordAt_blank]
  · intro o i _
    rw [FlagTable.wordAt_blank, FlagWord.getLsbD_zero]

theorem origin_of_sameWidths {t' : FlagTable} (h : Built m t) (hw : t.SameWidths t') :
    (∀ i, (t'.wordAt i).width = 0) ∨ Recorded m.code t' := by
  rcases h.origin with hzero | hrec
  · left
    intro i
    rw [← hw.width_eq, hzero]
  · exact .inr (hrec.of_sameWidths hw)

/-! ### Scans -/

/-- A scan starts the bits that it and the other passes write from zero. -/
theorem widths (h : Built m t) : Built m (Check.widths m t).2 := by
  by_cases hrefused : m.code.size = 0 ∨ t.size ≠ m.code.size
  · obtain ⟨cause, hscan⟩ := widths_refused hrefused
    rwa [hscan]
  · push Not at hrefused
    obtain ⟨hne, hsize⟩ := hrefused
    -- the scan resets bits 16 and 17, and from 18 on the invariant has none
    have hbit : ∀ o i, 16 ≤ i → ((Check.widths m t).2.wordAt o).bits.getLsbD i = false := by
      intro o i hi
      rw [wordAt_widths hne hsize, FlagWord.getLsbD_setWidth, if_neg (by omega),
        FlagWord.getLsbD_reset]
      split
      · rfl
      · exact h.noMore o i (by omega)
    have hmark : ∀ o (k : Mark), ((Check.widths m t).2.wordAt o).has k = false := by
      intro o k
      rw [FlagWord.has_eq_getLsbD]
      exact hbit o k.bit k.sixteen_le_bit
    constructor
    · exact .inr (recorded_widths hne hsize)
    · intro o htarget
      rw [hmark] at htarget
      cases htarget
    · intro o k _ _
      rw [hmark, hmark]
    · exact fun o i hi => hbit o i (by omega)

/-! ### Try blocks -/

/-- A good block has an instruction as a whole or not at all. -/
theorem contains_iff (h : Built m t) {b : TryBlock} (hb : GoodTry t b) {o k : ℕ} (hle : o ≤ k)
    (hk : k < o + (t.wordAt o).width) : b.Contains k ↔ b.Contains o := by
  obtain ⟨hinside, hapart⟩ := h.apart o (by omega)
  have hstart := (FlagTable.isOpcode_iff t _).mp hb.start
  -- neither end of the block is strictly inside the instruction
  have hstart' : b.start.toNat ≤ o ∨ o + (t.wordAt o).width ≤ b.start.toNat := by
    by_contra hno
    have := hapart b.start.toNat (by omega) (by omega)
    omega
  have hstop' : b.stop ≤ o ∨ o + (t.wordAt o).width ≤ b.stop := by
    by_contra hno
    rcases hb.stop with hop | hend
    · have hpos := (FlagTable.isOpcode_iff t _).mp hop
      have := hapart b.stop (by omega) (by omega)
      omega
    · omega
  unfold TryBlock.Contains
  omega

/-- Marking good try blocks keeps a table built. -/
theorem markBlocks (h : Built m t) {blocks : List TryBlock} (hgood : ∀ b ∈ blocks, GoodTry t b) :
    Built m (t.markBlocks blocks) := by
  have hw := FlagTable.SameWidths.markBlocks t blocks
  constructor
  · exact h.origin_of_sameWidths hw
  · intro o htarget
    rw [FlagWord.has_eq_getLsbD, FlagTable.getLsbD_markBlocks] at htarget
    rw [← hw.width_eq]
    apply h.targets
    rw [FlagWord.has_eq_getLsbD]
    exact htarget.resolve_left fun hno => absurd hno.1 (by decide)
  · intro o k hle hk
    rw [← hw.width_eq] at hk
    obtain ⟨hinside, -⟩ := h.apart o (by omega)
    -- the units of an instruction are in the same blocks
    have hblocks : (∃ b ∈ blocks, b.Contains k) ↔ ∃ b ∈ blocks, b.Contains o := by
      constructor
      · intro hblock
        rcases hblock with ⟨b, hb, hcontains⟩
        exact ⟨b, hb, (h.contains_iff (hgood b hb) hle hk).mp hcontains⟩
      · intro hblock
        rcases hblock with ⟨b, hb, hcontains⟩
        exact ⟨b, hb, (h.contains_iff (hgood b hb) hle hk).mpr hcontains⟩
    have hsame := h.tries o k hle hk
    rw [FlagWord.has_eq_getLsbD, FlagWord.has_eq_getLsbD] at hsame
    rw [FlagWord.has_eq_getLsbD, FlagWord.has_eq_getLsbD, Bool.eq_iff_iff,
      FlagTable.getLsbD_markBlocks, FlagTable.getLsbD_markBlocks, hblocks, hsame]
    simp only [show k < t.size by omega, show o < t.size by omega]
  · intro o i hi
    rw [Bool.eq_false_iff, Ne, FlagTable.getLsbD_markBlocks, h.noMore o i hi]
    simp only [Bool.false_eq_true, or_false]
    omega

/-! ### Branch targets -/

/-- Marking opcodes as branch targets keeps a table built. -/
theorem markTargets (h : Built m t) {targets : List ℕ}
    (hop : ∀ a ∈ targets, t.isOpcode a = true) : Built m (t.markEach .branchTarget targets) := by
  have hw := FlagTable.SameWidths.markEach t .branchTarget targets
  constructor
  · exact h.origin_of_sameWidths hw
  · intro o htarget
    rw [FlagWord.has_eq_getLsbD, FlagTable.getLsbD_markEach] at htarget
    rw [← hw.width_eq]
    rcases htarget with ⟨-, hmem, -⟩ | htarget
    · exact (FlagTable.isOpcode_iff t o).mp (hop o hmem)
    · apply h.targets
      rwa [FlagWord.has_eq_getLsbD]
  · intro o k hle hk
    rw [← hw.width_eq] at hk
    have hsame := h.tries o k hle hk
    rw [FlagWord.has_eq_getLsbD, FlagWord.has_eq_getLsbD] at hsame
    rw [FlagWord.has_eq_getLsbD, FlagWord.has_eq_getLsbD, Bool.eq_iff_iff,
      FlagTable.getLsbD_markEach, FlagTable.getLsbD_markEach, hsame]
    simp only [show Mark.inTry.bit ≠ Mark.branchTarget.bit by decide, false_and, false_or]
  · intro o i hi
    rw [Bool.eq_false_iff, Ne, FlagTable.getLsbD_markEach, h.noMore o i hi]
    simp only [Bool.false_eq_true, or_false]
    intro hmarked
    rcases hmarked with ⟨rfl, -⟩
    exact absurd hi (by decide)

/-! ### Steps in any order -/

/-- A step preserves the invariant. -/
theorem step (h : Built m t) (s : Step) : Built m (s.after m t) := by
  obtain hscan | ⟨blocks, hgood, htable⟩ | ⟨targets, hop, htable⟩ := s.after_cases m t
  · rw [hscan]
    exact h.widths
  · rw [htable]
    exact h.markBlocks hgood
  · rw [htable]
    exact h.markTargets hop

end Built

/-- The table after a series of steps. -/
def Step.afterAll (m : Method) (steps : List Step) (t : FlagTable) : FlagTable :=
  steps.foldl (fun t s => s.after m t) t

/-- A series of steps preserves the invariant. -/
theorem Built.steps {m : Method} {t : FlagTable} (h : Built m t) (steps : List Step) :
    Built m (Step.afterAll m steps t) := by
  induction steps generalizing t with
  | nil => exact h
  | cons s steps ih => exact ih (h.step s)

theorem Step.size_afterAll (m : Method) (steps : List Step) (t : FlagTable) :
    (Step.afterAll m steps t).size = t.size := by
  induction steps generalizing t with
  | nil => rfl
  | cons s steps ih => exact (ih _).trans (s.size_after m t)

/-- Every table that a series of passes over one method builds from a blank table is sound and
keeps its size, whatever the order of the passes, their offsets and their outcomes. -/
theorem soundTable_afterAll (m : Method) (n : ℕ) (steps : List Step) :
    (Step.afterAll m steps (.blank n)).size = n ∧
      SoundTable (Step.afterAll m steps (.blank n)) := by
  refine ⟨?_, ((Built.blank m n).steps steps).sound⟩
  rw [Step.size_afterAll, FlagTable.size_blank]

end Dalvik
