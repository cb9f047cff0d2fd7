import Mathlib
import Dalvik.Proofs.Rescan

/-!
# Loops that follow the widths of a table

A loop over the instructions reads the width at its cursor to find the next instruction, from the
very table that its body writes to. `Sweep` is such a loop, step by step and without a bound: a
width of zero would keep the cursor where it is and leave no sweep at all. On a table whose widths
tile the units below the limit, and with a body that leaves the widths alone, there is one sweep
(`exists_sweep`): it visits the opcodes in order and comes to an end at the limit, unless the body
fails before. Both loops of the pre-analysis are of this kind (`endsWalks_of_tries`).
-/

namespace Dalvik

open Layout Check

/-! ## Sweeps -/

/-- The loop with the given limit and body, from the cursor `off` and the table `t` on: the offsets
at which the body is run, the cursor in the end, and how the loop ends. The cursor moves by the
width that the table holds after the body. -/
inductive Sweep (limit : ℕ) (body : ℕ → FlagTable → Check Unit × FlagTable) :
    ℕ → FlagTable → List ℕ → ℕ → Check Unit × FlagTable → Prop where
  | stop {off : ℕ} {t : FlagTable} (hoff : limit ≤ off) : Sweep limit body off t [] off (.ok (), t)
  | fail {off : ℕ} {t t' : FlagTable} {h : Halt} (hoff : off < limit)
      (hbody : body off t = (.error h, t')) : Sweep limit body off t [off] off (.error h, t')
  | step {off next cursor : ℕ} {t t' : FlagTable} {visited : List ℕ} {out : Check Unit × FlagTable}
      (hoff : off < limit) (hbody : body off t = (.ok (), t'))
      (hnext : t'.next? off = some (next : ℤ))
      (hrest : Sweep limit body next t' visited cursor out) :
      Sweep limit body off t (off :: visited) cursor out

section

variable {limit off cursor : ℕ} {body : ℕ → FlagTable → Check Unit × FlagTable} {t : FlagTable}
  {visited : List ℕ} {out : Check Unit × FlagTable}

/-- A loop can go one way only. -/
theorem Sweep.unique (hrun : Sweep limit body off t visited cursor out) {visited' : List ℕ}
    {cursor' : ℕ} {out' : Check Unit × FlagTable}
    (hrun' : Sweep limit body off t visited' cursor' out') :
    visited' = visited ∧ cursor' = cursor ∧ out' = out := by
  induction hrun generalizing visited' cursor' out' with
  | stop hoff =>
    cases hrun' with
    | stop _ => exact ⟨rfl, rfl, rfl⟩
    | fail hoff' _ => omega
    | step hoff' _ _ _ => omega
  | fail hoff hbody =>
    cases hrun' with
    | stop hoff' => omega
    | fail _ hbody' =>
      rw [hbody] at hbody'
      cases hbody'
      exact ⟨rfl, rfl, rfl⟩
    | step _ hbody' _ _ =>
      rw [hbody] at hbody'
      cases hbody'
  | step hoff hbody hnext _ ih =>
    cases hrun' with
    | stop hoff' => omega
    | fail _ hbody' =>
      rw [hbody] at hbody'
      cases hbody'
    | step _ hbody' hnext' hrest' =>
      rw [hbody] at hbody'
      cases hbody'
      rw [hnext, Option.some.injEq, Int.natCast_inj] at hnext'
      subst hnext'
      obtain ⟨rfl, rfl, rfl⟩ := ih hrest'
      exact ⟨rfl, rfl, rfl⟩

/-! ## Tiled tables -/

namespace TilesTo

theorem lt_of_isOpcode (h : TilesTo t limit) {o : ℕ} (ho : t.isOpcode o = true) : o < limit := by
  have hpos := (FlagTable.isOpcode_iff t o).mp ho
  have := h.inside o hpos
  omega

/-- No opcode lies inside the instruction at another offset. -/
theorem next_le (h : TilesTo t limit) {o s : ℕ} (hs : t.isOpcode s = true) (hlt : o < s) :
    o + (t.wordAt o).width ≤ s := by
  by_contra hinside
  obtain ⟨_, -, honly⟩ := h.covered s (h.lt_of_isOpcode hs)
  have hpos := (FlagTable.isOpcode_iff t s).mp hs
  -- the unit at `s` would belong to both instructions
  have hfirst := honly o ⟨by omega, by omega⟩
  have hsecond := honly s ⟨le_refl s, by omega⟩
  omega

/-- Behind an instruction comes another one, or the limit. -/
theorem isOpcode_next (h : TilesTo t limit) {o : ℕ} (ho : t.isOpcode o = true)
    (hlt : o + (t.wordAt o).width < limit) :
    t.isOpcode ((o + (t.wordAt o).width : ℕ) : ℤ) = true := by
  obtain ⟨s, ⟨hle, hs⟩, -⟩ := h.covered _ hlt
  have hop : t.isOpcode s = true := (FlagTable.isOpcode_iff t s).mpr (by omega)
  have hpos := (FlagTable.isOpcode_iff t o).mp ho
  -- the instruction that the next unit belongs to starts neither before `o` nor inside it
  rcases Nat.lt_trichotomy o s with hbefore | rfl | hafter
  · have hnext := h.next_le hop hbefore
    rwa [Nat.le_antisymm hnext hle]
  · omega
  · have hnext := h.next_le ho hafter
    omega

/-- There is an instruction at the first unit. -/
theorem isOpcode_zero (h : TilesTo t limit) (hpos : 0 < limit) : t.isOpcode (0 : ℕ) = true := by
  obtain ⟨s, ⟨hle, hs⟩, -⟩ := h.covered 0 hpos
  obtain rfl : s = 0 := by omega
  exact (FlagTable.isOpcode_iff t 0).mpr (by omega)

theorem of_sameWidths (h : TilesTo t limit) {t' : FlagTable} (hw : t.SameWidths t') :
    TilesTo t' limit := by
  constructor
  · intro o
    rw [← hw.width_eq]
    exact h.inside o
  · intro u hu
    simp only [← hw.width_eq]
    exact h.covered u hu

end TilesTo

/-! ## The one sweep over a tiled table -/

/-- How a loop goes from an opcode, or from the limit, on. -/
structure SweepFrom (limit : ℕ) (body : ℕ → FlagTable → Check Unit × FlagTable) (off : ℕ)
    (t : FlagTable) (visited : List ℕ) (cursor : ℕ) (out : Check Unit × FlagTable) : Prop where
  run : Sweep limit body off t visited cursor out
  /-- The cursor is not moved back. -/
  off_le : off ≤ cursor
  /-- The visited offsets are the opcodes up to the cursor, in order. -/
  mem_iff : ∀ o : ℕ, o ∈ visited ↔ t.isOpcode o = true ∧ off ≤ o ∧ o ≤ cursor
  ascending : visited.Pairwise (· < ·)
  /-- In the end the cursor is at the limit, unless the body has failed. -/
  cursor_eq : out.1 = .ok () → cursor = limit
  isOpcode_cursor : ∀ h, out.1 = .error h → t.isOpcode cursor = true
  widths : t.SameWidths out.2

/-- At the limit there is nothing to visit. -/
theorem SweepFrom.atLimit (htiles : TilesTo t limit) :
    SweepFrom limit body limit t [] limit (.ok (), t) where
  run := .stop (le_refl limit)
  off_le := le_refl limit
  mem_iff o := by
    refine ⟨fun hmem => absurd hmem List.not_mem_nil, fun hop => ?_⟩
    have := htiles.lt_of_isOpcode hop.1
    omega
  ascending := .nil
  cursor_eq _ := rfl
  isOpcode_cursor _ herror := by cases herror
  widths := .refl t

/-- Where the body fails, the loop stops. -/
theorem SweepFrom.failed (htiles : TilesTo t limit) (hop : t.isOpcode off = true) {h : Halt}
    {t' : FlagTable} (hrun : body off t = (.error h, t')) (hw : t.SameWidths t') :
    SweepFrom limit body off t [off] off (.error h, t') where
  run := .fail (htiles.lt_of_isOpcode hop) hrun
  off_le := le_refl off
  mem_iff o := by
    rw [List.mem_singleton]
    constructor
    · rintro rfl
      exact ⟨hop, le_refl _, le_refl _⟩
    · intro hin
      omega
  ascending := List.pairwise_singleton _ _
  cursor_eq hok := by cases hok
  isOpcode_cursor _ _ := hop
  widths := hw

/-- Where the body succeeds, the loop goes on behind the instruction. -/
theorem SweepFrom.step (htiles : TilesTo t limit) (hop : t.isOpcode off = true) {t' : FlagTable}
    (hrun : body off t = (.ok (), t')) (hw : t.SameWidths t')
    (hrest : SweepFrom limit body (off + (t.wordAt off).width) t' visited cursor out) :
    SweepFrom limit body off t (off :: visited) cursor out := by
  have hlt := htiles.lt_of_isOpcode hop
  have hpos := (FlagTable.isOpcode_iff t off).mp hop
  have hsize : off < t'.size := by
    rw [← hw.size_eq]
    exact FlagTable.lt_size_of_isOpcode hop
  have hnext : t'.next? off = some ((off + (t.wordAt off).width : ℕ) : ℤ) := by
    show (t'.words[off]?).map _ = _
    rw [FlagTable.getElem?_words hsize, Option.map_some, hw.width_eq]
    rfl
  have hcursor := hrest.off_le
  constructor
  · exact .step hlt hrun hnext hrest.run
  · omega
  · intro o
    rw [List.mem_cons, hrest.mem_iff, ← hw.isOpcode_eq]
    constructor
    · rintro (rfl | hin)
      · exact ⟨hop, by omega, by omega⟩
      · exact ⟨hin.1, by omega, hin.2.2⟩
    · rintro ⟨ho, hle, hend⟩
      -- no opcode is skipped: the next one is a width away
      rcases Nat.eq_or_lt_of_le hle with heq | hbehind
      · exact .inl heq.symm
      · exact .inr ⟨ho, htiles.next_le ho hbehind, hend⟩
  · rw [List.pairwise_cons]
    refine ⟨fun o ho => ?_, hrest.ascending⟩
    have := ((hrest.mem_iff o).mp ho).2.1
    omega
  · exact hrest.cursor_eq
  · intro h herror
    rw [hw.isOpcode_eq]
    exact hrest.isOpcode_cursor h herror
  · exact hw.trans hrest.widths

/-- A loop whose body leaves the widths alone goes over a tiled table, and the walk ends as it
does. -/
theorem exists_sweepFrom (hbody : ∀ o (t : FlagTable), t.SameWidths (body o t).2)
    (htiles : TilesTo t limit) (hoff : off = limit ∨ t.isOpcode off = true) :
    ∃ visited cursor, SweepFrom limit body off t visited cursor (walk limit body off t) := by
  -- the units between the cursor and the limit get fewer
  induction hn : limit - off using Nat.strong_induction_on generalizing off t with
  | _ n ih =>
    rcases hoff with rfl | hop
    · rw [walk, if_neg (lt_irrefl _)]
      exact ⟨[], off, .atLimit htiles⟩
    · have hlt := htiles.lt_of_isOpcode hop
      have hpos := (FlagTable.isOpcode_iff t off).mp hop
      have hw := hbody off t
      rw [walk, if_pos hlt]
      cases hrun : body off t with
      | mk result t' =>
        rw [hrun] at hw
        cases result with
        | error h => exact ⟨[off], off, .failed htiles hop hrun hw⟩
        | ok u =>
          have hsize : off < t'.size := by
            rw [← hw.size_eq]
            exact FlagTable.lt_size_of_isOpcode hop
          have hinside := htiles.inside off hpos
          have hnext : off + (t.wordAt off).width = limit ∨
              t'.isOpcode ((off + (t.wordAt off).width : ℕ) : ℤ) = true := by
            rcases Nat.eq_or_lt_of_le hinside with hend | hmore
            · exact .inl hend
            · exact .inr (by rw [← hw.isOpcode_eq]; exact htiles.isOpcode_next hop hmore)
          obtain ⟨visited, cursor, hrest⟩ :=
            ih (limit - (off + (t.wordAt off).width)) (by omega) (htiles.of_sameWidths hw) hnext rfl
          simp only [FlagTable.getElem?_words hsize, ← hw.width_eq]
          rw [if_pos hpos]
          exact ⟨off :: visited, cursor, .step htiles hop hrun hw hrest⟩

end

/-! ## The loops of the pre-analysis -/

/-- A loop over the table `t` comes to an end. -/
structure EndedWalk (limit : ℕ) (body : ℕ → FlagTable → Check Unit × FlagTable) (t : FlagTable)
    (visited : List ℕ) (cursor : ℕ) (out : Check Unit × FlagTable) : Prop where
  /-- The loop goes this way, -/
  run : Sweep limit body 0 t visited cursor out
  /-- and no other. -/
  only : ∀ visited' cursor' out', Sweep limit body 0 t visited' cursor' out' →
    visited' = visited ∧ cursor' = cursor ∧ out' = out
  /-- It visits opcodes only, -/
  opcodes : ∀ o ∈ visited, t.isOpcode o = true
  /-- in order. -/
  ascending : visited.Pairwise (· < ·)
  /-- Unless the body fails, it visits all of them, and the cursor comes to the limit. -/
  complete : out.1 = .ok () → cursor = limit ∧ ∀ o : ℕ, t.isOpcode o = true → o ∈ visited
  /-- If the body fails, then at the cursor, with all opcodes in front of it visited. -/
  failed : ∀ h, out.1 = .error h → cursor ∈ visited ∧
    ∀ o : ℕ, o ∈ visited ↔ t.isOpcode o = true ∧ o ≤ cursor
  /-- The widths are the same as before. -/
  widths : t.SameWidths out.2

/-- A tiled table has an end for every loop whose body leaves the widths alone. -/
theorem exists_endedWalk {limit : ℕ} {body : ℕ → FlagTable → Check Unit × FlagTable} {t : FlagTable}
    (hbody : ∀ o (t : FlagTable), t.SameWidths (body o t).2) (htiles : TilesTo t limit) :
    ∃ visited cursor, EndedWalk limit body t visited cursor (walk limit body 0 t) := by
  have hzero : 0 = limit ∨ t.isOpcode (0 : ℕ) = true := by
    rcases Nat.eq_zero_or_pos limit with hempty | hpos
    · exact .inl hempty.symm
    · exact .inr (htiles.isOpcode_zero hpos)
  obtain ⟨visited, cursor, hsweep⟩ := exists_sweepFrom hbody htiles hzero
  have hmem : ∀ o : ℕ, o ∈ visited ↔ t.isOpcode o = true ∧ o ≤ cursor := by
    intro o
    rw [hsweep.mem_iff]
    simp only [Nat.zero_le, true_and]
  refine ⟨visited, cursor, hsweep.run, fun _ _ _ => hsweep.run.unique, ?_, hsweep.ascending, ?_, ?_,
    hsweep.widths⟩
  · intro o ho
    exact ((hmem o).mp ho).1
  · intro hok
    have hend := hsweep.cursor_eq hok
    refine ⟨hend, fun o ho => (hmem o).mpr ⟨ho, ?_⟩⟩
    have := htiles.lt_of_isOpcode ho
    omega
  · intro h herror
    exact ⟨(hmem cursor).mpr ⟨hsweep.isOpcode_cursor h herror, le_refl _⟩, hmem⟩

/-- The loops of the pre-analysis of `m` from the table `t` on: the one that checks the
instructions, and the one that marks collection points in the table that the first one leaves. -/
structure EndsWalks (m : Method) (t : FlagTable) : Prop where
  checks : ∃ visited cursor, EndedWalk m.code.size (Pass.effects (Pass.instruction m)) t visited
    cursor ((Pass.each m (Pass.instruction m)).run t).effect
  /-- No collection point can fail. -/
  marks : ∃ visited, EndedWalk m.code.size (Pass.effects (Pass.gcPoint m))
      ((Pass.each m (Pass.instruction m)).run t).table visited m.code.size
      ((Pass.each m (Pass.gcPoint m)).run
        ((Pass.each m (Pass.instruction m)).run t).table).effect ∧
    ((Pass.each m (Pass.gcPoint m)).run
      ((Pass.each m (Pass.instruction m)).run t).table).result = .ok ()
  /-- Neither body writes to a width, at whatever offset and on whatever table it is run. -/
  frame : ∀ (o : ℕ) (t : FlagTable), t.SameWidths ((Pass.instruction m o).run t).table ∧
    t.SameWidths ((Pass.gcPoint m o).run t).table

/-- A scan that succeeds has found the whole code. -/
theorem stopFrom_of_widths {m : Method} {t t' : FlagTable} {n : ℕ}
    (h : Check.widths m t = (.ok n, t')) :
    Recorded m.code t' ∧ m.code.size ≠ 0 ∧ stopFrom m.code 0 = m.code.size := by
  by_cases hrefused : m.code.size = 0 ∨ t.size ≠ m.code.size
  · obtain ⟨cause, hwidths⟩ := widths_refused hrefused
    rw [hwidths] at h
    cases h
  · push Not at hrefused
    have hrec := recorded_widths hrefused.1 hrefused.2
    have hresult := widths_result hrefused.1 hrefused.2
    rw [h] at hrec hresult
    refine ⟨hrec, hrefused.1, ?_⟩
    rcases hresult with ⟨hstop, -⟩ | ⟨-, k, -, hfails⟩
    · exact hstop
    · exact absurd hfails (not_failsWith_ok n)

/-- The scan and the try blocks of a method have passed, on whatever table. Then its entry can be
marked, which leaves the widths of the scan, and both loops over the table come to their end. -/
theorem endsWalks_of_tries {m : Method} {t t₁ t₂ : FlagTable} {n : ℕ}
    (hwidths : Check.widths m t = (.ok n, t₁)) (htries : Check.tries m t₁ = (.ok (), t₂)) :
    ∃ t₃, markAll t₂ .branchTarget [0] = (.ok (), t₃) ∧ t₁.SameWidths t₃ ∧ EndsWalks m t₃ := by
  obtain ⟨hrec, hne, hstop⟩ := stopFrom_of_widths hwidths
  obtain ⟨blocks, -, htable⟩ := tries_table m t₁
  rw [htries] at htable
  have hw₂ : t₁.SameWidths t₂ := by
    rw [show t₂ = t₁.markBlocks blocks from htable]
    exact FlagTable.SameWidths.markBlocks t₁ blocks
  have hw₃ := hw₂.trans (FlagTable.SameWidths.markEach t₂ .branchTarget [0])
  refine ⟨_, markAll_entry (hrec.of_sameWidths hw₂) hne, hw₃, ?_⟩
  have hrec₃ := hrec.of_sameWidths hw₃
  have htiles := tilesTo_stopFrom hrec₃
  rw [hstop] at htiles
  have hbody : ∀ o (t : FlagTable), t.SameWidths (Pass.effects (Pass.instruction m) o t).2 := by
    rw [Pass.effects_instruction]
    exact sameWidths_instruction m
  obtain ⟨visited, cursor, hchecks⟩ := exists_endedWalk hbody htiles
  rw [← Pass.effect_each] at hchecks
  refine ⟨⟨visited, cursor, hchecks⟩, ?_, fun o t => ⟨hbody o t, sameWidths_gcPoint m o t⟩⟩
  -- the checks leave the widths, so the second loop has the same table to follow
  have hrec₄ := hrec₃.of_sameWidths hchecks.widths
  obtain ⟨visited', cursor', hmarks⟩ :=
    exists_endedWalk (sameWidths_gcPoint m) (htiles.of_sameWidths hchecks.widths)
  have hok : (walk m.code.size (gcPoint m) 0 ((Pass.each m (Pass.instruction m)).run
      (t₂.markEach .branchTarget [0])).effect.2).1 = .ok () := by
    rw [walk_eq_visit (sameWidths_gcPoint m) hrec₄ (fun o ho => ho) hstop,
      visit_gcPoint hrec₄.size_eq fun o ho => lt_size_of_mem_startsFrom ho]
  rw [(hmarks.complete hok).1] at hmarks
  rw [← Pass.effects_gcPoint, ← Pass.effect_each] at hmarks hok
  exact ⟨visited', hmarks, hok⟩

/-- The loop with a try block, a switch and its table. -/
theorem endsWalks_of_switchLoop :
    ∃ t₁ t₂ t₃, Check.widths switchLoop (.blank 12) = (.ok 1, t₁) ∧
      Check.tries switchLoop t₁ = (.ok (), t₂) ∧
      markAll t₂ .branchTarget [0] = (.ok (), t₃) ∧ t₁.SameWidths t₃ ∧ EndsWalks switchLoop t₃ := by
  have hwidths : Check.widths switchLoop (.blank 12) = (.ok 1, ⟨#[⟨2#32⟩, ⟨0#32⟩, ⟨3#32⟩, ⟨0#32⟩,
      ⟨0#32⟩, ⟨1#32⟩, ⟨6#32⟩, ⟨0#32⟩, ⟨0#32⟩, ⟨0#32⟩, ⟨0#32⟩, ⟨0#32⟩]⟩) := by
    decide +kernel
  have htries : Check.tries switchLoop ⟨#[⟨2#32⟩, ⟨0#32⟩, ⟨3#32⟩, ⟨0#32⟩, ⟨0#32⟩, ⟨1#32⟩, ⟨6#32⟩,
      ⟨0#32⟩, ⟨0#32⟩, ⟨0#32⟩, ⟨0#32⟩, ⟨0#32⟩]⟩ = (.ok (), ⟨#[⟨0x10002#32⟩, ⟨0x10000#32⟩, ⟨3#32⟩,
      ⟨0#32⟩, ⟨0#32⟩, ⟨1#32⟩, ⟨6#32⟩, ⟨0#32⟩, ⟨0#32⟩, ⟨0#32⟩, ⟨0#32⟩, ⟨0#32⟩]⟩) := by
    decide +kernel
  obtain ⟨t₃, hentry, hw, hends⟩ := endsWalks_of_tries hwidths htries
  exact ⟨_, _, t₃, hwidths, htries, hentry, hw, hends⟩

end Dalvik
