import Mathlib
import Dalvik.Proofs.Checks

/-!
# Checks of try blocks

A try block is good if it covers whole instructions of the flag table (`GoodTry`). Whatever the
outcome of the check, the blocks whose units it has marked are good ones (`tries_table`); it
passes if and only if all blocks are good and all handlers start at opcodes (`tries_eq_ok_iff`).
-/

namespace Dalvik

/-- The unit belongs to the block. -/
def TryBlock.Contains (b : TryBlock) (o : ℕ) : Prop := b.start.toNat ≤ o ∧ o < b.stop

instance (b : TryBlock) (o : ℕ) : Decidable (b.Contains o) := by
  unfold TryBlock.Contains
  infer_instance

namespace FlagTable

/-- The table with the units of every listed block marked. -/
def markBlocks (t : FlagTable) (blocks : List TryBlock) : FlagTable :=
  blocks.foldl (fun t b => t.markRange .inTry b.start.toNat b.count.toNat) t

theorem markBlocks_cons (t : FlagTable) (b : TryBlock) (blocks : List TryBlock) :
    t.markBlocks (b :: blocks)
      = (t.markRange .inTry b.start.toNat b.count.toNat).markBlocks blocks := rfl

/-- Marking try blocks leaves the widths alone. -/
theorem SameWidths.markBlocks (t : FlagTable) (blocks : List TryBlock) :
    SameWidths t (t.markBlocks blocks) := by
  induction blocks generalizing t with
  | nil => exact SameWidths.refl t
  | cons b blocks ih => exact (SameWidths.markRange t _ _ _).trans (ih _)

/-- The marks of several blocks. -/
theorem wordAt_markBlocks (t : FlagTable) (blocks : List TryBlock) (j : ℕ) :
    (t.markBlocks blocks).wordAt j
      = if (∃ b ∈ blocks, b.Contains j) ∧ j < t.size then (t.wordAt j).put .inTry true
        else t.wordAt j := by
  induction blocks generalizing t with
  | nil => simp [markBlocks]
  | cons b blocks ih =>
    rw [markBlocks_cons, ih, size_markRange, wordAt_markRange]
    have hfirst : (b.start.toNat ≤ j ∧ j < b.start.toNat + b.count.toNat ∧ j < t.size) ↔
        b.Contains j ∧ j < t.size := by
      unfold TryBlock.Contains TryBlock.stop
      omega
    simp only [hfirst, List.mem_cons, exists_eq_or_imp]
    -- a unit that two blocks share is marked twice
    by_cases hlt : j < t.size
    · by_cases hb : b.Contains j
      · simp only [hb, hlt, and_true, true_or, if_true, FlagWord.put_put, ite_self]
      · simp only [hb, hlt, and_true, false_or, if_false]
    · simp only [hlt, and_false, if_false]

/-- The bits of a word after marking several blocks. -/
theorem getLsbD_markBlocks (t : FlagTable) (blocks : List TryBlock) (o i : ℕ) :
    ((t.markBlocks blocks).wordAt o).bits.getLsbD i = true ↔
      (i = 16 ∧ (∃ b ∈ blocks, b.Contains o) ∧ o < t.size) ∨
        (t.wordAt o).bits.getLsbD i = true := by
  rw [wordAt_markBlocks]
  by_cases hmem : (∃ b ∈ blocks, b.Contains o) ∧ o < t.size
  · rw [if_pos hmem, FlagWord.getLsbD_put]
    by_cases hi : i = Mark.inTry.bit
    · rw [if_pos hi]
      exact ⟨fun _ => .inl ⟨hi, hmem⟩, fun _ => rfl⟩
    · rw [if_neg hi]
      exact ⟨.inr, fun h => h.resolve_left fun h' => hi h'.1⟩
  · rw [if_neg hmem]
    exact ⟨.inr, fun h => h.resolve_left fun h' => hmem h'.2⟩

end FlagTable

namespace Check

/-! ## Bounds -/

/-- The block covers whole instructions of the table, and at least one. -/
structure GoodTry (t : FlagTable) (b : TryBlock) : Prop where
  count_pos : 0 < b.count.toNat
  start : t.isOpcode b.start.toNat = true
  stop : t.isOpcode b.stop = true ∨ b.stop = t.size

theorem GoodTry.stop_le {t : FlagTable} {b : TryBlock} (h : GoodTry t b) : b.stop ≤ t.size := by
  rcases h.stop with hop | hend
  · exact (FlagTable.lt_size_of_isOpcode hop).le
  · exact hend.le

/-- The marks of a table do not matter to the bounds of a block. -/
theorem GoodTry.congr {t t' : FlagTable} {b : TryBlock} (hw : t.SameWidths t') :
    GoodTry t b ↔ GoodTry t' b := by
  constructor
  · intro h
    rcases h with ⟨hcount, hstart, hstop⟩
    rw [hw.isOpcode_eq] at hstart hstop
    rw [hw.size_eq] at hstop
    exact ⟨hcount, hstart, hstop⟩
  · intro h
    rcases h with ⟨hcount, hstart, hstop⟩
    rw [← hw.isOpcode_eq] at hstart hstop
    rw [← hw.size_eq] at hstop
    exact ⟨hcount, hstart, hstop⟩

/-- The check of a try block passes if and only if the block is good for the table. -/
theorem tryBounds_eq_ok_iff {m : Method} {t : FlagTable} (hsize : t.size = m.code.size)
    (index : ℕ) (b : TryBlock) : tryBounds m t index b = .ok () ↔ GoodTry t b := by
  have hstop : b.stop = b.start.toNat + b.count.toNat := rfl
  unfold tryBounds
  constructor
  · intro h
    simp only at h
    split_ifs at h with hbounds hstart hend
    · cases h
    · cases h
    · cases h
    -- a block that does not end at an opcode was let through for ending with the code
    · refine ⟨by omega, by simpa using hstart, ?_⟩
      by_cases hop : t.isOpcode b.stop = true
      · exact .inl hop
      · right
        by_contra hne
        exact hend ⟨by omega, by simpa using hop⟩
  · intro h
    -- a good block lies inside the code, so the bounds hold as well
    have hlt := FlagTable.lt_size_of_isOpcode h.start
    have hle := h.stop_le
    have hpos := h.count_pos
    simp only
    rw [if_neg (by omega), if_neg (by rw [h.start]; exact Bool.false_ne_true), if_neg]
    intro hrefused
    rcases hrefused with ⟨hne, hno⟩
    rcases h.stop with hop | hend
    · rw [hop] at hno
      cases hno
    · omega

theorem refuses_tryBounds (m : Method) (t : FlagTable) (index : ℕ) (b : TryBlock) :
    Refuses (tryBounds m t index b) := by
  refine Refuses.ite (fun _ => Refuses.refuse _) fun _ => ?_
  refine Refuses.ite (fun _ => Refuses.refuseAt _ _) fun _ => ?_
  exact Refuses.ite (fun _ => Refuses.refuseAt _ _) fun _ => Refuses.ok ()

/-! ## Blocks in order -/

/-- A good block is marked before the rest is looked at. -/
theorem markTries_good {m : Method} {t : FlagTable} {b : TryBlock} (hsize : t.size = m.code.size)
    (hgood : GoodTry t b) (index : ℕ) (rest : List TryBlock) :
    markTries m index (b :: rest) t
      = markTries m (index + 1) rest (t.markRange .inTry b.start.toNat b.count.toNat) := by
  rw [markTries, (tryBounds_eq_ok_iff hsize index b).mpr hgood]
  simp only
  rw [if_pos hgood.stop_le]

/-- A bad block ends the check. -/
theorem markTries_bad {m : Method} {t : FlagTable} {b : TryBlock} (hsize : t.size = m.code.size)
    (hbad : ¬ GoodTry t b) (index : ℕ) (rest : List TryBlock) :
    ∃ offset cause, markTries m index (b :: rest) t = (.error (.refused offset cause), t) := by
  cases hbounds : tryBounds m t index b with
  | error h =>
    obtain ⟨offset, cause, rfl⟩ := refuses_tryBounds m t index b h hbounds
    exact ⟨offset, cause, by rw [markTries, hbounds]⟩
  | ok u => exact absurd ((tryBounds_eq_ok_iff hsize index b).mp hbounds) hbad

/-- The check marks a series of good blocks, and all of them if it passes. -/
theorem markTries_spec {m : Method} {t : FlagTable} (hsize : t.size = m.code.size) (index : ℕ)
    (blocks : List TryBlock) :
    Refuses (markTries m index blocks t).1 ∧
      ((markTries m index blocks t).1 = .ok () ↔ ∀ b ∈ blocks, GoodTry t b) ∧
      ∃ front, front <+: blocks ∧ (∀ b ∈ front, GoodTry t b) ∧
        (markTries m index blocks t).2 = t.markBlocks front ∧
        ((markTries m index blocks t).1 = .ok () → front = blocks) := by
  induction blocks generalizing index t with
  | nil =>
    refine ⟨Refuses.ok (), by simp [markTries], [], List.prefix_rfl, by simp, rfl, fun _ => rfl⟩
  | cons b rest ih =>
    by_cases hgood : GoodTry t b
    -- marking keeps the widths, so the rest is judged as if on the first table
    · have hmarked := FlagTable.SameWidths.markRange t .inTry b.start.toNat b.count.toNat
      obtain ⟨hrefuses, hok, front, hpre, hall, htable, hwhole⟩ :=
        ih (hmarked.size_eq.symm.trans hsize) (index + 1)
      simp only [← GoodTry.congr hmarked] at hok hall
      rw [markTries_good hsize hgood]
      refine ⟨hrefuses, ?_, b :: front, ?_, ?_, htable, fun h => by rw [hwhole h]⟩
      · rw [hok, List.forall_mem_cons]
        exact (and_iff_right hgood).symm
      · exact (List.prefix_cons_inj b).mpr hpre
      · exact List.forall_mem_cons.mpr ⟨hgood, hall⟩
    · obtain ⟨offset, cause, hbad⟩ := markTries_bad hsize hgood index rest
      rw [hbad]
      refine ⟨?_, ?_, [], List.nil_prefix, by simp, rfl, by rintro ⟨⟩⟩
      · rintro h ⟨⟩
        exact ⟨offset, cause, rfl⟩
      · rw [List.forall_mem_cons]
        exact ⟨by rintro ⟨⟩, fun h => absurd h.1 hgood⟩

/-! ## Handlers -/

theorem handler_eq_ok_iff {m : Method} {t : FlagTable} (hsize : t.size = m.code.size)
    (h : CatchHandler) : handler m t h = .ok () ↔ t.isOpcode h.addr.toNat = true := by
  unfold handler
  constructor
  · intro hok
    simp only at hok
    split at hok
    · cases hok
    · rename_i hno
      push Not at hno
      simpa using hno.2
  · intro hop
    have hlt := FlagTable.lt_size_of_isOpcode hop
    simp only
    rw [if_neg]
    intro hrefused
    rcases hrefused with hge | hno
    · omega
    · rw [hop] at hno
      cases hno

/-- The check of a list of handlers passes if and only if all of them are opcodes. -/
theorem handlers_eq_ok_iff {m : Method} {t : FlagTable} (hsize : t.size = m.code.size)
    (hs : List CatchHandler) :
    handlers m t hs = .ok () ↔ ∀ h ∈ hs, t.isOpcode h.addr.toNat = true := by
  induction hs with
  | nil => simp [handlers]
  | cons h rest ih =>
    rw [List.forall_mem_cons, ← handler_eq_ok_iff hsize, ← ih, handlers]
    cases hfirst : handler m t h with
    | error e => exact ⟨by rintro ⟨⟩, fun hok => by cases hok.1⟩
    | ok u => exact ⟨fun hok => ⟨rfl, hok⟩, fun hok => hok.2⟩

theorem refuses_handlers (m : Method) (t : FlagTable) (hs : List CatchHandler) :
    Refuses (handlers m t hs) := by
  induction hs with
  | nil => exact Refuses.ok ()
  | cons h rest ih =>
    rw [handlers]
    cases hfirst : handler m t h with
    | error e =>
      rintro e' ⟨⟩
      exact Refuses.ite (fun _ => Refuses.refuse _) (fun _ => Refuses.ok ()) e hfirst
    | ok u => exact ih

/-! ## The check as a whole -/

/-- On a table of the right size the blocks are checked first, then the handlers. -/
theorem tries_eq {m : Method} {t : FlagTable} (hsize : t.size = m.code.size) :
    tries m t = ((markTries m 0 m.tries t).1 >>= fun _ =>
      handlers m (markTries m 0 m.tries t).2 m.allHandlers.flatten, (markTries m 0 m.tries t).2) := by
  rw [tries, (covered_eq_ok_iff m t).mpr hsize]
  simp only
  split
  · rename_i hmark
    rw [hmark]
    rfl
  · rename_i hmark
    rw [hmark]
    rfl

/-- A table of another size is left alone. -/
theorem tries_refused {m : Method} {t : FlagTable} (hsize : t.size ≠ m.code.size) :
    ∃ offset cause, tries m t = (.error (.refused offset cause), t) := by
  cases hcovered : covered m t with
  | error h =>
    obtain ⟨offset, cause, rfl⟩ := refuses_covered m t h hcovered
    exact ⟨offset, cause, by rw [tries, hcovered]⟩
  | ok u => exact absurd ((covered_eq_ok_iff m t).mp hcovered) hsize

/-- The pass over the try blocks halts with a cause or not at all. -/
theorem refuses_tries (m : Method) (t : FlagTable) : Refuses (tries m t).1 := by
  by_cases hsize : t.size = m.code.size
  · rw [tries_eq hsize]
    exact (markTries_spec hsize 0 m.tries).1.bind fun _ _ => refuses_handlers _ _ _
  · obtain ⟨offset, cause, htries⟩ := tries_refused hsize
    rw [htries]
    rintro h ⟨⟩
    exact ⟨offset, cause, rfl⟩

/-- Whether or not the check passes, it marks a series of good blocks. -/
theorem tries_table (m : Method) (t : FlagTable) :
    ∃ front, (∀ b ∈ front, GoodTry t b) ∧ (tries m t).2 = t.markBlocks front := by
  by_cases hsize : t.size = m.code.size
  · obtain ⟨-, -, front, -, hgood, htable, -⟩ := markTries_spec hsize 0 m.tries
    exact ⟨front, hgood, by rw [tries_eq hsize, htable]⟩
  · obtain ⟨offset, cause, htries⟩ := tries_refused hsize
    exact ⟨[], by simp, by rw [htries]; rfl⟩

/-- The check passes if and only if all blocks are good and all handlers start at opcodes. -/
theorem tries_eq_ok_iff {m : Method} {t : FlagTable} (hsize : t.size = m.code.size) :
    (tries m t).1 = .ok () ↔ (∀ b ∈ m.tries, GoodTry t b) ∧
      ∀ hs ∈ m.allHandlers, ∀ h ∈ hs, t.isOpcode h.addr.toNat = true := by
  obtain ⟨-, hok, front, -, -, htable, -⟩ := markTries_spec hsize 0 m.tries
  -- the handlers are looked up in the marked table, which has the same opcodes
  have hwidths := FlagTable.SameWidths.markBlocks t front
  rw [tries_eq hsize]
  simp only
  rw [bind_eq_ok, htable]
  simp only [handlers_eq_ok_iff (hwidths.size_eq.symm.trans hsize), ← hwidths.isOpcode_eq,
    List.mem_flatten, forall_exists_index, and_imp]
  constructor
  · intro hpassed
    rcases hpassed with ⟨⟨⟩, hmark, hall⟩
    exact ⟨hok.mp hmark, fun hs hmem h hh => hall h hs hmem hh⟩
  · intro hlegal
    rcases hlegal with ⟨hgood, hall⟩
    exact ⟨(), hok.mpr hgood, fun h hs hmem hh => hall hs hmem h hh⟩

/-- A check that passes marks all blocks. -/
theorem tries_table_of_ok {m : Method} {t : FlagTable} (hsize : t.size = m.code.size)
    (h : (tries m t).1 = .ok ()) : (tries m t).2 = t.markBlocks m.tries := by
  obtain ⟨-, hok, front, -, -, htable, hwhole⟩ := markTries_spec hsize 0 m.tries
  rw [tries_eq hsize, htable, hwhole (hok.mpr ((tries_eq_ok_iff hsize).mp h).1)]

end Check
end Dalvik
