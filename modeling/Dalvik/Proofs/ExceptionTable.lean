import Mathlib
import Dalvik.Proofs.FlagValues
import Dalvik.Proofs.WrittenItem

/-!
# Try blocks and handlers of an accepted code item

The pre-analysis looks at the handler lists of a method, and not at the handlers of its try blocks;
nor does it ask whether the blocks overlap. Both are settled when the code item is read: every block
has one of the lists (`tries_of_parse`), and the blocks are in order. Together they give what an
exception table has to be (`exceptionTable_of_parse`): all handlers start at instructions, the blocks
are disjoint, each of them covers whole instructions, and the marked units are those of the blocks.
-/

namespace Dalvik

open Layout Check

/-! ## What reading settles -/

namespace CodeItem

open Bytes Reader

theorem mem_of_lookup {α : Type} {key : ℕ} {value : α} {pairs : List (ℕ × α)}
    (h : pairs.lookup key = some value) : value ∈ pairs.map (·.2) := by
  induction pairs with
  | nil => cases h
  | cons pair pairs ih =>
    rw [List.lookup_cons] at h
    rw [List.map_cons, List.mem_cons]
    split at h
    · exact .inl (Option.some.inj h).symm
    · exact .inr (ih h)

/-- The handlers of a resolved block are those of some list. -/
theorem handlers_of_resolveTries {lists : List (ℕ × List CatchHandler)} {index : ℕ}
    {items : List (UInt32 × UInt16 × UInt16)} {acc : Array TryBlock} {tries : List TryBlock}
    (h : resolveTries lists index items acc = .ok tries)
    (hacc : ∀ b ∈ acc, b.handlers ∈ lists.map (·.2)) :
    ∀ b ∈ tries, b.handlers ∈ lists.map (·.2) := by
  induction items generalizing index acc with
  | nil =>
    cases h
    intro b hb
    exact hacc b (Array.mem_toList_iff.mp hb)
  | cons item items ih =>
    obtain ⟨start, count, offset⟩ := item
    rw [resolveTries] at h
    split at h
    · cases h
    · rename_i handlers hfound
      refine ih h fun b hb => ?_
      rcases Array.mem_push.mp hb with hold | rfl
      · exact hacc b hold
      · exact mem_of_lookup hfound

theorem tries_of_readTable {tryCount : ℕ} {start stop : Cursor} {tries : List TryBlock}
    {lists : List (List CatchHandler)}
    (h : readTable tryCount start = .ok ((tries, lists), stop)) :
    (∀ b ∈ tries, b.handlers ∈ lists) ∧ TryBlock.sorted tries = true := by
  obtain ⟨items, _, -, h⟩ := bind_eq_ok h
  obtain ⟨_, _, -, h⟩ := bind_eq_ok h
  obtain ⟨listCount, _, -, h⟩ := bind_eq_ok h
  obtain ⟨placed, c, -, h⟩ := bind_eq_ok h
  obtain ⟨resolved, c', hresolved, h⟩ := bind_eq_ok h
  -- resolving takes no bytes, so it has not failed
  have hok : resolveTries placed.toList 0 items.toList #[] = .ok resolved := by
    cases hcase : resolveTries placed.toList 0 items.toList #[] with
    | error fault =>
      rw [hcase] at hresolved
      cases hresolved
    | ok ts =>
      rw [hcase] at hresolved
      cases hresolved
      rfl
  split_ifs at h with hsorted
  · cases h
    exact ⟨handlers_of_resolveTries hok (by simp), hsorted⟩
  · cases h

/-- Every try block of a code item has one of its handler lists, and the blocks are in order. -/
theorem tries_of_parse {bytes : List UInt8} {c : CodeItem} (h : parse bytes = .ok c) :
    (∀ b ∈ c.tries, b.handlers ∈ c.handlerLists) ∧ TryBlock.sorted c.tries = true := by
  obtain ⟨-, ⟨htries, -⟩ | ⟨tryCount, start, stop, hread⟩⟩ := parse_cases h
  · rw [htries]
    exact ⟨by simp, rfl⟩
  · rw [readTries_eq] at hread
    split_ifs at hread
    · obtain ⟨_, _, -, hread⟩ := bind_eq_ok hread
      exact tries_of_readTable hread
    · exact tries_of_readTable hread

end CodeItem

/-- Blocks in order are in order pair by pair, not only with their neighbours. -/
theorem TryBlock.pairwise_of_sorted {tries : List TryBlock} (h : TryBlock.sorted tries = true) :
    tries.Pairwise fun s t => s.stop ≤ t.start.toNat := by
  have htrans : IsTrans TryBlock fun s t => s.stop ≤ t.start.toNat := by
    constructor
    intro s t u hst htu
    have hstop : t.stop = t.start.toNat + t.count.toNat := rfl
    omega
  exact List.isChain_iff_pairwise.mp ((TryBlock.sorted_iff_isChain tries).mp h)

/-! ## Whole instructions -/

/-- In a tiled code every unit belongs to an instruction. -/
theorem exists_start_of_lt {code : Code} {off o : ℕ} (hle : off ≤ o)
    (hlt : o < stopFrom code off) :
    ∃ s ∈ startsFrom code off, ∃ ins, Instruction.decode code s = .ok ins ∧ s ≤ o ∧
      o < s + ins.width := by
  -- along the decode, up to the step that goes past the unit
  induction off using decode_induction code with
  | stop off cause hdec =>
    rw [stopFrom_error hdec] at hlt
    omega
  | step off ins hdec ih =>
    rw [stopFrom_ok hdec] at hlt
    rw [startsFrom_ok hdec]
    by_cases hhere : o < off + ins.width
    · exact ⟨off, List.mem_cons_self, ins, hdec, hle, hhere⟩
    · obtain ⟨s, hs, hrest⟩ := ih (by omega) hlt
      exact ⟨s, List.mem_cons_of_mem off hs, hrest⟩

/-- The unit belongs to the instruction that the table has at `s`. -/
def FlagTable.Spans (t : FlagTable) (s o : ℕ) : Prop :=
  t.isOpcode s = true ∧ s ≤ o ∧ o < s + (t.wordAt s).width

theorem exists_spans {code : Code} {t : FlagTable} (hrec : Recorded code t) (htiled : Tiled code)
    {o : ℕ} (ho : o < code.size) : ∃ s, t.Spans s o := by
  obtain ⟨-, hstop⟩ := (tiled_iff code).mp htiled
  obtain ⟨s, hs, ins, hins, hle, hlt⟩ := exists_start_of_lt (Nat.zero_le o) (by rwa [hstop])
  refine ⟨s, (hrec.isOpcode_iff s).mpr ((isStart_iff code s).mpr hs), hle, ?_⟩
  rwa [hrec.width_eq, startWidth_eq hs hins]

/-- No instruction starts inside another one. -/
theorem FlagTable.Spans.le_or_le {code : Code} {t : FlagTable} (hrec : Recorded code t) {s o a : ℕ}
    (h : t.Spans s o) (ha : IsStart code a) : a ≤ s ∨ o < a := by
  obtain ⟨hop, -, hlt⟩ := h
  have hs := (isStart_iff code s).mp ((hrec.isOpcode_iff s).mp hop)
  by_cases hle : a ≤ s
  · exact .inl hle
  · have hnext := add_startWidth_le_of_lt hs ((isStart_iff code a).mp ha) (by omega)
    rw [hrec.width_eq] at hlt
    exact .inr (by omega)

/-- A block between instruction starts covers the instructions that start in it. -/
theorem contains_iff_spans {code : Code} {t : FlagTable} (hrec : Recorded code t)
    (htiled : Tiled code) {b : TryBlock} (hstart : IsStart code b.start.toNat)
    (hstop : IsStart code b.stop ∨ b.stop = code.size) (o : ℕ) :
    b.Contains o ↔ ∃ s, b.Contains s ∧ t.Spans s o := by
  have hend : b.stop ≤ code.size := by
    rcases hstop with hop | hend
    · exact (lt_size_of_mem_startsFrom ((isStart_iff code _).mp hop)).le
    · exact hend.le
  constructor
  · intro ho
    obtain ⟨s, hs⟩ := exists_spans hrec htiled (lt_of_lt_of_le ho.2 hend)
    have hfirst := hs.le_or_le hrec hstart
    have hle := hs.2.1
    refine ⟨s, ⟨?_, by have := ho.2; omega⟩, hs⟩
    have := ho.1
    omega
  · rintro ⟨s, hcontains, hs⟩
    have hle := hs.2.1
    refine ⟨hcontains.1.trans hle, ?_⟩
    -- the instruction ends with the code, or before the instruction behind the block
    rcases hstop with hop | hend
    · have hlast := hs.le_or_le hrec hop
      have := hcontains.2
      omega
    · have hinside := add_startWidth_le ((isStart_iff code s).mp ((hrec.isOpcode_iff s).mp hs.1))
      have hlt := hs.2.2
      rw [hrec.width_eq] at hlt
      omega

/-! ## Counting units -/

/-- Disjoint blocks have as many units as their counts say. -/
theorem card_contains {n : ℕ} {blocks : List TryBlock}
    (hapart : blocks.Pairwise fun s t => s.stop ≤ t.start.toNat)
    (hinside : ∀ b ∈ blocks, b.stop ≤ n) :
    ((Finset.range n).filter fun o => ∃ b ∈ blocks, b.Contains o).card
      = (blocks.map fun b => b.count.toNat).sum := by
  induction blocks with
  | nil => simp
  | cons b blocks ih =>
    rw [List.pairwise_cons] at hapart
    rw [List.forall_mem_cons] at hinside
    -- the units of the first block come before those of the others
    have hsplit : ((Finset.range n).filter fun o => ∃ c ∈ b :: blocks, c.Contains o)
        = Finset.Ico b.start.toNat b.stop
          ∪ (Finset.range n).filter fun o => ∃ c ∈ blocks, c.Contains o := by
      ext o
      simp only [Finset.mem_filter, Finset.mem_range, List.exists_mem_cons_iff, Finset.mem_union,
        Finset.mem_Ico]
      have hb : b.Contains o ↔ b.start.toNat ≤ o ∧ o < b.stop := Iff.rfl
      constructor
      · rintro ⟨hlt, hfirst | hrest⟩
        · exact .inl (hb.mp hfirst)
        · exact .inr ⟨hlt, hrest⟩
      · rintro (hfirst | ⟨hlt, hrest⟩)
        · exact ⟨lt_of_lt_of_le hfirst.2 hinside.1, .inl (hb.mpr hfirst)⟩
        · exact ⟨hlt, .inr hrest⟩
    have hdisjoint : Disjoint (Finset.Ico b.start.toNat b.stop)
        ((Finset.range n).filter fun o => ∃ c ∈ blocks, c.Contains o) := by
      rw [Finset.disjoint_left]
      intro o hfirst hrest
      obtain ⟨c, hc, hcontains⟩ := (Finset.mem_filter.mp hrest).2
      have hlt := (Finset.mem_Ico.mp hfirst).2
      have hle := hapart.1 c hc
      have := hcontains.1
      omega
    have hcount : b.stop - b.start.toNat = b.count.toNat :=
      Nat.add_sub_cancel_left ..
    rw [hsplit, Finset.card_union_of_disjoint hdisjoint, Nat.card_Ico, hcount, ih hapart.2 hinside.2,
      List.map_cons, List.sum_cons]

namespace Analysis

theorem words_eq_map (t : FlagTable) : t.words.toList = (List.range t.size).map t.wordAt := by
  apply List.ext_getElem?
  intro i
  rw [List.getElem?_map, Array.getElem?_toList]
  by_cases hi : i < t.size
  · rw [FlagTable.getElem?_words hi, List.getElem?_range hi]
    rfl
  · rw [Array.getElem?_eq_none (by rw [← FlagTable.size]; omega),
      List.getElem?_eq_none (by rw [List.length_range]; omega)]
    rfl

/-- The flag words of the units are those of the table, if it has one for each unit. -/
theorem map_units {a : Analysis} (hsize : a.table.size = a.method.code.size) :
    a.units.map (fun u => u.2.1) = (List.range a.table.size).map a.table.wordAt := by
  have hlen : a.table.words.toList.length ≤ a.method.code.toList.length := by
    rw [Array.length_toList, Array.length_toList, ← FlagTable.size, hsize]
  calc a.units.map (fun u => u.2.1)
      = (a.table.words.toList.zip a.method.code.toList).zipIdx.map (fun p => p.1.1) := by
        rw [units, List.map_map]
        rfl
    _ = (a.table.words.toList.zip a.method.code.toList).map (·.1) := by
        rw [show (fun p : (FlagWord × UInt16) × ℕ => p.1.1) = (·.1) ∘ (·.1) from rfl,
          ← List.map_map, List.zipIdx_map_fst]
    _ = a.table.words.toList := List.map_fst_zip hlen
    _ = (List.range a.table.size).map a.table.wordAt := words_eq_map a.table

/-- The units in try blocks are counted over the table. -/
theorem inTryUnits_eq_card {a : Analysis} (hsize : a.table.size = a.method.code.size) :
    a.stats.inTryUnits
      = ((Finset.range a.table.size).filter fun o => (a.table.wordAt o).has .inTry = true).card := by
  have hcount : a.stats.inTryUnits = (a.units.map fun u => u.2.1).countP (·.has .inTry) := by
    rw [List.countP_map]
    rfl
  rw [hcount, map_units hsize, List.countP_map, List.countP_eq_length_filter,
    ← List.toFinset_card_of_nodup (List.nodup_range.filter _), List.toFinset_filter,
    List.toFinset_range]
  rfl

end Analysis

/-! ## Accepted code items -/

/-- The table of an accepted method has the widths of its instructions and the units of its try
blocks. -/
theorem table_of_preAnalyze {config : Config} {m : Method} {a : Analysis}
    (h : (preAnalyze config m).result = .ok a) :
    a.method = m ∧ Recorded m.code a.table ∧ ∀ o < m.code.size,
      ((a.table.wordAt o).has .inTry = true ↔ ∃ b ∈ m.tries, b.Contains o) := by
  obtain ⟨t, targets, heffect, hrec, hword, hmem⟩ :=
    all_wellFormed (wellFormed_of_preAnalyze h) config.gcPoints
  rw [preAnalyze_result, heffect] at h
  cases h
  have hwidths := ((FlagTable.SameWidths.markBlocks t m.tries).trans
    (FlagTable.SameWidths.markEach _ .branchTarget (0 :: targets))).trans
    (sameWidths_withGcPoints m config.gcPoints _)
  refine ⟨rfl, hrec.of_sameWidths hwidths, fun o ho => ?_⟩
  rw [FlagWord.has_eq_getLsbD]
  exact (flags_of_words hrec hword hmem config.gcPoints ho).inTry

/-- The try blocks and handlers of a code item fit the instructions of a flag table. -/
structure ExceptionTable (c : CodeItem) (t : FlagTable) : Prop where
  /-- The handlers of a try block start at instructions. -/
  tryHandlers : ∀ b ∈ c.tries, ∀ h ∈ b.handlers,
    h.addr.toNat < c.code.size ∧ t.isOpcode h.addr.toNat = true
  /-- So do those of all lists, whether or not a block refers to them. -/
  listHandlers : ∀ hs ∈ c.handlerLists, ∀ h ∈ hs,
    h.addr.toNat < c.code.size ∧ t.isOpcode h.addr.toNat = true
  /-- No unit belongs to two blocks. -/
  disjoint : c.tries.Pairwise fun b b' => ∀ o, ¬ (b.Contains o ∧ b'.Contains o)
  /-- A block has a unit. -/
  nonempty : ∀ b ∈ c.tries, ∃ o, b.Contains o
  /-- A block is the union of the instructions that start in it. -/
  whole : ∀ b ∈ c.tries, ∀ o, b.Contains o ↔ ∃ s, b.Contains s ∧ t.Spans s o

/-- A code item has been read, and the method that it belongs to has been accepted. Then the
handlers of its blocks and lists start at instructions of the returned table, its blocks are
disjoint and cover whole instructions, and the units marked as inside a block are as many as the
counts of the blocks say. -/
theorem exceptionTable_of_parse {bytes : List UInt8} {c : CodeItem}
    (hparse : CodeItem.parse bytes = .ok c) {className name proto : String} {config : Config}
    {a : Analysis}
    (haccepted : (preAnalyze config (c.toMethod className name proto)).result = .ok a) :
    ExceptionTable c a.table ∧
      a.stats.inTryUnits = (c.tries.map fun b => b.count.toNat).sum := by
  have hwf := wellFormed_of_preAnalyze haccepted
  obtain ⟨hmethod, hrec, hinTry⟩ := table_of_preAnalyze haccepted
  obtain ⟨hlists, hsorted⟩ := CodeItem.tries_of_parse hparse
  have hapart := TryBlock.pairwise_of_sorted hsorted
  have hstop : ∀ b ∈ c.tries, b.stop ≤ c.code.size := fun b hb =>
    hrec.size_eq ▸ ((hrec.goodTry_iff b).mpr (hwf.tries b hb)).stop_le
  have hhandler : ∀ hs ∈ c.handlerLists, ∀ h ∈ hs,
      h.addr.toNat < c.code.size ∧ a.table.isOpcode h.addr.toNat = true := by
    intro hs hmem h hh
    have hstart := hwf.handlers hs hmem h hh
    exact ⟨lt_size_of_mem_startsFrom ((isStart_iff c.code _).mp hstart),
      (hrec.isOpcode_iff _).mpr hstart⟩
  refine ⟨⟨?_, hhandler, ?_, ?_, ?_⟩, ?_⟩
  · intro b hb
    exact hhandler b.handlers (hlists b hb)
  · refine hapart.imp fun hle o hboth => ?_
    have := hboth.1.2
    have := hboth.2.1
    omega
  · intro b hb
    have hpos : 0 < b.count.toNat := (hwf.tries b hb).1
    exact ⟨b.start.toNat, le_refl _, Nat.lt_add_of_pos_right hpos⟩
  · intro b hb
    obtain ⟨-, hstart, hend⟩ := hwf.tries b hb
    exact contains_iff_spans hrec hwf.tiled hstart hend
  · have hsize : a.table.size = a.method.code.size := by
      rw [hmethod, hrec.size_eq]
    have hmarked : ((Finset.range a.table.size).filter fun o => (a.table.wordAt o).has .inTry = true)
        = (Finset.range c.code.size).filter fun o => ∃ b ∈ c.tries, b.Contains o := by
      rw [hrec.size_eq]
      exact Finset.filter_congr fun o ho => hinTry o (Finset.mem_range.mp ho)
    rw [Analysis.inTryUnits_eq_card hsize, hmarked, card_contains hapart hstop]

/-- Two try blocks with the first of two handler lists, to the second of which nothing refers. -/
def twoListBytes : List UInt8 :=
  [1, 0, 0, 0, 0, 0, 2, 0, 0, 0, 0, 0, 4, 0, 0, 0, 0x22, 0, 0, 0, 0, 0, 0x0e, 0,
    0, 0, 0, 0, 2, 0, 1, 0, 2, 0, 0, 0, 1, 0, 1, 0, 2, 1, 5, 3, 0, 2]

theorem exceptionTable_of_twoListBytes :
    let c : CodeItem := { registers := 1, ins := 0, outs := 0, debugInfo := 0
                          code := #[0x0022, 0, 0, 0x000e]
                          tries := [⟨0, 2, [⟨5, 3⟩]⟩, ⟨2, 1, [⟨5, 3⟩]⟩]
                          handlerLists := [[⟨5, 3⟩], [⟨0xffffffff, 2⟩]], size := 46 }
    let a : Analysis := ⟨c.toMethod "LA;" "f" "()V",
      ⟨#[⟨0x70002#32⟩, ⟨0x10000#32⟩, ⟨0x10001#32⟩, ⟨0x40001#32⟩]⟩, 1⟩
    CodeItem.parse twoListBytes = .ok c ∧
      (preAnalyze {} (c.toMethod "LA;" "f" "()V")).result = .ok a ∧
      ExceptionTable c a.table ∧ a.stats.inTryUnits = 3 := by
  intro c a
  have hparse : CodeItem.parse twoListBytes = .ok c := by decide +kernel
  have haccepted : (preAnalyze {} (c.toMethod "LA;" "f" "()V")).result = .ok a := by decide +kernel
  exact ⟨hparse, haccepted, exceptionTable_of_parse hparse haccepted⟩

end Dalvik
