import Mathlib
import Dalvik.Check.Basic

/-!
# Flag words bit by bit, and tables word by word

A flag word is thirty-two bits. The lemmas below say which of them each operation writes, and
read the width and the marks off the bits. For tables, `wordAt` is a total accessor, so that a
write is an equation between words at all offsets:

* `getLsbD_put`, `getLsbD_setWidth`, `getLsbD_reset`: what the operations on words write;
* `wordAt_modify`, `wordAt_reset`, `wordAt_markRange`, `wordAt_markEach`: what the operations on
  tables write;
* `SameWidths`, the frame of every pass but the width scan.
-/

namespace Dalvik

/-! ## Words -/

namespace Mark

theorem bit_lt (m : Mark) : m.bit < 32 := by
  cases m <;> decide

/-- No mark lies in the field of the width. -/
theorem sixteen_le_bit (m : Mark) : 16 ≤ m.bit := by
  cases m <;> decide

/-- Different marks have different bits. -/
theorem bit_inj {m n : Mark} (h : m.bit = n.bit) : m = n := by
  cases m <;> cases n <;> first | rfl | exact absurd h (by decide)

/-- The mask of a mark has the one bit. -/
theorem getLsbD_mask (m : Mark) (k : ℕ) : m.mask.getLsbD k = decide (k = m.bit) := by
  have hbit := m.bit_lt
  rw [mask, BitVec.getLsbD_shiftLeft, BitVec.getLsbD_one]
  by_cases hk : k = m.bit
  · subst hk
    simp [hbit]
  · simp only [hk, decide_false]
    by_cases hlt : k < m.bit
    · simp [hlt]
    -- one shifted up has no bit but the lowest
    · have hne : k - m.bit ≠ 0 := by omega
      simp [hne]

end Mark

namespace FlagWord

theorem ext_bits {w v : FlagWord} (h : ∀ k, w.bits.getLsbD k = v.bits.getLsbD k) : w = v := by
  cases w
  cases v
  congr 1
  exact BitVec.eq_of_getLsbD_eq fun i _ => h i

theorem getLsbD_zero (k : ℕ) : zero.bits.getLsbD k = false := by
  simp [zero]

/-- The width stands in the lower half of the word. -/
theorem getLsbD_widthMask (k : ℕ) : widthMask.getLsbD k = decide (k < 16) := by
  have hmask : widthMask = BitVec.ofNat 32 (2 ^ 16 - 1) := by rfl
  rw [hmask, BitVec.getLsbD_ofNat, Nat.testBit_two_pow_sub_one]
  by_cases hk : k < 16
  · simp [hk, show k < 32 by omega]
  · simp [hk]

/-- A word has a mark if and only if the bit is set. -/
theorem has_eq_getLsbD (w : FlagWord) (m : Mark) : w.has m = w.bits.getLsbD m.bit := by
  have hbits : ∀ k, (w.bits &&& m.mask).getLsbD k = (w.bits.getLsbD k && decide (k = m.bit)) := by
    intro k
    rw [BitVec.getLsbD_and, Mark.getLsbD_mask]
  -- the mask leaves one bit of the word, so the word is zero when that bit is
  unfold has
  cases hb : w.bits.getLsbD m.bit
  · have hzero : w.bits &&& m.mask = 0#32 := by
      apply BitVec.eq_of_getLsbD_eq
      intro k _
      rw [hbits, BitVec.getLsbD_zero]
      by_cases hk : k = m.bit
      · rw [hk, hb, Bool.false_and]
      · simp [hk]
    rw [hzero]
    rfl
  · have hne : w.bits &&& m.mask ≠ 0#32 := by
      intro hzero
      have hbit := hbits m.bit
      rw [hzero, hb] at hbit
      simp at hbit
    simpa using hne

/-- The width is the number in the low sixteen bits. -/
theorem width_eq_mod (w : FlagWord) : w.width = w.bits.toNat % 65536 := by
  have hmask : widthMask.toNat = 2 ^ 16 - 1 := by rfl
  rw [width, BitVec.toNat_and, hmask, Nat.and_two_pow_sub_one_eq_mod]

/-- The width is the number in the lower half of the word. -/
theorem testBit_width (w : FlagWord) (k : ℕ) :
    w.width.testBit k = (decide (k < 16) && w.bits.getLsbD k) := by
  rw [width_eq_mod, show 65536 = 2 ^ 16 from rfl, Nat.testBit_mod_two_pow]
  rfl

/-- Words that agree in the low sixteen bits have the same width. -/
theorem width_congr {w v : FlagWord} (h : ∀ k < 16, w.bits.getLsbD k = v.bits.getLsbD k) :
    w.width = v.width := by
  apply Nat.eq_of_testBit_eq
  intro k
  rw [testBit_width, testBit_width]
  by_cases hk : k < 16
  · rw [h k hk]
  · simp [hk]

/-! ### What the operations write -/

/-- Putting a mark writes one bit. -/
theorem getLsbD_put (w : FlagWord) (m : Mark) (on : Bool) (k : ℕ) :
    (w.put m on).bits.getLsbD k = if k = m.bit then on else w.bits.getLsbD k := by
  have hbit := m.bit_lt
  cases on
  · show (w.bits &&& ~~~m.mask).getLsbD k = _
    rw [BitVec.getLsbD_and, BitVec.getLsbD_not, Mark.getLsbD_mask]
    by_cases hk : k = m.bit
    · simp [hk]
    · by_cases h32 : k < 32
      · simp [hk, h32]
      -- past the end of the word every bit is off, before and after
      · simp [hk, h32, BitVec.getLsbD_of_ge w.bits k (by omega)]
  · show (w.bits ||| m.mask).getLsbD k = _
    rw [BitVec.getLsbD_or, Mark.getLsbD_mask]
    by_cases hk : k = m.bit
    · simp [hk]
    · simp [hk]

/-- Setting a width writes the lower half of the word. -/
theorem getLsbD_setWidth (w : FlagWord) (n k : ℕ) :
    (w.setWidth n).bits.getLsbD k = if k < 16 then n.testBit k else w.bits.getLsbD k := by
  show ((w.bits &&& ~~~widthMask) ||| (BitVec.ofInt 32 n &&& widthMask)).getLsbD k = _
  rw [BitVec.getLsbD_or, BitVec.getLsbD_and, BitVec.getLsbD_and, BitVec.getLsbD_not,
    getLsbD_widthMask, BitVec.ofInt_natCast, BitVec.getLsbD_ofNat]
  by_cases hk : k < 16
  · simp [hk, show k < 32 by omega]
  · by_cases h32 : k < 32
    · simp [hk, h32]
    · simp [hk, h32, BitVec.getLsbD_of_ge w.bits k (by omega)]

/-- A reset clears the width, the try flag and the branch target. -/
theorem getLsbD_reset (w : FlagWord) (k : ℕ) :
    w.reset.bits.getLsbD k = if k < 18 then false else w.bits.getLsbD k := by
  show (w.bits &&& ~~~(widthMask ||| Mark.inTry.mask ||| Mark.branchTarget.mask)).getLsbD k = _
  rw [BitVec.getLsbD_and, BitVec.getLsbD_not, BitVec.getLsbD_or, BitVec.getLsbD_or,
    getLsbD_widthMask, Mark.getLsbD_mask, Mark.getLsbD_mask]
  show (w.bits.getLsbD k && (decide (k < 32)
    && !(decide (k < 16) || decide (k = 16) || decide (k = 17)))) = _
  -- the three masks together are the bits below the eighteenth
  by_cases hk : k < 18
  · have hcases : k < 16 ∨ k = 16 ∨ k = 17 := by omega
    rcases hcases with h | h | h <;> simp [h, hk]
  · by_cases h32 : k < 32
    · simp [hk, h32, show ¬ k < 16 by omega, show k ≠ 16 by omega, show k ≠ 17 by omega]
    · simp [hk, h32, BitVec.getLsbD_of_ge w.bits k (by omega)]

/-! ### Widths and marks after a write -/

@[simp] theorem width_zero : zero.width = 0 := by rfl

/-- Marks leave the width alone. -/
@[simp] theorem width_put (w : FlagWord) (m : Mark) (on : Bool) : (w.put m on).width = w.width := by
  apply width_congr
  intro k hk
  have hbit := m.sixteen_le_bit
  rw [getLsbD_put, if_neg (by omega)]

/-- A width that fits its field is read back. -/
theorem width_setWidth (w : FlagWord) {n : ℕ} (hn : n ≤ maxWidth) : (w.setWidth n).width = n := by
  apply Nat.eq_of_testBit_eq
  intro k
  rw [testBit_width, getLsbD_setWidth]
  by_cases hk : k < 16
  · simp [hk]
  -- a width that fits has no bit from the sixteenth on
  · have hlt : n < 2 ^ k := by
      calc n < 2 ^ 16 := by
            rw [maxWidth] at hn
            omega
        _ ≤ 2 ^ k := Nat.pow_le_pow_right (by norm_num) (by omega)
    simp [hk, Nat.testBit_eq_false_of_lt hlt]

@[simp] theorem has_zero (m : Mark) : zero.has m = false := by
  rw [has_eq_getLsbD, getLsbD_zero]

/-- A mark is read back, and the other marks stay as they are. -/
theorem has_put (w : FlagWord) (m n : Mark) (on : Bool) :
    (w.put m on).has n = if n = m then on else w.has n := by
  rw [has_eq_getLsbD, has_eq_getLsbD, getLsbD_put]
  by_cases h : n = m
  · rw [h, if_pos rfl, if_pos rfl]
  · rw [if_neg (fun hbit => h (Mark.bit_inj hbit)), if_neg h]

/-- Setting a mark twice sets it once. -/
theorem put_put (w : FlagWord) (m : Mark) : (w.put m true).put m true = w.put m true := by
  apply ext_bits
  intro k
  rw [getLsbD_put, getLsbD_put]
  split <;> rfl

/-- An opcode is a word with a width. -/
theorem isOpcode_iff (w : FlagWord) : w.isOpcode = true ↔ 0 < w.width := by
  rw [isOpcode, bne_iff_ne, Nat.pos_iff_ne_zero]

end FlagWord

/-! ## Tables -/

namespace FlagTable

/-- The word at `i`, zero outside the table. -/
def wordAt (t : FlagTable) (i : ℕ) : FlagWord := t.words[i]?.getD .zero

/-- Beyond the table all words count as empty. -/
theorem wordAt_of_ge {t : FlagTable} {i : ℕ} (h : t.size ≤ i) : t.wordAt i = .zero := by
  rw [wordAt, Array.getElem?_eq_none h]
  rfl

theorem getElem?_words {t : FlagTable} {i : ℕ} (h : i < t.size) :
    t.words[i]? = some (t.wordAt i) := by
  rw [wordAt, Array.getElem?_eq_getElem h]
  rfl

/-- An opcode of a table is an index with a width. -/
theorem isOpcode_iff (t : FlagTable) (i : ℕ) : t.isOpcode i = true ↔ 0 < (t.wordAt i).width := by
  show (t.words[i]?).any (·.isOpcode) = true ↔ _
  by_cases hi : i < t.size
  · rw [getElem?_words hi]
    exact FlagWord.isOpcode_iff _
  · rw [wordAt_of_ge (by omega), Array.getElem?_eq_none (by rw [← size]; omega)]
    simp

/-- Only an index of the table has a width. -/
theorem lt_size_of_width_pos {t : FlagTable} {i : ℕ} (h : 0 < (t.wordAt i).width) :
    i < t.size := by
  by_contra hge
  rw [wordAt_of_ge (by omega)] at h
  simp at h

/-- An opcode lies inside the table. -/
theorem lt_size_of_isOpcode {t : FlagTable} {i : ℕ} (h : t.isOpcode i = true) : i < t.size :=
  lt_size_of_width_pos ((isOpcode_iff t i).mp h)

/-! ### What the operations write -/

@[simp] theorem size_blank (n : ℕ) : (blank n).size = n := by
  rw [size, blank, Array.size_replicate]

@[simp] theorem wordAt_blank (n i : ℕ) : (blank n).wordAt i = .zero := by
  by_cases hi : i < n
  · rw [wordAt, blank, Array.getElem?_replicate, if_pos hi]
    rfl
  · exact wordAt_of_ge (by rw [size_blank]; omega)

@[simp] theorem size_modify (t : FlagTable) (i : ℕ) (f : FlagWord → FlagWord) :
    (t.modify i f).size = t.size := by
  rw [size, modify, Array.size_modify, size]

/-- One word is changed, if the table has it. -/
theorem wordAt_modify (t : FlagTable) (i j : ℕ) (f : FlagWord → FlagWord) :
    (t.modify i f).wordAt j = if j = i ∧ i < t.size then f (t.wordAt i) else t.wordAt j := by
  rw [wordAt, modify, Array.getElem?_modify]
  by_cases hj : j = i
  · subst hj
    by_cases hi : j < t.size
    · rw [if_pos rfl, if_pos ⟨rfl, hi⟩, getElem?_words hi]
      rfl
    · rw [if_pos rfl, if_neg (fun h => hi h.2), wordAt,
        Array.getElem?_eq_none (by rw [← size]; omega)]
      rfl
  · rw [if_neg (fun h => hj h.symm), if_neg (fun h => hj h.1), wordAt]

@[simp] theorem size_reset (t : FlagTable) : t.reset.size = t.size := by
  rw [size, reset, Array.size_map, size]

/-- All words are reset. -/
theorem wordAt_reset (t : FlagTable) (i : ℕ) : t.reset.wordAt i = (t.wordAt i).reset := by
  rw [wordAt, reset, Array.getElem?_map, wordAt]
  cases t.words[i]? with
  | none => rfl
  | some w => rfl

@[simp] theorem size_mark (t : FlagTable) (m : Mark) (i : ℕ) : (t.mark m i).size = t.size :=
  size_modify t i _

/-- One word is marked, if the table has it. -/
theorem wordAt_mark (t : FlagTable) (m : Mark) (i j : ℕ) :
    (t.mark m i).wordAt j
      = if j = i ∧ i < t.size then (t.wordAt j).put m true else t.wordAt j := by
  rw [mark, wordAt_modify]
  by_cases hj : j = i
  · rw [hj]
  · rw [if_neg (fun h => hj h.1), if_neg (fun h => hj h.1)]

@[simp] theorem size_markRange (t : FlagTable) (m : Mark) (i n : ℕ) :
    (t.markRange m i n).size = t.size := by
  induction n generalizing t i with
  | zero => rfl
  | succ n ih => rw [markRange, ih, size_mark]

/-- The words of the range are marked, as far as the table has them. -/
theorem wordAt_markRange (t : FlagTable) (m : Mark) (i n j : ℕ) :
    (t.markRange m i n).wordAt j
      = if i ≤ j ∧ j < i + n ∧ j < t.size then (t.wordAt j).put m true else t.wordAt j := by
  induction n generalizing t i with
  | zero => rw [markRange, if_neg (by omega)]
  | succ n ih =>
    rw [markRange, ih, size_mark, wordAt_mark]
    -- the first unit is marked here, the others by the rest of the range
    by_cases hji : j = i
    · rw [if_neg (by omega)]
      by_cases hlt : j < t.size
      · rw [if_pos ⟨hji, hji ▸ hlt⟩, if_pos (by omega)]
      · rw [if_neg (by omega), if_neg (by omega)]
    · rw [if_neg (fun h : j = i ∧ i < t.size => hji h.1)]
      by_cases hin : i + 1 ≤ j ∧ j < i + 1 + n ∧ j < t.size
      · rw [if_pos hin, if_pos (by omega)]
      · rw [if_neg hin, if_neg (by omega)]

/-- The table with a mark at every listed address. -/
def markEach (t : FlagTable) (m : Mark) (addrs : List ℕ) : FlagTable := addrs.foldl (·.mark m) t

@[simp] theorem size_markEach (t : FlagTable) (m : Mark) (addrs : List ℕ) :
    (t.markEach m addrs).size = t.size := by
  induction addrs generalizing t with
  | nil => rfl
  | cons a rest ih => rw [markEach, List.foldl_cons, ← markEach, ih, size_mark]

/-- The words at the listed addresses are marked, as far as the table has them. -/
theorem wordAt_markEach (t : FlagTable) (m : Mark) (addrs : List ℕ) (j : ℕ) :
    (t.markEach m addrs).wordAt j
      = if j ∈ addrs ∧ j < t.size then (t.wordAt j).put m true else t.wordAt j := by
  induction addrs generalizing t with
  | nil => simp [markEach]
  | cons a rest ih =>
    rw [markEach, List.foldl_cons, ← markEach, ih, size_mark, wordAt_mark]
    simp only [List.mem_cons]
    -- an address may be listed again further on
    by_cases hja : j = a
    · subst hja
      by_cases hlt : j < t.size
      · simp [hlt, FlagWord.put_put]
      · simp [hlt]
    · simp [hja]

/-- The bits of a word after marking several units. -/
theorem getLsbD_markEach (t : FlagTable) (k : Mark) (addrs : List ℕ) (o i : ℕ) :
    ((t.markEach k addrs).wordAt o).bits.getLsbD i = true ↔
      (i = k.bit ∧ o ∈ addrs ∧ o < t.size) ∨ (t.wordAt o).bits.getLsbD i = true := by
  rw [wordAt_markEach]
  by_cases hmem : o ∈ addrs ∧ o < t.size
  · rw [if_pos hmem, FlagWord.getLsbD_put]
    by_cases hi : i = k.bit
    · rw [if_pos hi]
      exact ⟨fun _ => .inl ⟨hi, hmem⟩, fun _ => rfl⟩
    · rw [if_neg hi]
      exact ⟨.inr, fun h => h.resolve_left fun h' => hi h'.1⟩
  · rw [if_neg hmem]
    exact ⟨.inr, fun h => h.resolve_left fun h' => hmem h'.2⟩

/-! ### Tables with the same widths -/

/-- The tables have the same size and the same width at every offset. -/
structure SameWidths (t t' : FlagTable) : Prop where
  size_eq : t.size = t'.size
  width_eq : ∀ i, (t.wordAt i).width = (t'.wordAt i).width

namespace SameWidths

theorem refl (t : FlagTable) : SameWidths t t := ⟨rfl, fun _ => rfl⟩

theorem trans {t t' t'' : FlagTable} (h : SameWidths t t') (h' : SameWidths t' t'') :
    SameWidths t t'' :=
  ⟨h.size_eq.trans h'.size_eq, fun i => (h.width_eq i).trans (h'.width_eq i)⟩

/-- Marking a range leaves the widths alone. -/
theorem markRange (t : FlagTable) (m : Mark) (i n : ℕ) : SameWidths t (t.markRange m i n) := by
  refine ⟨(size_markRange t m i n).symm, fun j => ?_⟩
  rw [wordAt_markRange]
  split
  · rw [FlagWord.width_put]
  · rfl

/-- Marking addresses leaves the widths alone. -/
theorem markEach (t : FlagTable) (m : Mark) (addrs : List ℕ) :
    SameWidths t (t.markEach m addrs) := by
  refine ⟨(size_markEach t m addrs).symm, fun j => ?_⟩
  rw [wordAt_markEach]
  split
  · rw [FlagWord.width_put]
  · rfl

/-- Opcodes are told by widths alone. -/
theorem isOpcode_eq {t t' : FlagTable} (h : SameWidths t t') (off : Int) :
    t.isOpcode off = t'.isOpcode off := by
  cases off with
  | ofNat i =>
    rw [Bool.eq_iff_iff]
    show t.isOpcode (i : Int) = true ↔ t'.isOpcode (i : Int) = true
    rw [isOpcode_iff, isOpcode_iff, h.width_eq i]
  | negSucc n => rfl

end SameWidths

end FlagTable

end Dalvik
