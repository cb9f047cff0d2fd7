import Mathlib
import Dalvik.Proofs.FlagTable

/-!
# Flag tables under any history of writes

A flag word packs the width and five marks into thirty-two bits. Nothing of that shows: after any
series of writes, each field of each word holds what was last written to it, as if it were stored
on its own, and the bits that belong to no field are never touched.

* `writeAll?_spec`: a series of writes acts on every word by itself;
* `read_onWord`: one write changes the fields that it names and no other;
* `read_onWords`: so a field of a word holds the `latest` of what was written to it.
-/

namespace Dalvik

/-! ## Fields of a word -/

namespace FlagWord

/-- The fields of a flag word. -/
inductive Field where
  | width
  | mark (m : Mark)
  deriving DecidableEq, Repr

/-- What a field holds: a number for the width, a truth value for a mark. -/
abbrev Field.Value : Field → Type
  | width => ℕ
  | mark _ => Bool

/-- The value of a field. -/
def read (w : FlagWord) : (f : Field) → f.Value
  | .width => w.width
  | .mark m => w.has m

/-- Only the low sixteen bits of a width are recorded. -/
theorem setWidth_emod (w : FlagWord) (width : ℤ) :
    w.setWidth width = w.setWidth ((width % 65536).toNat : ℕ) := by
  have hmask : widthMask.toNat = 2 ^ 16 - 1 := by rfl
  have hlow : BitVec.ofInt 32 width &&& widthMask
      = BitVec.ofInt 32 ((width % 65536).toNat : ℕ) &&& widthMask := by
    apply BitVec.eq_of_toNat_eq
    rw [BitVec.toNat_and, BitVec.toNat_and, hmask, Nat.and_two_pow_sub_one_eq_mod,
      Nat.and_two_pow_sub_one_eq_mod, BitVec.toNat_ofInt, BitVec.toNat_ofInt]
    omega
  rw [setWidth, setWidth, hlow]

/-- A width of any size and sign is recorded modulo 2^16. -/
theorem width_setWidth_int (w : FlagWord) (width : ℤ) :
    (w.setWidth width).width = (width % 65536).toNat := by
  rw [setWidth_emod]
  apply width_setWidth
  rw [maxWidth]
  omega

/-- A width leaves every bit above its field alone. -/
theorem getLsbD_setWidth_int (w : FlagWord) (width : ℤ) {k : ℕ} (hk : 16 ≤ k) :
    (w.setWidth width).bits.getLsbD k = w.bits.getLsbD k := by
  rw [setWidth_emod, getLsbD_setWidth, if_neg (by omega)]

theorem has_setWidth (w : FlagWord) (width : ℤ) (m : Mark) :
    (w.setWidth width).has m = w.has m := by
  rw [has_eq_getLsbD, has_eq_getLsbD, getLsbD_setWidth_int w width m.sixteen_le_bit]

theorem width_reset (w : FlagWord) : w.reset.width = 0 := by
  show w.reset.width = zero.width
  apply width_congr
  intro k hk
  rw [getLsbD_reset, if_pos (by omega), getLsbD_zero]

/-- A reset clears the marks that a width scan starts from zero. -/
theorem has_reset (w : FlagWord) (m : Mark) :
    w.reset.has m = if m = .inTry ∨ m = .branchTarget then false else w.has m := by
  rw [has_eq_getLsbD, has_eq_getLsbD, getLsbD_reset]
  cases m <;> rfl

end FlagWord

/-! ## Writes -/

namespace FlagTable

open FlagWord (Field)

/-- A write to a table: a width or a mark at an address, or a reset of all words. -/
inductive Write where
  | setWidth (addr : ℤ) (width : ℤ)
  | put (addr : ℤ) (m : Mark) (on : Bool)
  | reset
  deriving DecidableEq, Repr

/-- The table after a write; there is none if the address lies outside. -/
def write? (t : FlagTable) : Write → Option FlagTable
  | .setWidth addr width => t.update? addr (·.setWidth width)
  | .put addr m on => t.update? addr (·.put m on)
  | .reset => some t.reset

/-- The table after a series of writes, the first one first. -/
def writeAll? (t : FlagTable) (ws : List Write) : Option FlagTable := ws.foldlM write? t

namespace Write

/-- The address of a write lies inside a table of `size` words. -/
def InRange (size : ℕ) : Write → Prop
  | setWidth addr _ => 0 ≤ addr ∧ addr < size
  | put addr _ _ => 0 ≤ addr ∧ addr < size
  | reset => True

instance (size : ℕ) : DecidablePred (InRange size)
  | setWidth addr _ => inferInstanceAs (Decidable (0 ≤ addr ∧ addr < size))
  | put addr _ _ => inferInstanceAs (Decidable (0 ≤ addr ∧ addr < size))
  | reset => inferInstanceAs (Decidable True)

/-- What a write leaves in a field of the word at `addr`, if it writes to that at all. A reset
clears the width and the marks for try blocks and branch targets. -/
def leaves? (addr : ℤ) : (f : Field) → Write → Option f.Value
  | .width, setWidth a width => if a = addr then some (width % 65536).toNat else none
  | .width, put _ _ _ => none
  | .width, reset => some 0
  | .mark _, setWidth _ _ => none
  | .mark k, put a m on => if a = addr ∧ m = k then some on else none
  | .mark k, reset => if k = .inTry ∨ k = .branchTarget then some false else none

/-- What a write does to the word at `addr`. -/
def onWord (addr : ℤ) (x : Write) (w : FlagWord) : FlagWord :=
  match x with
  | setWidth a width => if a = addr then w.setWidth width else w
  | put a m on => if a = addr then w.put m on else w
  | reset => w.reset

end Write

/-- What the writes have left in a field of the word at `addr` that held `initial` before: the
value of the last of them that writes to it. -/
def latest (ws : List Write) (addr : ℤ) (f : Field) (initial : f.Value) : f.Value :=
  (ws.reverse.findSome? (Write.leaves? addr f)).getD initial

theorem latest_append (ws : List Write) (x : Write) (addr : ℤ) (f : Field) (initial : f.Value) :
    latest (ws ++ [x]) addr f initial = (x.leaves? addr f).getD (latest ws addr f initial) := by
  rw [latest, List.reverse_concat, List.findSome?_cons]
  cases x.leaves? addr f with
  | none => rfl
  | some v => rfl

/-! ### Tables word by word -/

/-- A write to a word inside the table leaves the other words alone. -/
theorem update?_spec (t : FlagTable) {addr : ℤ} (h : 0 ≤ addr ∧ addr < t.size)
    (f : FlagWord → FlagWord) :
    ∃ t', t.update? addr f = some t' ∧ t'.size = t.size ∧
      ∀ off, t'.word? off = (t.word? off).map fun w => if addr = off then f w else w := by
  obtain ⟨i, rfl⟩ := Int.eq_ofNat_of_zero_le h.1
  have hi : i < t.size := by omega
  refine ⟨t.modify i f, if_pos hi, size_modify t i f, fun off => ?_⟩
  cases off with
  | negSucc n => rfl
  | ofNat j =>
    show (t.words.modify i f)[j]?
      = (t.words[j]?).map fun w => if (i : ℤ) = (j : ℤ) then f w else w
    rw [Array.getElem?_modify]
    by_cases hij : i = j
    · simp [hij]
    · simp [hij]

theorem word?_reset (t : FlagTable) (off : ℤ) :
    t.reset.word? off = (t.word? off).map FlagWord.reset := by
  cases off with
  | negSucc n => rfl
  | ofNat j => exact Array.getElem?_map

/-- A write inside the table is carried out, on every word by itself. -/
theorem write?_spec (t : FlagTable) {x : Write} (h : x.InRange t.size) :
    ∃ t', t.write? x = some t' ∧ t'.size = t.size ∧
      ∀ off, t'.word? off = (t.word? off).map (x.onWord off) := by
  cases x with
  | setWidth addr width => exact update?_spec t h (·.setWidth width)
  | put addr m on => exact update?_spec t h (·.put m on)
  | reset => exact ⟨t.reset, rfl, size_reset t, word?_reset t⟩

/-- What a series of writes does to the word at `addr`. -/
def onWords (ws : List Write) (addr : ℤ) (w : FlagWord) : FlagWord :=
  ws.foldl (fun w x => x.onWord addr w) w

/-- A series of writes inside the table is carried out, on every word by itself. -/
theorem writeAll?_spec (t : FlagTable) {ws : List Write} (h : ∀ x ∈ ws, x.InRange t.size) :
    ∃ t', t.writeAll? ws = some t' ∧ t'.size = t.size ∧
      ∀ off, t'.word? off = (t.word? off).map (onWords ws off) := by
  induction ws generalizing t with
  | nil => exact ⟨t, rfl, rfl, fun off => Option.map_id'.symm⟩
  | cons x ws ih =>
    rw [List.forall_mem_cons] at h
    obtain ⟨t₁, hwrite, hsize₁, hword₁⟩ := write?_spec t h.1
    obtain ⟨t₂, hrest, hsize₂, hword₂⟩ := ih t₁ (by rw [hsize₁]; exact h.2)
    refine ⟨t₂, ?_, hsize₂.trans hsize₁, fun off => ?_⟩
    · rw [writeAll?, List.foldlM_cons, hwrite]
      exact hrest
    · rw [hword₂, hword₁, Option.map_map]
      rfl

/-! ### Words field by field -/

/-- One write changes the fields that it names and no other. -/
theorem read_onWord (x : Write) (addr : ℤ) (w : FlagWord) (f : Field) :
    (x.onWord addr w).read f = (x.leaves? addr f).getD (w.read f) := by
  cases x with
  | setWidth a width =>
    by_cases ha : a = addr
    · cases f with
      | width => simp [Write.onWord, Write.leaves?, FlagWord.read, ha, FlagWord.width_setWidth_int]
      | mark k => simp [Write.onWord, Write.leaves?, FlagWord.read, ha, FlagWord.has_setWidth]
    · cases f <;> simp [Write.onWord, Write.leaves?, ha]
  | put a m on =>
    by_cases ha : a = addr
    · cases f with
      | width => simp [Write.onWord, Write.leaves?, FlagWord.read, ha]
      | mark k =>
        by_cases hk : m = k
        · simp [Write.onWord, Write.leaves?, FlagWord.read, ha, hk, FlagWord.has_put]
        · simp [Write.onWord, Write.leaves?, FlagWord.read, ha, hk, Ne.symm hk, FlagWord.has_put]
    · cases f <;> simp [Write.onWord, Write.leaves?, ha]
  | reset =>
    cases f with
    | width => exact FlagWord.width_reset w
    | mark k =>
      show w.reset.has k
        = (if k = .inTry ∨ k = .branchTarget then some false else none).getD (w.has k)
      rw [FlagWord.has_reset]
      split <;> rfl

/-- No write touches the bits from 19 to 29, which belong to no field. -/
theorem getLsbD_onWord (x : Write) (addr : ℤ) (w : FlagWord) {k : ℕ} (hlow : 19 ≤ k)
    (hhigh : k ≤ 29) : (x.onWord addr w).bits.getLsbD k = w.bits.getLsbD k := by
  cases x with
  | setWidth a width =>
    rw [Write.onWord]
    split
    · exact FlagWord.getLsbD_setWidth_int w width (by omega)
    · rfl
  | put a m on =>
    have hbit : k ≠ m.bit := by
      intro hk
      subst hk
      cases m <;> simp [Mark.bit] at hlow hhigh
    rw [Write.onWord]
    split
    · rw [FlagWord.getLsbD_put, if_neg hbit]
    · rfl
  | reset =>
    rw [Write.onWord, FlagWord.getLsbD_reset, if_neg (by omega)]

/-- A field holds what was last written to it. -/
theorem read_onWords (ws : List Write) (addr : ℤ) (w : FlagWord) (f : Field) :
    (onWords ws addr w).read f = latest ws addr f (w.read f) := by
  induction ws using List.reverseRecOn with
  | nil => rfl
  | append_singleton ws x ih =>
    rw [onWords, List.foldl_concat, ← onWords, read_onWord, ih, latest_append]

theorem getLsbD_onWords (ws : List Write) (addr : ℤ) (w : FlagWord) {k : ℕ} (hlow : 19 ≤ k)
    (hhigh : k ≤ 29) : (onWords ws addr w).bits.getLsbD k = w.bits.getLsbD k := by
  induction ws using List.reverseRecOn with
  | nil => rfl
  | append_singleton ws x ih =>
    rw [onWords, List.foldl_concat, ← onWords, getLsbD_onWord x addr _ hlow hhigh, ih]

/-! ## Histories -/

/-- The word `w'` has kept the history of writes to its address, where `w` stood at first. -/
structure KeepsWrites (ws : List Write) (addr : ℤ) (w w' : FlagWord) : Prop where
  /-- The width is the one that was written or cleared last, or that of the first word. -/
  width : w'.width = latest ws addr .width w.width
  /-- So is every mark. -/
  marks : ∀ m, w'.has m = latest ws addr (.mark m) (w.has m)
  /-- An instruction starts at the words with a width. -/
  opcode : w'.isOpcode = true ↔ w'.width ≠ 0
  /-- The bits that belong to no field are those of the first word. -/
  rest : ∀ k, 19 ≤ k → k ≤ 29 → w'.bits.getLsbD k = w.bits.getLsbD k

theorem keepsWrites_onWords (ws : List Write) (addr : ℤ) (w : FlagWord) :
    KeepsWrites ws addr w (onWords ws addr w) := by
  constructor
  · exact read_onWords ws addr w .width
  · exact fun m => read_onWords ws addr w (.mark m)
  · rw [FlagWord.isOpcode_iff, Nat.pos_iff_ne_zero]
  · exact fun k hlow hhigh => getLsbD_onWords ws addr w hlow hhigh

/-- Every series of writes inside a table, whatever its words, is carried out, and each field of
each word holds what was last written to it. -/
theorem keepsWrites_of_inRange (t : FlagTable) {ws : List Write}
    (h : ∀ x ∈ ws, x.InRange t.size) :
    ∃ t', t.writeAll? ws = some t' ∧ t'.size = t.size ∧
      ∀ addr : ℤ, 0 ≤ addr → addr < t.size →
        ∃ w w', t.word? addr = some w ∧ t'.word? addr = some w' ∧
          KeepsWrites ws addr w w' ∧ (t'.isOpcode addr = true ↔ w'.width ≠ 0) := by
  obtain ⟨t', hwrite, hsize, hword⟩ := writeAll?_spec t h
  refine ⟨t', hwrite, hsize, fun addr hlow hhigh => ?_⟩
  obtain ⟨i, rfl⟩ := Int.eq_ofNat_of_zero_le hlow
  have hw : t.word? (i : ℤ) = some (t.wordAt i) := getElem?_words (by omega)
  have hw' : t'.word? (i : ℤ) = some (onWords ws i (t.wordAt i)) := by
    rw [hword, hw]
    rfl
  have hkeeps := keepsWrites_onWords ws i (t.wordAt i)
  refine ⟨_, _, hw, hw', hkeeps, ?_⟩
  rw [isOpcode, hw']
  exact hkeeps.opcode

/-- Widths of any size and sign and marks of both kinds, with a reset between them, on words that
have all sorts of bits. -/
theorem keepsWrites_interleaved :
    let t : FlagTable := ⟨#[⟨0xbffd1234#32⟩, ⟨0x7ffbffff#32⟩]⟩
    let t' : FlagTable := ⟨#[⟨0xfff90003#32⟩, ⟨0xbff8fffe#32⟩]⟩
    let ws : List Write := [.setWidth 0 7, .put 1 .changed true, .reset, .setWidth 1 (-2),
      .put 0 .gcPoint false, .put 0 .visited true, .setWidth 0 65539, .put 0 .inTry true,
      .put 1 .visited false]
    (∀ x ∈ ws, x.InRange t.size) ∧ t.writeAll? ws = some t' ∧
      ∀ addr : ℤ, 0 ≤ addr → addr < t.size →
        ∃ w w', t.word? addr = some w ∧ t'.word? addr = some w' ∧
          KeepsWrites ws addr w w' ∧ (t'.isOpcode addr = true ↔ w'.width ≠ 0) := by
  intro t t' ws
  have hrange : ∀ x ∈ ws, x.InRange t.size := by decide
  have hwrite : t.writeAll? ws = some t' := by decide +kernel
  obtain ⟨t₁, hwrite₁, -, hkeeps⟩ := keepsWrites_of_inRange t hrange
  rw [hwrite] at hwrite₁
  cases hwrite₁
  exact ⟨hrange, hwrite, hkeeps⟩

end FlagTable

end Dalvik
