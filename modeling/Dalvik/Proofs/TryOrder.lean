import Mathlib
import Dalvik.Proofs.ExceptionTable

/-!
# Try blocks in order

The order of try blocks is checked between neighbours only, and it is checked twice: no block starts
before the one in front of it, and none starts before the end of that one. Together the two checks
decide a statement about all pairs, in exact arithmetic: of any two blocks the earlier one ends
before the later one starts (`triesSorted_iff_apart`).

A start has 32 bits, so an end can have 33. The check can be made in words of 64 bits, on a signed
difference of starts and on an end that is added up after widening; nothing wraps there
(`sortedInWords_eq_sorted`).
-/

namespace Dalvik
namespace TryBlock

/-! ## All pairs -/

/-- Of any two blocks, the earlier one ends before the later one starts. -/
def Apart (tries : List TryBlock) : Prop :=
  ∀ i j (hij : i < j) (hj : j < tries.length),
    tries[i].start.toNat + tries[i].count.toNat ≤ tries[j].start.toNat

/-- Neighbours that are apart keep the blocks before them apart from those behind them, since a
block does not end before it starts. -/
theorem sorted_iff_apart (tries : List TryBlock) : sorted tries = true ↔ Apart tries := by
  constructor
  · intro h i j hij hj
    exact List.pairwise_iff_getElem.mp (pairwise_of_sorted h) i j (hij.trans hj) hj hij
  · intro h
    rw [sorted_iff_isChain]
    apply List.Pairwise.isChain
    rw [List.pairwise_iff_getElem]
    intro i j _ hj hij
    exact h i j hij hj

/-! ## Words of 64 bits -/

/-- The exclusive end of a block, added up in 64 bits. -/
def stopWord (t : TryBlock) : UInt64 := t.start.toUInt64 + t.count.toUInt64

/-- How the start of `t` compares with the start of `s`: negative if it comes before. -/
def startDifference (t s : TryBlock) : Int64 :=
  Int64.ofNat t.start.toNat - Int64.ofNat s.start.toNat

/-- Every block with the one behind it. -/
def neighbours (tries : List TryBlock) : List (TryBlock × TryBlock) := tries.zip tries.tail

/-- The check in words: no start before the start in front of it, and none before the end. -/
def sortedInWords (tries : List TryBlock) : Bool :=
  (neighbours tries).all (fun (s, t) => !decide (startDifference t s < 0)) &&
    !(neighbours tries).any (fun (s, t) => decide (t.start.toUInt64 < s.stopWord))

/-- An end does not wrap. -/
theorem toNat_stopWord (t : TryBlock) : t.stopWord.toNat = t.stop := by
  have hstart := t.start.toNat_lt
  have hcount := t.count.toNat_lt
  rw [stopWord, UInt64.toNat_add, UInt32.toNat_toUInt64, UInt16.toNat_toUInt64]
  exact Nat.mod_eq_of_lt (by omega)

/-- A difference does not wrap. -/
theorem startDifference_neg_iff (t s : TryBlock) : startDifference t s < 0 ↔ t.start < s.start := by
  have ht := t.start.toNat_lt
  have hs := s.start.toNat_lt
  have hexact : ((t.start.toNat : ℤ) - s.start.toNat).bmod (2 ^ 64)
      = t.start.toNat - s.start.toNat := by
    apply Int.bmod_eq_of_le <;> omega
  have hzero : (0 : Int64).toInt = 0 := rfl
  rw [Int64.lt_iff_toInt_lt, startDifference, Int64.toInt_sub,
    Int64.toInt_ofNat_of_lt (by omega), Int64.toInt_ofNat_of_lt (by omega), hexact, hzero,
    UInt32.lt_iff_toNat_lt]
  omega

theorem lt_stopWord_iff (t s : TryBlock) :
    t.start.toUInt64 < s.stopWord ↔ t.start.toNat < s.stop := by
  rw [UInt64.lt_iff_toNat_lt, toNat_stopWord, UInt32.toNat_toUInt64]

theorem startsAscend_eq_all (tries : List TryBlock) :
    startsAscend tries
      = (neighbours tries).all fun (s, t) => !decide (startDifference t s < 0) := by
  induction tries with
  | nil => rfl
  | cons s rest ih =>
    cases rest with
    | nil => rfl
    | cons t rest =>
      have hle : decide (s.start ≤ t.start) = !decide (t.start < s.start) := by
        rw [← decide_not, decide_eq_decide, UInt32.not_lt]
      rw [startsAscend, ih, hle]
      simp [neighbours, startDifference_neg_iff]

theorem overlap_eq_any (tries : List TryBlock) :
    overlap tries = (neighbours tries).any fun (s, t) => decide (t.start.toUInt64 < s.stopWord) := by
  induction tries with
  | nil => rfl
  | cons s rest ih =>
    cases rest with
    | nil => rfl
    | cons t rest =>
      rw [overlap, ih]
      simp [neighbours, lt_stopWord_iff]

/-- The check in words is the exact check. -/
theorem sortedInWords_eq_sorted (tries : List TryBlock) : sortedInWords tries = sorted tries := by
  rw [sortedInWords, ← startsAscend_eq_all, ← overlap_eq_any, sorted]

end TryBlock

/-- The order of the try blocks of a method decides that they are pairwise apart in exact arithmetic,
whatever their starts and counts are, and so does the check in words. -/
theorem Method.triesSorted_iff_apart (m : Method) :
    (m.triesSorted = true ↔ TryBlock.Apart m.tries) ∧
      (TryBlock.sortedInWords m.tries = true ↔ TryBlock.Apart m.tries) := by
  rw [TryBlock.sortedInWords_eq_sorted]
  exact ⟨TryBlock.sorted_iff_apart m.tries, TryBlock.sorted_iff_apart m.tries⟩

/-- Two blocks that meet at the last address are in order. Two others overlap, although the end of
the first one, cut to 32 bits, would be 2. -/
example :
    TryBlock.sorted [⟨0xfffffff0, 0x0f, []⟩, ⟨0xffffffff, 1, []⟩] = true ∧
    TryBlock.sorted [⟨0xfffffffe, 4, []⟩, ⟨0xffffffff, 1, []⟩] = false := by
  decide

end Dalvik
