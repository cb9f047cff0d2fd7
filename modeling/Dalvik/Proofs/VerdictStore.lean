import Mathlib
import Dalvik.Proofs.WrittenRecord
import Dalvik.Verdict

/-!
# Verdicts that are kept and found again

A verdict is kept as a JSON text and read back from it. Its numbers have to fit into 64 bits; then
nothing is lost (`decode_encode`). With that the store is a map from digests to verdicts of the
current version (`get_put`).
-/

namespace Dalvik

open Json (Value)

/-! ## Verdicts -/

namespace Verdict

open Json.Decoder

/-- The numbers of the verdict fit into 64 bits. -/
structure Fits (v : Verdict) : Prop where
  version : FitsInt64 v.version
  insns : FitsInt64 v.insns
  newInstances : FitsInt64 v.newInstances

/-- The JSON form of a verdict is read as that verdict. -/
theorem reads {v : Verdict} (h : v.Fits) : decoder.Reads v.toJson v := by
  have hfields := ((reads_int64 h.version).part "version").fields.map Verdict.mk
    |>.seq ((reads_bool v.accepted).part "accepted") (by decide +kernel)
    |>.seq (readsPart_textField "code" v.code) (by decide +kernel)
    |>.seq (readsPart_textField "message" v.message) (by decide +kernel)
    |>.seq ((reads_int64 h.insns).part "insns") (by decide +kernel)
    |>.seq ((reads_int64 h.newInstances).part "new_instances") (by decide +kernel)
  rw [toJson, decoder]
  simpa only [List.append_assoc, List.cons_append, List.nil_append] using hfields.record

theorem height_toJson (v : Verdict) : v.toJson.height ≤ 1 := by
  apply Value.height_object_le
  intro f hf
  simp only [List.mem_append, or_assoc] at hf
  obtain hf | hf | hf | hf := hf
  · simp only [List.mem_cons, List.not_mem_nil, or_false] at hf
    rcases hf with rfl | rfl <;> exact Nat.le_refl 0
  · exact (Value.height_of_mem_textField hf).le
  · exact (Value.height_of_mem_textField hf).le
  · simp only [List.mem_cons, List.not_mem_nil, or_false] at hf
    rcases hf with rfl | rfl <;> exact Nat.le_refl 0

/-- What is kept for a verdict is read back as that verdict. -/
theorem decode_encode {v : Verdict} (h : v.Fits) : decode v.encode = .ok v :=
  (reads h).run_compact (v.height_toJson.trans (by decide))

/-- The numbers of a verdict that some bytes hold fit into 64 bits. -/
theorem fits_of_decode {bytes : List UInt8} {v : Verdict} (h : decode bytes = .ok v) :
    v.Fits := by
  unfold decode run at h
  split at h
  · cases h
  · split at h
    · cases h
    · cases h
      exact ⟨fits_value_int64 _, fits_value_int64 _, fits_value_int64 _⟩

end Verdict

/-! ## The store -/

namespace VerdictStore

theorem lookup_filter_ne {key k : Digest} (h : k ≠ key) (records : List (Digest × List UInt8)) :
    (records.filter fun r => r.1 ≠ key).lookup k = records.lookup k := by
  induction records with
  | nil => rfl
  | cons r records ih =>
    by_cases hr : r.1 = key
    -- what is filtered out has the other key
    · have hk : (k == r.1) = false := by
        rw [hr]
        exact beq_false_of_ne h
      rw [List.filter_cons_of_neg (by simp [hr]), ih, List.lookup_cons, hk]
    · rw [List.filter_cons_of_pos (by simp [hr]), List.lookup_cons, List.lookup_cons, ih]

/-- A look-up sees nothing of the store but the bytes under its key. -/
theorem get_congr {s s' : VerdictStore} {k : Digest} (h : s'.getBytes k = s.getBytes k) :
    s'.get k = s.get k := by
  unfold get
  rw [h]

/-- The bytes under the keys of an open store after a verdict has been put into it. -/
theorem getBytes_put {s : VerdictStore} (hs : s.isOpen = true) (key : Digest) (v : Verdict) :
    ∃ s', s.put key v = .ok s' ∧ s'.isOpen = true ∧
      s'.getBytes key = .ok { v with version := Verdict.currentVersion }.encode ∧
      ∀ k, k ≠ key → s'.getBytes k = s.getBytes k := by
  refine ⟨{ s with records :=
    (key, { v with version := Verdict.currentVersion }.encode) :: (s.without key).records },
    ?_, hs, ?_, ?_⟩
  · rw [put, putBytes, if_pos hs]
  · rw [getBytes, if_pos hs, bytes?, List.lookup_cons_self]
  · intro k hk
    have hlookup : bytes? { s with records :=
        (key, { v with version := Verdict.currentVersion }.encode) :: (s.without key).records } k
          = s.bytes? k := by
      rw [bytes?, List.lookup_cons, beq_false_of_ne hk]
      exact lookup_filter_ne hk s.records
    rw [getBytes, getBytes, hlookup]

/-- What is kept for a verdict of the current version is found as that verdict. -/
theorem get_of_encode {s : VerdictStore} {key : Digest} {v : Verdict}
    (h : s.getBytes key = .ok v.encode) (hfits : v.Fits)
    (hversion : v.version = Verdict.currentVersion) : (s.get key).1 = .ok (some v) := by
  unfold get
  simp only [h, Verdict.decode_encode hfits, hversion, ne_eq, not_true_eq_false, if_false]

/-- The current version fits into 64 bits. -/
theorem fits_currentVersion : Json.Decoder.FitsInt64 Verdict.currentVersion := by
  unfold Json.Decoder.FitsInt64
  decide

/-- A verdict that is put into an open store is found there, and the others stay. -/
theorem get_put {s : VerdictStore} (hs : s.isOpen = true) (key : Digest) {v : Verdict}
    (hinsns : Json.Decoder.FitsInt64 v.insns) (hnew : Json.Decoder.FitsInt64 v.newInstances) :
    ∃ s', s.put key v = .ok s' ∧ s'.isOpen = true ∧
      (s'.get key).1 = .ok (some { v with version := Verdict.currentVersion }) ∧
      ∀ k, k ≠ key → (s'.get k).1 = (s.get k).1 := by
  obtain ⟨s', hput, hopen, hkey, hother⟩ := getBytes_put hs key v
  refine ⟨s', hput, hopen, ?_, ?_⟩
  · exact get_of_encode hkey ⟨fits_currentVersion, hinsns, hnew⟩ rfl
  · intro k hk
    rw [get_congr (hother k hk)]

/-- The numbers of a verdict that is found fit into 64 bits, whatever bytes the store holds. -/
theorem fits_of_get {s : VerdictStore} {key : Digest} {v : Verdict}
    (h : (s.get key).1 = .ok (some v)) : v.Fits := by
  unfold get at h
  dsimp only at h
  split at h
  · cases h
  · cases h
  · split at h
    · cases h
    · next hdecode =>
      split at h
      · cases h
      · cases h
        exact Verdict.fits_of_decode hdecode

/-- Nothing is found in an empty store. -/
theorem get_empty (k : Digest) : (get {} k).1 = .ok none := rfl

end VerdictStore
end Dalvik
