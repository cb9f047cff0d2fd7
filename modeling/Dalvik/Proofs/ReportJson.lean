import Mathlib
import Dalvik.Proofs.HexInput
import Dalvik.Proofs.WrittenRecord
import Dalvik.Report.Basic

/-!
# Reports that are read back

A report whose numbers fit into 64 bits (`Report.Fits`) is written as a document that is read back
as the same report, with all fields in their order (`Report.run_document`). Texts, truth values and
lists that hold nothing are left out and read back as empty; the digest is read strictly, from the
characters of its literal.

The reading lemmas follow the types: counts, instructions, handlers, try blocks, the report on a
method, and the report on all of them.
-/

namespace Dalvik

open Json (Value)
open Json.Decoder

/-! ## Digests -/

namespace Json.Decoder

/-- A hexadecimal digit stands as itself in a literal. -/
theorem charBytes_digitChar : ∀ k < 16, charBytes .document (Nat.digitChar k) = [hexByte k] ∧
    Char.ofNat (hexByte k).toNat = Nat.digitChar k := by
  decide +kernel

/-- The digits of some bytes as they stand in a literal. -/
def digitBytes (bytes : List UInt8) : List UInt8 :=
  (bytes.flatMap Bytes.Hex.ofByte).flatMap (charBytes .document)

/-- As characters, the digits of some bytes are their hexadecimal form. -/
theorem map_digitBytes (bytes : List UInt8) :
    (digitBytes bytes).map (fun b => Char.ofNat b.toNat) = bytes.flatMap Bytes.Hex.ofByte := by
  rw [digitBytes, List.flatMap_assoc, List.map_flatMap]
  apply List.flatMap_congr
  intro b _
  have hb := b.toNat_lt
  have hhigh := charBytes_digitChar (b.toNat / 16) (by omega)
  have hlow := charBytes_digitChar (b.toNat % 16) (by omega)
  simp [Bytes.Hex.ofByte, Bytes.Hex.digit, hhigh, hlow]

/-- Every byte has two digits. -/
theorem length_digitBytes (bytes : List UInt8) : (digitBytes bytes).length = 2 * bytes.length := by
  have hlength := congrArg List.length (map_digitBytes bytes)
  rw [List.length_map, (Bytes.Hex.spells_ofByte bytes).length_eq] at hlength
  exact hlength

/-- The literal of a digest holds the mark and the digits. -/
theorem contentBytes_text (d : Digest) :
    contentBytes .document d.text = 0x30 :: 0x78 :: digitBytes d.bytes := by
  have hmark : charBytes .document '0' = [0x30] ∧ charBytes .document 'x' = [0x78] := by
    decide +kernel
  have hdigits : d.digits.toList = d.bytes.flatMap Bytes.Hex.ofByte := String.toList_ofList
  have htext : d.text.toList = '0' :: 'x' :: d.bytes.flatMap Bytes.Hex.ofByte := by
    rw [Digest.text, String.toList_append, hdigits]
    rfl
  rw [contentBytes, htext, List.flatMap_cons, List.flatMap_cons, hmark.1, hmark.2]
  rfl

/-- A digest is made of its own bytes. -/
theorem ofBytes_bytes (d : Digest) : Digest.ofBytes d.bytes = d := by
  obtain ⟨bytes, hlength⟩ := d
  simp [Digest.ofBytes, Digest.size, hlength]

/-- The literal of a digest is read strictly, and as that digest. -/
theorem parseContent_text (d : Digest) :
    Digest.parseContent (contentBytes .document d.text) = .ok d := by
  have hsize : (digitBytes d.bytes).length = 64 := by
    rw [length_digitBytes, d.length_bytes]
  -- an even number of digits, and the right one
  have heven : Digest.digitsOf (0x30 :: 0x78 :: digitBytes d.bytes) = .ok (digitBytes d.bytes) := by
    rw [Digest.digitsOf, Digest.digitsOf.evenly, hsize]
    rfl
  rw [contentBytes_text, Digest.parseContent, heven]
  show (if (digitBytes d.bytes).length / 2 ≠ Digest.size then _ else _) = _
  rw [hsize, if_neg (by decide), map_digitBytes, (Bytes.Hex.spells_ofByte d.bytes).decodeDigits_eq]
  show Except.ok (Digest.ofBytes (#[] ++ d.bytes.toArray).toList) = _
  rw [Array.empty_append, ofBytes_bytes]

/-- The text of a digest is read back as the digest. -/
theorem reads_digest (d : Digest) : digest.Reads (.text d.text) d := by
  have hread : readDigest (Value.text d.text).toDocument = .ok d := by
    rw [Value.toDocument, readDigest, parseContent_text]
  refine ⟨?_, ?_⟩
  · unfold digest
    dsimp only
    rw [hread]
  · unfold digest
    simp [hread, Except.toOption]

end Json.Decoder

/-! ## Counts and instructions -/

/-- The counts fit into 64 bits. -/
structure ReportStats.Fits (s : ReportStats) : Prop where
  instructions : FitsInt64 s.instructions
  payloads : FitsInt64 s.payloads
  branchTargets : FitsInt64 s.branchTargets
  inTryUnits : FitsInt64 s.inTryUnits
  gcPoints : FitsInt64 s.gcPoints

/-- The offset and the width of the instruction fit into 64 bits. -/
structure ReportInstruction.Fits (i : ReportInstruction) : Prop where
  offset : FitsInt64 i.offset
  width : FitsInt64 i.width

/-- Statistics are read back, as long as their numbers fit. -/
theorem ReportStats.reads {s : ReportStats} (h : s.Fits) : decoder.Reads s.toJson s := by
  have hfields := ((reads_int64 h.instructions).part "instructions").fields.map ReportStats.mk
    |>.seq ((reads_int64 h.payloads).part "payloads") (by decide +kernel)
    |>.seq ((reads_int64 h.branchTargets).part "branch_targets") (by decide +kernel)
    |>.seq ((reads_int64 h.inTryUnits).part "in_try_units") (by decide +kernel)
    |>.seq ((reads_int64 h.gcPoints).part "gc_points") (by decide +kernel)
  exact hfields.record

/-- An entry of the listing is read back, as long as its numbers fit. -/
theorem ReportInstruction.reads {i : ReportInstruction} (h : i.Fits) :
    decoder.Reads i.toJson i := by
  have hfields := ((reads_int64 h.offset).part "offset").fields.map ReportInstruction.mk
    |>.seq ((reads_int64 h.width).part "width") (by decide +kernel)
    |>.seq ((reads_text i.name).part "name") (by decide +kernel)
    |>.seq (readsPart_flagField "payload" i.payload) (by decide +kernel)
    |>.seq (readsPart_flagField "in_try" i.inTry) (by decide +kernel)
    |>.seq (readsPart_flagField "branch_target" i.branchTarget) (by decide +kernel)
    |>.seq (readsPart_flagField "gc_point" i.gcPoint) (by decide +kernel)
  exact hfields.record

/-! ## Try blocks -/

/-- A handler is read back. -/
theorem CatchHandler.reads (h : CatchHandler) : decoder.Reads h.toJson h := by
  have hfields := ((reads_uint32 h.typeIdx).part "type_idx").fields.map CatchHandler.mk
    |>.seq ((reads_uint32 h.addr).part "addr") (by decide +kernel)
  exact hfields.record

/-- A try block is read back with all its handlers. -/
theorem TryBlock.reads (t : TryBlock) : decoder.Reads t.toJson t := by
  have hhandlers := reads_list fun (h : CatchHandler) (_ : h ∈ t.handlers) => h.reads
  have hfields := ((reads_uint32 t.start).part "start_addr").fields.map TryBlock.mk
    |>.seq ((reads_uint16 t.count).part "insn_count") (by decide +kernel)
    |>.seq (hhandlers.part "handlers") (by decide +kernel)
  exact hfields.record

/-! ## Methods -/

/-- The numbers in the report on a method fit into 64 bits. -/
structure MethodReport.Fits (r : MethodReport) : Prop where
  insns : FitsInt64 r.insns
  newInstances : FitsInt64 r.newInstances
  stats : ∀ s ∈ r.stats, s.Fits
  targets : ∀ n ∈ r.targets, FitsInt64 n
  instructions : ∀ i ∈ r.instructions, i.Fits

/-- The report on a method is read back, as long as its numbers fit. -/
theorem MethodReport.reads {r : MethodReport} (h : r.Fits) : decoder.Reads r.toJson r := by
  have hstats : ∀ s ∈ r.stats, (optional ReportStats.decoder).Reads s.toJson (some s) :=
    fun s hs => reads_some (ReportStats.reads (h.stats s hs)) rfl
  have htargets : ∀ n ∈ r.targets, int64.Reads (.int n) n := fun n hn => reads_int64 (h.targets n hn)
  have hinstructions : ∀ i ∈ r.instructions, ReportInstruction.decoder.Reads i.toJson i :=
    fun i hi => ReportInstruction.reads (h.instructions i hi)
  have htries : ∀ t ∈ r.tries, TryBlock.decoder.Reads t.toJson t := fun t _ => t.reads
  have hfields := ((reads_text r.className).part "class").fields.map MethodReport.mk
    |>.seq ((reads_text r.method).part "method") (by decide +kernel)
    |>.seq ((reads_text r.proto).part "proto") (by decide +kernel)
    |>.seq ((reads_digest r.hash).part "hash") (by decide +kernel)
    |>.seq ((reads_bool r.accepted).part "accepted") (by decide +kernel)
    |>.seq (readsPart_flagField "cached" r.cached) (by decide +kernel)
    |>.seq (readsPart_textField "code" r.code) (by decide +kernel)
    |>.seq (readsPart_textField "category" r.category) (by decide +kernel)
    |>.seq (readsPart_textField "message" r.message) (by decide +kernel)
    |>.seq ((reads_int64 h.insns).part "insns") (by decide +kernel)
    |>.seq ((reads_int64 h.newInstances).part "new_instances") (by decide +kernel)
    |>.seq (readsPart_optional hstats "stats") (by decide +kernel)
    |>.seq (readsPart_listField htargets "branch_targets") (by decide +kernel)
    |>.seq (readsPart_listField hinstructions "instructions") (by decide +kernel)
    |>.seq (readsPart_listField htries "tries") (by decide +kernel)
  rw [toJson, decoder]
  simpa only [List.append_assoc, List.cons_append, List.nil_append] using hfields.record

/-! ## Whole reports -/

/-- The numbers in a report fit into 64 bits. -/
structure Report.Fits (r : Report) : Prop where
  methods : ∀ m ∈ r.methods, ∀ method ∈ m, method.Fits
  accepted : FitsInt64 r.accepted
  rejected : FitsInt64 r.rejected

/-- A whole report is read back, as long as its numbers fit. -/
theorem Report.reads {r : Report} (h : r.Fits) : decoder.Reads r.toJson r := by
  have hmethods : ∀ m ∈ r.methods, (optional MethodReport.decoder).Reads
      ((m.map MethodReport.toJson).getD .null) m := by
    intro m hm
    cases m with
    | none => exact reads_none _
    | some method => exact reads_some (MethodReport.reads (h.methods _ hm method rfl)) rfl
  have hfields := ((reads_list hmethods).part "methods").fields.map Report.mk
    |>.seq ((reads_int64 h.accepted).part "accepted") (by decide +kernel)
    |>.seq ((reads_int64 h.rejected).part "rejected") (by decide +kernel)
  exact hfields.record

/-! ### Depth of reports -/

theorem ReportStats.height_toJson (s : ReportStats) : s.toJson.height = 1 := rfl

/-- An entry of the listing nests no more than its own object. -/
theorem ReportInstruction.height_toJson (i : ReportInstruction) : i.toJson.height ≤ 1 := by
  apply Value.height_object_le
  intro f hf
  simp only [List.mem_append, or_assoc] at hf
  obtain hf | hf | hf | hf | hf := hf
  · simp only [List.mem_cons, List.not_mem_nil, or_false] at hf
    rcases hf with rfl | rfl | rfl <;> exact Nat.le_refl 0
  all_goals exact (Value.height_of_mem_flagField hf).le

/-- A try block nests its handlers in an array. -/
theorem TryBlock.height_toJson (t : TryBlock) : t.toJson.height ≤ 3 := by
  have hhandlers : (Value.array (t.handlers.map CatchHandler.toJson)).height ≤ 2 :=
    Value.height_array_le (List.forall_mem_map.mpr fun _ _ => Nat.le_refl 1)
  apply Value.height_object_le
  intro f hf
  simp only [List.mem_cons, List.not_mem_nil, or_false] at hf
  rcases hf with rfl | rfl | rfl
  · exact Nat.zero_le 2
  · exact Nat.zero_le 2
  · exact hhandlers

/-- The report on a method nests its try blocks in an array. -/
theorem MethodReport.height_toJson (r : MethodReport) : r.toJson.height ≤ 5 := by
  apply Value.height_object_le
  intro f hf
  simp only [List.mem_append, or_assoc] at hf
  obtain hf | hf | hf | hf | hf | hf | hf | hf | hf | hf := hf
  · simp only [List.mem_cons, List.not_mem_nil, or_false] at hf
    rcases hf with rfl | rfl | rfl | rfl | rfl <;> exact Nat.zero_le 4
  · exact (Value.height_of_mem_flagField hf).trans_le (Nat.zero_le 4)
  · exact (Value.height_of_mem_textField hf).trans_le (Nat.zero_le 4)
  · exact (Value.height_of_mem_textField hf).trans_le (Nat.zero_le 4)
  · exact (Value.height_of_mem_textField hf).trans_le (Nat.zero_le 4)
  · simp only [List.mem_cons, List.not_mem_nil, or_false] at hf
    rcases hf with rfl | rfl <;> exact Nat.zero_le 4
  · obtain ⟨s, -, rfl⟩ := Option.map_eq_some_iff.mp (Option.mem_toList.mp hf)
    exact s.height_toJson.trans_le (by decide)
  · exact (Value.height_of_mem_listField (fun _ _ => Nat.zero_le 0) hf).trans (by decide)
  · exact (Value.height_of_mem_listField (fun i _ => i.height_toJson) hf).trans (by decide)
  · exact Value.height_of_mem_listField (fun t _ => t.height_toJson) hf

/-- A report nests the reports on its methods in an array. -/
theorem Report.height_toJson (r : Report) : r.toJson.height ≤ 7 := by
  have hmethods : (Value.array (r.methods.map
      fun m => (m.map MethodReport.toJson).getD .null)).height ≤ 6 := by
    apply Value.height_array_le
    rw [List.forall_mem_map]
    rintro (_ | method) _
    · exact Nat.zero_le 5
    · exact method.height_toJson
  apply Value.height_object_le
  intro f hf
  simp only [List.mem_cons, List.not_mem_nil, or_false] at hf
  rcases hf with rfl | rfl | rfl
  · exact hmethods
  · exact Nat.zero_le 6
  · exact Nat.zero_le 6

/-- A report is written as a document that is read back as that report. -/
theorem Report.run_document {r : Report} (h : r.Fits) :
    decoder.run (Bytes.Utf8.encode r.toJson.document) = .ok r :=
  (Report.reads h).run_document (r.height_toJson.trans (by decide))

/-! ### Sums -/

/-- Every method is accepted or rejected. -/
theorem Report.accepted_add_rejected (methods : List MethodReport) :
    (ofMethods methods).accepted + (ofMethods methods).rejected = (methods.length : ℤ) := by
  have hcount := List.length_eq_countP_add_countP (p := fun r : MethodReport => r.accepted)
    (l := methods)
  have hrejected : methods.countP (fun r => decide ¬ r.accepted = true)
      = methods.countP fun r => !r.accepted :=
    List.countP_congr fun r _ => by simp
  show ((methods.countP fun r => r.accepted : ℕ) : ℤ) + (methods.countP fun r => !r.accepted : ℕ) = _
  omega

/-- The report on methods fits if they do and there are not too many of them. -/
theorem Report.fits_ofMethods {methods : List MethodReport} (h : ∀ r ∈ methods, r.Fits)
    (hlength : methods.length < 2 ^ 63) : (ofMethods methods).Fits where
  methods := by
    intro m hm method hmethod
    obtain ⟨r, hr, rfl⟩ := List.mem_map.mp hm
    exact Option.some.inj hmethod ▸ h r hr
  accepted := by
    have hle : methods.countP (fun r => r.accepted) ≤ methods.length := List.countP_le_length
    show FitsInt64 (methods.countP fun r => r.accepted : ℕ)
    unfold FitsInt64
    omega
  rejected := by
    have hle : methods.countP (fun r => !r.accepted) ≤ methods.length := List.countP_le_length
    show FitsInt64 (methods.countP fun r => !r.accepted : ℕ)
    unfold FitsInt64
    omega

end Dalvik
