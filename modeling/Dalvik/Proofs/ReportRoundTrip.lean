import Mathlib
import Dalvik.Command.Run
import Dalvik.Proofs.Cancellation
import Dalvik.Proofs.ReportJson

/-!
# The document of a batch

What a batch prints as JSON is read back as the same report (`roundTrip_run`). The numbers in a
report have to fit into 64 bits for that. Those of a kept verdict do because they were read from
64 bits themselves; those of an analysis do because a code item has fewer than `2 ^ 32` units, and
everything that is counted or addressed in it is bounded by that. So each report fits that an entry
is prepared or completed with, and with it every report of a run, whatever its store holds and
whichever of its methods are refused.
-/

namespace Dalvik

open Json.Decoder (FitsInt64 fitsInt64_of_lt fitsInt64_zero)

/-! ## Analyses -/

/-- The analysed method has a number of units that has 32 bits, and not more allocations. -/
structure Analysis.Small (a : Analysis) : Prop where
  size : a.method.code.size < 2 ^ 32
  newInstances : a.newInstances ≤ a.method.code.size

namespace Analysis

theorem length_units_le (a : Analysis) : a.units.length ≤ a.method.code.size := by
  simp [units]

theorem lt_size_of_mem_units {a : Analysis} {u : ℕ × FlagWord × UInt16} (h : u ∈ a.units) :
    u.1 < a.method.code.size := by
  obtain ⟨⟨⟨w, unit⟩, i⟩, hmem, rfl⟩ := List.mem_map.mp h
  have hlt := (List.mem_zipIdx' hmem).1
  rw [List.length_zip] at hlt
  exact lt_of_lt_of_le hlt (min_le_right _ _)

namespace Small

variable {a : Analysis}

/-- Whatever is counted over the units fits. -/
theorem fits_countP (h : a.Small) {us : List (ℕ × FlagWord × UInt16)} (hus : us.Sublist a.units)
    (p : ℕ × FlagWord × UInt16 → Bool) : FitsInt64 (us.countP p) := by
  have hlength := hus.length_le.trans a.length_units_le
  exact fitsInt64_of_lt ((List.countP_le_length.trans hlength).trans_lt h.size)

/-- The statistics of a small method fit. -/
theorem fits_stats (h : a.Small) : (ReportStats.ofStats a.stats).Fits where
  instructions := h.fits_countP List.filter_sublist _
  payloads := h.fits_countP List.filter_sublist _
  branchTargets := h.fits_countP List.filter_sublist _
  inTryUnits := h.fits_countP (List.Sublist.refl _) _
  gcPoints := h.fits_countP List.filter_sublist _

theorem fits_branchTargets (h : a.Small) : ∀ n ∈ a.branchTargets.map Int.ofNat, FitsInt64 n := by
  rw [List.forall_mem_map]
  intro offset hoffset
  obtain ⟨u, hu, rfl⟩ := List.mem_map.mp hoffset
  exact fitsInt64_of_lt ((lt_size_of_mem_units (List.mem_of_mem_filter hu)).trans h.size)

/-- The listing of a small method fits. -/
theorem fits_instructions (h : a.Small) :
    ∀ i ∈ a.instructions.map ReportInstruction.ofInfo, i.Fits := by
  rw [List.forall_mem_map]
  intro info hinfo
  obtain ⟨⟨offset, w, unit⟩, hu, rfl⟩ := List.mem_map.mp hinfo
  have hwidth : w.width < 2 ^ 32 := by
    rw [FlagWord.width_eq_mod]
    omega
  exact ⟨fitsInt64_of_lt ((lt_size_of_mem_units (List.mem_of_mem_filter hu)).trans h.size),
    fitsInt64_of_lt hwidth⟩

end Small
end Analysis

/-- An accepted method with the body of a code item is small. -/
theorem small_of_preAnalyze {bytes : List UInt8} {item : CodeItem}
    (hitem : CodeItem.parse bytes = .ok item) {config : Config} {c n p : String} {found : Analysis}
    (h : (preAnalyze config (item.toMethod c n p)).result = .ok found) : found.Small := by
  have hsize := (CodeItem.parse_cases hitem).1
  obtain ⟨count, hcount, hok⟩ | ⟨offset, cause, herror⟩ := preAnalyze_cases item
  · obtain ⟨table, hresult⟩ := hok config c n p
    rw [hresult] at h
    cases h
    exact ⟨hsize, hcount⟩
  · rw [herror] at h
    cases h

namespace Analyzer

/-! ## Entries -/

/-- A report without detail fits if its two numbers do. -/
theorem fits_of_plain {r : MethodReport} (hinsns : FitsInt64 r.insns)
    (hnew : FitsInt64 r.newInstances) (hstats : r.stats = none) (htargets : r.targets = [])
    (hinstructions : r.instructions = []) : r.Fits where
  insns := hinsns
  newInstances := hnew
  stats := by simp [hstats]
  targets := by simp [htargets]
  instructions := by simp [hinstructions]

/-- What a prepared entry says fits, and its method, if one is to be analysed, is that of a code
item. -/
inductive Prepared.Fits : Prepared → Prop where
  | complete {r : MethodReport} (h : r.Fits) : Fits (.complete r)
  | pending {r : MethodReport} (h : r.Fits) {bytes : List UInt8} {item : CodeItem}
      (hitem : CodeItem.parse bytes = .ok item) (c n p : String) :
      Fits (.pending r (item.toMethod c n p))

theorem fits_undecodable (e : ManifestEntry) (hash : Digest) (f : Failure) :
    (undecodable (blankReport e hash) f).Fits :=
  fits_of_plain fitsInt64_zero fitsInt64_zero rfl rfl rfl

/-- Whatever the bytes, the numbers in the report fit. -/
theorem fits_prepareBytes (e : ManifestEntry) (hash : Digest) (b : List UInt8) :
    (prepareBytes (blankReport e hash) b).1.Fits := by
  unfold prepareBytes
  cases hitem : CodeItem.parse b with
  | error fault => exact .complete (fits_undecodable e hash _)
  | ok item =>
    have hsize := (CodeItem.parse_cases hitem).1
    exact .pending (fits_of_plain (fitsInt64_of_lt hsize) fitsInt64_zero rfl rfl rfl) hitem _ _ _

/-- However an entry is prepared, what is said about it fits. -/
theorem fits_of_prepare {a : Analyzer} {store : Option VerdictStore} {e : ManifestEntry}
    {p : Prepared} (h : (prepare a store e).1 = .ok p) : p.Fits := by
  rw [prepare_eq] at h
  cases hb : Bytes.Hex.decode e.code with
  | error fault =>
    rw [hb] at h
    cases h
    exact .complete (fits_undecodable e _ _)
  | ok b =>
    rw [hb] at h
    dsimp only at h
    split at h
    · cases h
      exact fits_prepareBytes e _ b
    · split at h
      · cases h
      · next v hget =>
        cases h
        have hv := VerdictStore.fits_of_get hget
        exact .complete (fits_of_plain hv.insns hv.newInstances rfl rfl rfl)
      · cases h
        exact fits_prepareBytes e _ b

/-- The reports of prepared entries fit. -/
theorem fits_of_prepared {a : Analyzer} {store : Option VerdictStore} {es : List ManifestEntry}
    {ps : List Prepared} (h : List.Forall₂ (fun e p => (prepare a store e).1 = .ok p) es ps) :
    ∀ p ∈ ps, p.Fits := by
  induction h with
  | nil => simp
  | cons hp _ ih => exact List.forall_mem_cons.mpr ⟨fits_of_prepare hp, ih⟩

/-- What a result says about an accepted method is small. -/
def SmallResult (res : MethodResult) : Prop :=
  ∀ found records, res.outcome = .analysed ⟨.ok found, records⟩ → found.Small

/-- The outcome of an analysis is put into a report that fits, and it still does. -/
theorem fits_merge (a : Analyzer) {r : MethodReport} (hr : r.Fits) {res : MethodResult}
    (hres : SmallResult res) : (merge a r res).Fits := by
  unfold merge
  split
  · next found records houtcome =>
    have hsmall := hres found records houtcome
    have hnew : FitsInt64 found.newInstances :=
      fitsInt64_of_lt (hsmall.newInstances.trans_lt hsmall.size)
    dsimp only
    split
    · refine ⟨hr.insns, hnew, ?_, hsmall.fits_branchTargets, hsmall.fits_instructions⟩
      intro s hs
      exact Option.some.inj hs ▸ hsmall.fits_stats
    · exact ⟨hr.insns, hnew, hr.stats, hr.targets, hr.instructions⟩
  · exact ⟨hr.insns, hr.newInstances, hr.stats, hr.targets, hr.instructions⟩

/-! ## Runs -/

/-- A batch on the methods of prepared entries gives one small result for each of them. -/
theorem smallResult_of_mem_run {ps : List Prepared} (hps : ∀ p ∈ ps, p.Fits) (config : Config)
    (refused : Batch.Refused) :
    ∀ res ∈ Batch.run config refused (ps.filterMap Prepared.method?), SmallResult res := by
  intro res hres found records houtcome
  obtain ⟨i, hi, rfl⟩ := List.mem_mapIdx.mp hres
  obtain ⟨p, hp, hmethod⟩ := List.mem_filterMap.mp (List.getElem_mem hi)
  revert houtcome hmethod
  generalize (ps.filterMap Prepared.method?)[i] = m
  intro houtcome hmethod
  -- a method that was refused has no outcome of its own
  have hanalysed : preAnalyze config m = ⟨.ok found, records⟩ := by
    unfold Batch.one at houtcome
    dsimp only at houtcome
    split at houtcome
    · cases houtcome
    · exact MethodOutcome.analysed.inj houtcome
  cases hps p hp with
  | complete h => cases hmethod
  | pending h hitem c n q =>
    cases hmethod
    exact small_of_preAnalyze hitem (congrArg Verification.result hanalysed)

/-- Completing gives one report on each entry, and all of them fit. -/
theorem fits_of_complete {a : Analyzer} {ps : List Prepared} (hps : ∀ p ∈ ps, p.Fits)
    {results : List MethodResult} (hresults : ∀ res ∈ results, SmallResult res)
    (hlength : results.length = (ps.filterMap Prepared.method?).length)
    {store : Option VerdictStore} {rs : List MethodReport}
    (h : (complete a ps results store).1 = .ok rs) :
    rs.length = ps.length ∧ ∀ r ∈ rs, r.Fits := by
  induction ps generalizing results store rs with
  | nil =>
    cases results with
    | cons res results => cases hlength
    | nil =>
      cases h
      exact ⟨rfl, by simp⟩
  | cons p ps ih =>
    rw [List.forall_mem_cons] at hps
    obtain ⟨hp, hps⟩ := hps
    cases hp with
    | complete hr =>
      rw [complete] at h
      split at h
      · next rs' store' hrest =>
        cases h
        obtain ⟨hcount, hfits⟩ := ih hps hresults hlength (congrArg Prod.fst hrest)
        exact ⟨congrArg Nat.succ hcount, List.forall_mem_cons.mpr ⟨hr, hfits⟩⟩
      · cases h
    | pending hr hitem c n q =>
      cases results with
      | nil => cases hlength
      | cons res results =>
        rw [List.forall_mem_cons] at hresults
        rw [complete] at h
        split at h
        · cases h
        · split at h
          · next rs' store'' hrest =>
            cases h
            obtain ⟨hcount, hfits⟩ := ih hps hresults.2 (Nat.succ.inj hlength)
              (congrArg Prod.fst hrest)
            exact ⟨congrArg Nat.succ hcount,
              List.forall_mem_cons.mpr ⟨fits_merge a hr hresults.1, hfits⟩⟩
          · cases h

/-- A run gives one report on each entry, and all of them fit. -/
theorem fits_of_run {a : Analyzer} {refused : Batch.Refused} {store : Option VerdictStore}
    {es : List ManifestEntry} {rs : List MethodReport}
    (h : (run a refused store es).result = .ok rs) :
    rs.length = es.length ∧ ∀ r ∈ rs, r.Fits := by
  cases hps : (prepareAll a store es).1 with
  | error fault =>
    rw [(run_of_prepareAll_error hps refused).1] at h
    cases h
  | ok ps =>
    have hprepared := forall₂_of_prepareAll hps
    have hfits := fits_of_prepared hprepared
    have hcomplete := congrArg Prod.fst (run_eq_complete hps refused)
    dsimp only at hcomplete
    rw [h] at hcomplete
    obtain ⟨hcount, hall⟩ := fits_of_complete hfits (smallResult_of_mem_run hfits a.config refused)
      List.length_mapIdx hcomplete.symm
    exact ⟨hcount.trans hprepared.length_eq.symm, hall⟩

end Analyzer

/-! ## Printing and reading -/

namespace Command

/-- The reports on some entries are printed and read back. -/
structure RoundTrip (o : BatchOptions) (es : List ManifestEntry) (reports : List MethodReport) :
    Prop where
  /-- The printed document is decoded to the report that was printed. -/
  decoded : Report.decoder.run (Bytes.Utf8.encode (o.print reports)) = .ok (.ofMethods reports)
  /-- So whoever reads a file with the printed document finds that report in it. -/
  loaded : ∀ (files : Files) (path : String),
    files.read path = .ok (Bytes.Utf8.encode (o.print reports)) →
      readReport files path = .ok (Bytes.Utf8.encode (o.print reports), .ofMethods reports)
  /-- There is one method for each entry. -/
  length : (Report.ofMethods reports).methods.length = es.length
  /-- Each method is accepted or rejected. -/
  sum : (Report.ofMethods reports).accepted + (Report.ofMethods reports).rejected
    = ((Report.ofMethods reports).methods.length : ℤ)

/-- The reports of a run that does not fail, with any settings and any store and whichever methods
are refused, are printed as JSON and read back without a change. There are not more entries than
an integer of 64 bits can count. -/
theorem roundTrip_run {a : Analyzer} {refused : Batch.Refused} {store : Option VerdictStore}
    {es : List ManifestEntry} {reports : List MethodReport}
    (h : (a.run refused store es).result = .ok reports) (hlength : es.length < 2 ^ 63)
    {o : BatchOptions} (hjson : o.json = true) : RoundTrip o es reports := by
  obtain ⟨hcount, hfits⟩ := Analyzer.fits_of_run h
  have hprint : o.print reports = (Report.ofMethods reports).toJson.document := by
    rw [BatchOptions.print, if_pos hjson]
  have hdecoded : Report.decoder.run (Bytes.Utf8.encode (o.print reports))
      = .ok (.ofMethods reports) := by
    rw [hprint]
    exact Report.run_document (Report.fits_ofMethods hfits (hcount.trans_lt hlength))
  have hmethods : (Report.ofMethods reports).methods.length = reports.length :=
    List.length_map some
  refine ⟨hdecoded, ?_, hmethods.trans hcount, ?_⟩
  · intro files path hread
    rw [readReport, hread]
    dsimp only
    rw [hdecoded]
  · rw [Report.accepted_add_rejected, hmethods]

/-- A method whose only instruction is in a try block, under names that are escaped in literals,
and an entry without digits. -/
def tryEntries : List ManifestEntry :=
  [{ className := "L<\"é\">;", method := "f\n", proto := "V",
     code := "0x010000000000010000000000010000000e000000000000000100010001010700" }, { code := "zz" }]

/-- One of the two is accepted, and the report on both comes back from its document. -/
theorem roundTrip_of_tryEntries :
    ∃ reports, (Analyzer.run ⟨{}, true⟩ Batch.Refused.none none tryEntries).result = .ok reports ∧
      RoundTrip { json := true } tryEntries reports ∧
      reports.map (fun r => (r.className, r.accepted)) = [("L<\"é\">;", true), ("", false)] := by
  obtain ⟨reports, hresult, hreports⟩ := Analyzer.run_none ⟨{}, true⟩ tryEntries
  refine ⟨reports, hresult, roundTrip_run hresult (by decide) rfl, ?_⟩
  have hcores : reports.map MethodReport.core = tryEntries.map Analyzer.entryCore := by
    rw [← List.forall₂_eq_eq_eq, List.forall₂_map_left_iff, List.forall₂_map_right_iff]
    exact hreports.flip.imp fun r e hr => hr.1
  calc reports.map (fun r => (r.className, r.accepted))
      = (reports.map MethodReport.core).map fun r => (r.className, r.accepted) := by
        rw [List.map_map]
        rfl
    _ = (tryEntries.map Analyzer.entryCore).map fun r => (r.className, r.accepted) := by
        rw [hcores]
    _ = [("L<\"é\">;", true), ("", false)] := by decide +kernel

end Command
end Dalvik
