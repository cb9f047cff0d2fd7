import Mathlib
import Dalvik.Proofs.StoreTransparency

/-!
# What a run keeps

The methods that a run has to analyse are its jobs (`jobs`): the entries with a code item that the
run does not find in the store. Each job leaves one verdict, that of its analysis or, when
cancellation kept it from starting, a rejection that says so (`Job.outcome`). The verdicts are put
into the store in the order of the entries, so under each digest the last job with that digest
decides, and nothing else changes (`run_jobs`).
-/

namespace Dalvik

/-- The names of the entry as a message gives them. -/
def ManifestEntry.owner (e : ManifestEntry) : String :=
  e.className ++ "." ++ e.method ++ ":" ++ e.proto

namespace Analyzer

open Json.Decoder (FitsInt64 fitsInt64_of_lt fitsInt64_zero)

/-! ## Verdicts on entries -/

/-- The verdict that the analysis of an entry with a body gives, as it is kept. -/
def entryVerdict (e : ManifestEntry) (item : CodeItem) : Verdict :=
  let m := item.toMethod e.className e.method e.proto
  match (preAnalyze {} m).result with
  | .ok found =>
    { version := Verdict.currentVersion, accepted := true, insns := item.code.size
      newInstances := found.newInstances }
  | .error h =>
    { version := Verdict.currentVersion, code := (h.failure m).code
      message := (h.failure m).message, insns := item.code.size }

/-- The verdict that is kept for a body whose analysis was cancelled. -/
def canceledVerdict (item : CodeItem) : Verdict where
  version := Verdict.currentVersion
  message := MethodResult.canceledText
  insns := item.code.size

/-- The message of a refusal ends in the names of the method; the rest of it depends on the body
alone. -/
theorem message_refused (item : CodeItem) (offset : Option ℤ) (cause : Cause) :
    ∃ text, ∀ e : ManifestEntry, ((Halt.refused offset cause).failure
      (item.toMethod e.className e.method e.proto)).message = text ++ " in " ++ e.owner := by
  -- without its method the rejection says the rest
  refine ⟨{ Rejection.of (item.toMethod "" "" "") offset cause with method := none }.text, ?_⟩
  intro e
  simp only [Halt.failure, Failure.message, Rejection.text, Rejection.of, Rejection.place,
    String.append_empty, String.append_assoc]
  rfl

/-- A body is accepted, and then without a message, or it is refused with a code and a message that
ends in the names of the method. -/
theorem entryVerdict_cases (item : CodeItem) :
    (∃ count : ℕ, count ≤ item.code.size ∧ ∀ e, entryVerdict e item =
        { version := Verdict.currentVersion, accepted := true, insns := item.code.size
          newInstances := count }) ∨
      ∃ (kind : FaultKind) (text : String), ∀ e, entryVerdict e item =
        { version := Verdict.currentVersion, code := kind.code
          message := text ++ " in " ++ e.owner, insns := item.code.size } := by
  obtain ⟨count, hcount, hok⟩ | ⟨offset, cause, herror⟩ := preAnalyze_cases item
  · refine .inl ⟨count, hcount, fun e => ?_⟩
    obtain ⟨table, hresult⟩ := hok {} e.className e.method e.proto
    simp only [entryVerdict, hresult]
  · obtain ⟨text, hmessage⟩ := message_refused item offset cause
    refine .inr ⟨cause.kind, text, fun e => ?_⟩
    simp only [entryVerdict, herror, failure_refused, hmessage]

/-- The numbers of a verdict on a code item fit into 64 bits. -/
theorem fits_entryVerdict {b : List UInt8} {item : CodeItem} (h : CodeItem.parse b = .ok item)
    (e : ManifestEntry) : (entryVerdict e item).Fits := by
  have hsize := (CodeItem.parse_cases h).1
  obtain ⟨count, hcount, hverdict⟩ | ⟨kind, text, hverdict⟩ := entryVerdict_cases item
  · rw [hverdict e]
    exact ⟨VerdictStore.fits_currentVersion, fitsInt64_of_lt hsize,
      fitsInt64_of_lt (hcount.trans_lt hsize)⟩
  · rw [hverdict e]
    exact ⟨VerdictStore.fits_currentVersion, fitsInt64_of_lt hsize, fitsInt64_zero⟩

theorem fits_canceledVerdict {b : List UInt8} {item : CodeItem}
    (h : CodeItem.parse b = .ok item) : (canceledVerdict item).Fits where
  version := VerdictStore.fits_currentVersion
  insns := fitsInt64_of_lt (CodeItem.parse_cases h).1
  newInstances := fitsInt64_zero

theorem version_entryVerdict (e : ManifestEntry) (item : CodeItem) :
    (entryVerdict e item).version = Verdict.currentVersion := by
  obtain ⟨count, -, hverdict⟩ | ⟨kind, text, hverdict⟩ := entryVerdict_cases item
  · rw [hverdict e]
  · rw [hverdict e]

/-- No analysis gives the verdict of a cancelled one: that rejects without a code. -/
theorem entryVerdict_ne_canceledVerdict (e : ManifestEntry) (item item' : CodeItem) :
    entryVerdict e item ≠ canceledVerdict item' := by
  intro heq
  obtain ⟨count, -, hverdict⟩ | ⟨kind, text, hverdict⟩ := entryVerdict_cases item
  · rw [hverdict e] at heq
    have haccepted : true = false := congrArg Verdict.accepted heq
    cases haccepted
  · rw [hverdict e] at heq
    have hcode : kind.code = "" := congrArg Verdict.code heq
    have hempty := kind.code_spec.2.2.1
    rw [hcode] at hempty
    exact absurd hempty (by decide)

/-! ## Jobs -/

/-- An entry whose bytes start with a code item. -/
structure Job where
  entry : ManifestEntry
  bytes : List UInt8
  item : CodeItem
  decoded : Bytes.Hex.decode entry.code = .ok bytes
  parsed : CodeItem.parse bytes = .ok item

namespace Job

/-- The digest under which the verdict is kept. -/
def digest (j : Job) : Digest := Digest.compute j.bytes

/-- The method to be analysed. -/
def method (j : Job) : Method := j.item.toMethod j.entry.className j.entry.method j.entry.proto

/-- The report before the analysis. -/
def report (j : Job) : MethodReport :=
  { blankReport j.entry j.digest with insns := j.item.code.size }

/-- The verdict that the job leaves. -/
def outcome (j : Job) (canceled : Bool) : Verdict :=
  if canceled then canceledVerdict j.item else entryVerdict j.entry j.item

/-- The job of an entry. -/
def ofEntry? (e : ManifestEntry) : Option Job :=
  match hb : Bytes.Hex.decode e.code with
  | .error _ => none
  | .ok b =>
    match hitem : CodeItem.parse b with
    | .error _ => none
    | .ok item => some ⟨e, b, item, hb, hitem⟩

/-- An entry has at most one job. -/
theorem ofEntry?_eq_some_iff {e : ManifestEntry} {j : Job} :
    ofEntry? e = some j ↔ j.entry = e := by
  constructor
  · intro h
    unfold ofEntry? at h
    split at h
    · cases h
    · split at h
      · cases h
      · cases h
        rfl
  · intro h
    subst h
    obtain ⟨e, b, item, hb, hitem⟩ := j
    unfold ofEntry?
    split
    · next hb' =>
      rw [hb] at hb'
      cases hb'
    · next b' hb' =>
      rw [hb] at hb'
      cases hb'
      split
      · next hitem' =>
        rw [hitem] at hitem'
        cases hitem'
      · next item' hitem' =>
        rw [hitem] at hitem'
        cases hitem'
        rfl

theorem fits_outcome (j : Job) (canceled : Bool) : (j.outcome canceled).Fits := by
  cases canceled
  · exact fits_entryVerdict j.parsed j.entry
  · exact fits_canceledVerdict j.parsed

theorem version_outcome (j : Job) (canceled : Bool) :
    (j.outcome canceled).version = Verdict.currentVersion := by
  cases canceled
  · exact version_entryVerdict j.entry j.item
  · rfl

end Job

/-- The job that a run on a store has with an entry: none if it finds a verdict there. -/
def job? (a : Analyzer) (s : VerdictStore) (e : ManifestEntry) : Option Job :=
  (Job.ofEntry? e).filter fun j => a.detail || decide ((s.get j.digest).1 = .ok none)

/-- The jobs of a run on a store, in the order of the entries. -/
def jobs (a : Analyzer) (s : VerdictStore) (es : List ManifestEntry) : List Job :=
  es.filterMap (job? a s)

theorem entry_of_job? {a : Analyzer} {s : VerdictStore} {e : ManifestEntry} {j : Job}
    (h : job? a s e = some j) : j.entry = e :=
  Job.ofEntry?_eq_some_iff.mp (Option.filter_eq_some_iff.mp h).1

/-- A job of a run belongs to one of its entries. -/
theorem entry_mem_of_mem_jobs {a : Analyzer} {s : VerdictStore} {es : List ManifestEntry} {j : Job}
    (h : j ∈ jobs a s es) : j.entry ∈ es := by
  obtain ⟨e, he, hjob⟩ := List.mem_filterMap.mp h
  rw [entry_of_job? hjob]
  exact he

/-! ## Preparing -/

/-- The report and the method of an entry that is to be analysed. -/
def Prepared.pending? : Prepared → Option (MethodReport × Method)
  | complete _ => none
  | pending r m => some (r, m)

theorem prepareBytes_job (j : Job) :
    (prepareBytes (blankReport j.entry j.digest) j.bytes).1 = .pending j.report j.method := by
  unfold prepareBytes
  rw [j.parsed]
  rfl

/-- A job is prepared with the verdict that the store has, or it is to be analysed. -/
theorem prepare_job (a : Analyzer) (s : VerdictStore) (j : Job) :
    (prepare a (some s) j.entry).1 = match if a.detail then .ok none else (s.get j.digest).1 with
      | .error fault => .error fault
      | .ok (some v) => .ok (.complete (ofVerdict (blankReport j.entry j.digest) v))
      | .ok none => .ok (.pending j.report j.method) := by
  rw [prepare_eq, j.decoded, ← prepareBytes_job]
  cases a.detail <;> rfl

/-- An entry without a job is not to be analysed. -/
theorem pending?_of_ofEntry?_eq_none {a : Analyzer} {s : VerdictStore} {e : ManifestEntry}
    {p : Prepared} (h : (prepare a (some s) e).1 = .ok p) (hnone : Job.ofEntry? e = none) :
    p.pending? = none := by
  rw [prepare_eq] at h
  cases hb : Bytes.Hex.decode e.code with
  | error fault =>
    rw [hb] at h
    cases h
    rfl
  | ok b =>
    cases hitem : CodeItem.parse b with
    | ok item =>
      have hjob := Job.ofEntry?_eq_some_iff.mpr (rfl : (⟨e, b, item, hb, hitem⟩ : Job).entry = e)
      rw [hnone] at hjob
      cases hjob
    | error fault =>
      have hbytes : (prepareBytes (blankReport e (Digest.compute b)) b).1.pending? = none := by
        unfold prepareBytes
        rw [hitem]
        rfl
      rw [hb] at h
      dsimp only at h
      -- a verdict is found, or the bytes are looked at
      split at h
      · cases h
        exact hbytes
      · split at h
        · cases h
        · cases h
          rfl
        · cases h
          exact hbytes

/-- What is prepared for the analysis is the job. -/
theorem pending?_of_prepare {a : Analyzer} {s : VerdictStore} {e : ManifestEntry} {p : Prepared}
    (h : (prepare a (some s) e).1 = .ok p) :
    p.pending? = (job? a s e).map fun j => (j.report, j.method) := by
  unfold job?
  cases hj : Job.ofEntry? e with
  | none => exact pending?_of_ofEntry?_eq_none h hj
  | some j =>
    obtain rfl := Job.ofEntry?_eq_some_iff.mp hj
    rw [prepare_job] at h
    cases hdetail : a.detail with
    | true =>
      rw [hdetail] at h
      cases h
      rfl
    | false =>
      rw [hdetail] at h
      simp only [Bool.false_eq_true, if_false] at h
      -- only what is not found is to be analysed
      split at h
      · cases h
      · next v hget =>
        cases h
        simp [hget, Prepared.pending?]
      · next hget =>
        cases h
        simp [hget, Prepared.pending?]

/-- Entries that are prepared together are prepared one by one. -/
theorem forall₂_of_prepareAll {a : Analyzer} {store : Option VerdictStore}
    {es : List ManifestEntry} {ps : List Prepared} (h : (prepareAll a store es).1 = .ok ps) :
    List.Forall₂ (fun e p => (prepare a store e).1 = .ok p) es ps := by
  induction es generalizing ps with
  | nil =>
    cases h
    exact .nil
  | cons e es ih =>
    rw [prepareAll] at h
    cases hp : prepare a store e with
    | mk result records =>
      rw [hp] at h
      cases result with
      | error fault => cases h
      | ok p =>
        cases hps : prepareAll a store es with
        | mk results more =>
          rw [hps] at h
          cases results with
          | error fault => cases h
          | ok rest =>
            cases h
            exact .cons (by rw [hp]) (ih (by rw [hps]))

/-- The methods that a batch gets are the jobs. -/
theorem pending?_of_prepareAll {a : Analyzer} {s : VerdictStore} {es : List ManifestEntry}
    {ps : List Prepared} (h : (prepareAll a (some s) es).1 = .ok ps) :
    ps.filterMap Prepared.pending? = (jobs a s es).map fun j => (j.report, j.method) := by
  unfold jobs
  rw [List.map_filterMap]
  have hprepared := forall₂_of_prepareAll h
  clear h
  induction hprepared with
  | nil => rfl
  | cons hp _ ih => rw [List.filterMap_cons, List.filterMap_cons, ih, pending?_of_prepare hp]

/-! ## Completing -/

/-- The bytes under the keys of an open store after the verdict of a report has been kept. -/
theorem keep_some {s : VerdictStore} (hs : s.isOpen = true) (r : MethodReport) :
    ∃ s', keep (some s) r = .ok (some s') ∧ s'.isOpen = true ∧ ∀ d, s'.getBytes d =
      if r.hash = d then .ok { toVerdict r with version := Verdict.currentVersion }.encode
      else s.getBytes d := by
  obtain ⟨s', hput, hopen, hkey, hother⟩ := VerdictStore.getBytes_put hs r.hash (toVerdict r)
  refine ⟨s', congrArg (Except.map some) hput, hopen, fun d => ?_⟩
  split_ifs with hd
  · rw [← hd]
    exact hkey
  · exact hother d (Ne.symm hd)

/-- The reports of pending entries with the results for them. -/
def merged (a : Analyzer) (ps : List Prepared) (results : List MethodResult) : List MethodReport :=
  (ps.filterMap Prepared.pending?).zipWith (fun p res => merge a p.1 res) results

/-- The last report with a digest says what is kept under it. -/
def lastKept (rs : List MethodReport) (s : VerdictStore) (d : Digest) :
    Except StoreFault (List UInt8) :=
  (rs.reverse.find? fun r => decide (r.hash = d)).elim (s.getBytes d) fun r =>
    .ok { toVerdict r with version := Verdict.currentVersion }.encode

theorem lastKept_cons {s s' : VerdictStore} {r : MethodReport} {d : Digest}
    (h : s'.getBytes d =
      if r.hash = d then .ok { toVerdict r with version := Verdict.currentVersion }.encode
      else s.getBytes d) (rs : List MethodReport) :
    lastKept (r :: rs) s d = lastKept rs s' d := by
  unfold lastKept
  rw [List.reverse_cons, List.find?_append]
  cases rs.reverse.find? fun r => decide (r.hash = d) with
  | some last => rfl
  | none =>
    rw [Option.none_or, Option.elim_none, h, List.find?_singleton]
    by_cases hd : r.hash = d <;> simp [hd]

/-- An open store makes no difference to the reports, and it keeps the verdicts of those that were
analysed. -/
theorem complete_some {s : VerdictStore} (hs : s.isOpen = true) (a : Analyzer) (ps : List Prepared)
    (results : List MethodResult) :
    ∃ rs s', complete a ps results none = (.ok rs, none) ∧
      complete a ps results (some s) = (.ok rs, some s') ∧ s'.isOpen = true ∧
      ∀ d, s'.getBytes d = lastKept (merged a ps results) s d := by
  -- the puts are made one after the other, so the induction is over the entries with any store
  induction ps generalizing s results with
  | nil => exact ⟨[], s, rfl, rfl, hs, fun _ => rfl⟩
  | cons p ps ih =>
    cases p with
    | complete r =>
      obtain ⟨rs, s', hnone, hsome, hopen, hbytes⟩ := ih hs results
      refine ⟨r :: rs, s', ?_, ?_, hopen, hbytes⟩
      · rw [complete, hnone]
      · rw [complete, hsome]
    | pending r m =>
      cases results with
      | nil => exact ⟨[], s, rfl, rfl, hs, fun _ => rfl⟩
      | cons res results =>
        obtain ⟨s₁, hkeep, hopen₁, hbytes₁⟩ := keep_some hs (merge a r res)
        obtain ⟨rs, s', hnone, hsome, hopen, hbytes⟩ := ih hopen₁ results
        refine ⟨merge a r res :: rs, s', ?_, ?_, hopen, fun d => ?_⟩
        · simp only [complete, keep, hnone]
        · simp only [complete, hkeep, hsome]
        · rw [hbytes d]
          exact (lastKept_cons (hbytes₁ d) _).symm

/-! ## Outcomes -/

/-- The result for a job. -/
def Job.result (config : Config) (j : Job) (canceled : Bool) : MethodResult :=
  ⟨j.method, if canceled then .canceled else .analysed (preAnalyze config j.method)⟩

/-- An accepted method adds nothing to a verdict but its allocations, with or without detail. -/
theorem toVerdict_merge_accepted (a : Analyzer) (r : MethodReport) (m : Method) {v : Verification}
    {found : Analysis} (h : v.result = .ok found) :
    toVerdict (merge a r ⟨m, .analysed v⟩)
      = { toVerdict r with accepted := true, newInstances := found.newInstances } := by
  obtain ⟨result, records⟩ := v
  cases h
  by_cases hdetail : a.detail = true
  · simp [merge, hdetail, toVerdict]
  · simp [merge, hdetail, toVerdict]

/-- The words for a cancelled method hold no code. -/
theorem code_canceledText : (Failure.text MethodResult.canceledText).code = "" := by
  decide +kernel

/-- What is kept for a job does not depend on the settings of the run. -/
theorem Job.toVerdict_merge (a : Analyzer) (j : Job) (canceled : Bool) :
    { toVerdict (merge a j.report (j.result a.config canceled)) with
      version := Verdict.currentVersion } = j.outcome canceled := by
  cases canceled with
  | true =>
    have hmerge : merge a j.report (j.result a.config true) = { j.report with
        code := (Failure.text MethodResult.canceledText).code
        category := (Failure.text MethodResult.canceledText).category.text
        message := MethodResult.canceledText } := rfl
    rw [hmerge, code_canceledText]
    rfl
  | false =>
    show { toVerdict (merge a j.report ⟨j.method, .analysed (preAnalyze a.config j.method)⟩) with
      version := Verdict.currentVersion } = entryVerdict j.entry j.item
    unfold entryVerdict Job.method
    obtain ⟨count, -, hok⟩ | ⟨offset, cause, herror⟩ := preAnalyze_cases j.item
    · obtain ⟨table, hresult⟩ := hok {} j.entry.className j.entry.method j.entry.proto
      obtain ⟨table', hresult'⟩ := hok a.config j.entry.className j.entry.method j.entry.proto
      simp only [hresult, toVerdict_merge_accepted a _ _ hresult']
      rfl
    · simp only [herror, merge_refused a _ _ (herror a.config _ _ _)]
      rfl

/-- The verdict is kept under the digest of the bytes. -/
theorem Job.hash_merge (a : Analyzer) (j : Job) (canceled : Bool) :
    (merge a j.report (j.result a.config canceled)).hash = j.digest := by
  cases canceled with
  | true => rfl
  | false => exact congrArg MethodReport.hash (core_merge a j.entry j.digest j.item)

/-- The jobs, each with what the schedule says about it. -/
def scheduled (refused : Batch.Refused) (js : List Job) : List (Job × Bool) :=
  js.mapIdx fun i j => (j, refused i)

/-- The last job with a digest, with what the schedule says about it. -/
def lastJob (refused : Batch.Refused) (js : List Job) (d : Digest) : Option (Job × Bool) :=
  (scheduled refused js).reverse.find? fun p => decide (p.1.digest = d)

theorem merged_jobs {a : Analyzer} {ps : List Prepared} {js : List Job}
    (h : ps.filterMap Prepared.pending? = js.map fun j => (j.report, j.method))
    (refused : Batch.Refused) :
    merged a ps (Batch.run a.config refused (ps.filterMap Prepared.method?))
      = (scheduled refused js).map fun p => merge a p.1.report (p.1.result a.config p.2) := by
  have hmethods : ps.filterMap Prepared.method? = js.map Job.method := by
    have hsecond : Prepared.method? = fun p => p.pending?.map Prod.snd := by
      funext p
      cases p <;> rfl
    rw [hsecond, ← List.map_filterMap, h, List.map_map]
    rfl
  unfold merged Batch.run scheduled
  rw [h, hmethods]
  apply List.ext_getElem?
  intro i
  simp only [List.getElem?_zipWith, List.getElem?_map, List.getElem?_mapIdx]
  cases js[i]? <;> rfl

/-- A run on an open store keeps under each digest what the last job with that digest leaves, and
it reports what it would report without the store after the same look-ups. -/
theorem run_jobs {a : Analyzer} {s : VerdictStore} (hs : s.isOpen = true)
    {es : List ManifestEntry} {ps : List Prepared} (hps : (prepareAll a (some s) es).1 = .ok ps)
    (refused : Batch.Refused) :
    ∃ rs s', complete a ps (Batch.run a.config refused (ps.filterMap Prepared.method?)) none
        = (.ok rs, none) ∧
      (run a refused (some s) es).result = .ok rs ∧
      (run a refused (some s) es).store = some s' ∧ s'.isOpen = true ∧
      ∀ d, s'.getBytes d = (lastJob refused (jobs a s es) d).elim (s.getBytes d)
        fun p => .ok (p.1.outcome p.2).encode := by
  obtain ⟨rs, s', hnone, hsome, hopen, hbytes⟩ := complete_some hs a ps
    (Batch.run a.config refused (ps.filterMap Prepared.method?))
  have hrun := run_eq_complete hps refused
  rw [hsome] at hrun
  refine ⟨rs, s', hnone, congrArg Prod.fst hrun, congrArg Prod.snd hrun, hopen, fun d => ?_⟩
  rw [hbytes d, lastKept, merged_jobs (pending?_of_prepareAll hps), ← List.map_reverse,
    List.find?_map]
  have hhash : (fun r : MethodReport => decide (r.hash = d)) ∘
      (fun p : Job × Bool => merge a p.1.report (p.1.result a.config p.2))
        = fun p => decide (p.1.digest = d) := by
    funext p
    simp only [Function.comp_apply, Job.hash_merge]
  rw [hhash, lastJob]
  cases (scheduled refused (jobs a s es)).reverse.find? fun p => decide (p.1.digest = d) with
  | none => rfl
  | some p =>
    simp only [Option.map_some, Option.elim_some, Job.toVerdict_merge]

end Analyzer
end Dalvik
