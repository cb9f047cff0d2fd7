import Mathlib
import Dalvik.Proofs.KeptVerdicts

/-!
# Cancelled runs

A run keeps a verdict for every job, also for those that cancellation kept from starting. So the
bytes under a digest are those from before or the verdict of a completed analysis unless the last
job with that digest was cancelled (`store_of_canceledRun`). What is kept then is a rejection,
which later runs take for the verdict on the body.
-/

namespace Dalvik
namespace Analyzer

/-! ## Runs that fail -/

theorem run_of_prepareAll_error {a : Analyzer} {store : Option VerdictStore}
    {es : List ManifestEntry} {fault : StoreFault} (h : (prepareAll a store es).1 = .error fault)
    (refused : Batch.Refused) :
    (run a refused store es).result = .error fault ∧ (run a refused store es).store = store := by
  unfold run
  revert h
  rcases prepareAll a store es with ⟨result, records⟩
  intro h
  cases h
  exact ⟨rfl, rfl⟩

/-- A closed store stays as it is: the first verdict that is to be kept makes the run fail. -/
theorem complete_closed {s : VerdictStore} (hs : s.isOpen = false) (a : Analyzer)
    (ps : List Prepared) (results : List MethodResult) :
    (∃ fault, complete a ps results (some s) = (.error fault, some s)) ∨
      ∃ rs, complete a ps results (some s) = (.ok rs, some s) ∧ merged a ps results = [] := by
  induction ps generalizing results with
  | nil => exact .inr ⟨[], rfl, rfl⟩
  | cons p ps ih =>
    cases p with
    | complete r =>
      obtain ⟨fault, herror⟩ | ⟨rs, hok, hmerged⟩ := ih results
      · refine .inl ⟨fault, ?_⟩
        rw [complete, herror]
      · refine .inr ⟨r :: rs, ?_, hmerged⟩
        rw [complete, hok]
    | pending r m =>
      cases results with
      | nil => exact .inr ⟨[], rfl, rfl⟩
      | cons res results =>
        have hkeep : keep (some s) (merge a r res) = .error (.put (merge a r res).hash) := by
          simp [keep, VerdictStore.put, VerdictStore.putBytes, hs, Except.map]
        refine .inl ⟨.put (merge a r res).hash, ?_⟩
        simp only [complete, hkeep]

/-- A run that fails leaves the store as it was, and one that does not fail keeps under each digest
what the last job with that digest leaves. -/
theorem store_of_run (a : Analyzer) (refused : Batch.Refused) (s : VerdictStore)
    (es : List ManifestEntry) :
    (∃ fault, (run a refused (some s) es).result = .error fault ∧
        (run a refused (some s) es).store = some s) ∨
      ∃ reports s', (run a refused (some s) es).result = .ok reports ∧
        (run a refused (some s) es).store = some s' ∧
        ∀ d, s'.getBytes d = (lastJob refused (jobs a s es) d).elim (s.getBytes d)
          fun p => .ok (p.1.outcome p.2).encode := by
  cases hps : (prepareAll a (some s) es).1 with
  | error fault => exact .inl ⟨fault, run_of_prepareAll_error hps refused⟩
  | ok ps =>
    cases hs : s.isOpen with
    | true =>
      obtain ⟨rs, s', -, hresult, hstore, -, hbytes⟩ := run_jobs hs hps refused
      exact .inr ⟨rs, s', hresult, hstore, hbytes⟩
    | false =>
      have hrun := run_eq_complete hps refused
      obtain ⟨fault, herror⟩ | ⟨rs, hok, hmerged⟩ := complete_closed hs a ps
        (Batch.run a.config refused (ps.filterMap Prepared.method?))
      · rw [herror] at hrun
        exact .inl ⟨fault, congrArg Prod.fst hrun, congrArg Prod.snd hrun⟩
      · rw [hok] at hrun
        refine .inr ⟨rs, s, congrArg Prod.fst hrun, congrArg Prod.snd hrun, fun d => ?_⟩
        -- nothing was to be kept, so there was no job
        rw [merged_jobs (pending?_of_prepareAll hps), List.map_eq_nil_iff] at hmerged
        rw [lastJob, hmerged]
        rfl

/-! ## Cancelled jobs -/

/-- The last job with a digest, if it was cancelled. -/
def canceledJob? (refused : Batch.Refused) (js : List Job) (d : Digest) : Option Job :=
  ((lastJob refused js d).filter Prod.snd).map Prod.fst

theorem mem_of_lastJob {refused : Batch.Refused} {js : List Job} {d : Digest} {p : Job × Bool}
    (h : lastJob refused js d = some p) : p.1 ∈ js ∧ p.1.digest = d := by
  have hdigest := List.find?_some h
  have hmem := List.mem_reverse.mp (List.mem_of_find?_eq_some h)
  unfold scheduled at hmem
  obtain ⟨i, hi, hp⟩ := List.mem_mapIdx.mp hmem
  refine ⟨?_, of_decide_eq_true hdigest⟩
  rw [← hp]
  exact List.getElem_mem hi

/-- What the store has under a digest was there before or comes from a completed analysis. -/
def Trustworthy (s s' : VerdictStore) (es : List ManifestEntry) (d : Digest) : Prop :=
  s'.getBytes d = s.getBytes d ∨
    ∃ j : Job, j.entry ∈ es ∧ j.digest = d ∧
      s'.getBytes d = .ok (entryVerdict j.entry j.item).encode

/-- The bytes of different verdicts differ. -/
theorem encode_entryVerdict_ne (j j' : Job) :
    (entryVerdict j.entry j.item).encode ≠ (canceledVerdict j'.item).encode := by
  intro heq
  have hdecode := Verdict.decode_encode (fits_canceledVerdict j'.parsed)
  rw [← heq, Verdict.decode_encode (fits_entryVerdict j.parsed j.entry)] at hdecode
  exact entryVerdict_ne_canceledVerdict j.entry j.item j'.item (Except.ok.inj hdecode)

/-- Only a cancelled job spoils what is kept. -/
theorem trustworthy_iff {a : Analyzer} {refused : Batch.Refused} {s s' : VerdictStore}
    {es : List ManifestEntry} {d : Digest}
    (h : s'.getBytes d = (lastJob refused (jobs a s es) d).elim (s.getBytes d)
      fun p => .ok (p.1.outcome p.2).encode) :
    Trustworthy s s' es d ↔ ∀ j, canceledJob? refused (jobs a s es) d = some j →
      s.getBytes d = .ok (canceledVerdict j.item).encode := by
  unfold canceledJob?
  cases hlast : lastJob refused (jobs a s es) d with
  | none =>
    rw [hlast] at h
    exact iff_of_true (.inl h) (by simp)
  | some p =>
    obtain ⟨hmem, hdigest⟩ := mem_of_lastJob hlast
    obtain ⟨j, canceled⟩ := p
    rw [hlast] at h
    cases canceled with
    | false =>
      have hdone : Trustworthy s s' es d :=
        .inr ⟨j, entry_mem_of_mem_jobs hmem, hdigest, h⟩
      exact iff_of_true hdone (by simp)
    | true =>
      have hcanceled : s'.getBytes d = .ok (canceledVerdict j.item).encode := h
      have hiff : Trustworthy s s' es d ↔ s.getBytes d = .ok (canceledVerdict j.item).encode := by
        unfold Trustworthy
        rw [hcanceled]
        constructor
        · intro htrust
          rcases htrust with hbefore | ⟨j', -, -, hdone⟩
          · exact hbefore.symm
          · exact absurd (Except.ok.inj hdone).symm (encode_entryVerdict_ne j' j)
        · intro hbefore
          exact .inl hbefore.symm
      rw [hiff]
      simp

/-! ## Later runs -/

/-- A run without detail takes the verdict that it finds. -/
theorem run_found {a : Analyzer} (hdetail : a.detail = false) {s : VerdictStore}
    {e : ManifestEntry} {b : List UInt8} (hb : Bytes.Hex.decode e.code = .ok b) {v : Verdict}
    (hget : (s.get (Digest.compute b)).1 = .ok (some v)) :
    (run a Batch.Refused.none (some s) [e]).result
      = .ok [ofVerdict (blankReport e (Digest.compute b)) v] := by
  have hprepare : (prepare a (some s) e).1
      = .ok (.complete (ofVerdict (blankReport e (Digest.compute b)) v)) := by
    rw [prepare_eq, hb, hdetail]
    simp only [Bool.false_eq_true, if_false, hget]
  have hps : (prepareAll a (some s) [e]).1
      = .ok [.complete (ofVerdict (blankReport e (Digest.compute b)) v)] := by
    rw [prepareAll, prepareAll]
    revert hprepare
    rcases prepare a (some s) e with ⟨result, records⟩
    intro hprepare
    cases hprepare
    rfl
  rw [(run_of_prepareAll hps).1]
  rfl

/-- A cancelled job is reported as a rejection by the runs that come later. -/
theorem run_of_canceledJob? {refused : Batch.Refused} {js : List Job} {s s' : VerdictStore}
    {d : Digest} (h : s'.getBytes d = (lastJob refused js d).elim (s.getBytes d)
      fun p => .ok (p.1.outcome p.2).encode) {j : Job} (hj : canceledJob? refused js d = some j)
    {later : Analyzer} (hdetail : later.detail = false) {e : ManifestEntry} {b : List UInt8}
    (hb : Bytes.Hex.decode e.code = .ok b) (hd : Digest.compute b = d) :
    (run later Batch.Refused.none (some s') [e]).result
      = .ok [ofVerdict (blankReport e d) (canceledVerdict j.item)] := by
  obtain ⟨p, hp, rfl⟩ := Option.map_eq_some_iff.mp hj
  obtain ⟨hlast, hcanceled⟩ := Option.filter_eq_some_iff.mp hp
  rw [hlast, Option.elim_some, hcanceled] at h
  have hget := VerdictStore.get_of_encode h (p.1.fits_outcome true) (p.1.version_outcome true)
  rw [← hd] at hget ⊢
  exact run_found hdetail hb hget

/-- Any of the jobs of a run may be cancelled. If the run fails, the store is as it was. Otherwise
the bytes under a digest are those from before or those of a completed analysis if and only if the
last job with that digest was not cancelled, unless the mark of its cancellation was there before.
Where it was cancelled, every later run that asks the store rejects the body with the words for
a cancelled method. -/
theorem store_of_canceledRun (a : Analyzer) (refused : Batch.Refused) (s : VerdictStore)
    (es : List ManifestEntry) :
    (∃ fault, (run a refused (some s) es).result = .error fault ∧
        (run a refused (some s) es).store = some s) ∨
      ∃ reports s', (run a refused (some s) es).result = .ok reports ∧
        (run a refused (some s) es).store = some s' ∧
        ∀ d, (Trustworthy s s' es d ↔ ∀ j, canceledJob? refused (jobs a s es) d = some j →
            s.getBytes d = .ok (canceledVerdict j.item).encode) ∧
          ∀ j, canceledJob? refused (jobs a s es) d = some j →
            ∀ (later : Analyzer) (e : ManifestEntry) (b : List UInt8), later.detail = false →
              Bytes.Hex.decode e.code = .ok b → Digest.compute b = d →
              (run later Batch.Refused.none (some s') [e]).result
                = .ok [ofVerdict (blankReport e d) (canceledVerdict j.item)] := by
  obtain hfailed | ⟨reports, s', hresult, hstore, hbytes⟩ := store_of_run a refused s es
  · exact .inl hfailed
  · refine .inr ⟨reports, s', hresult, hstore, fun d => ⟨trustworthy_iff (hbytes d), ?_⟩⟩
    intro j hj later e b hdetail hb hd
    exact run_of_canceledJob? (hbytes d) hj hdetail hb hd

/-- An entry with a body that returns at once. -/
def returnEntry : ManifestEntry :=
  { className := "LA;", method := "f", proto := "V",
    code := "010000000000000000000000010000000e00" }

/-- Without a store the entry is accepted. A run on an empty store that is cancelled before its
only job starts leaves a verdict that no analysis gives, and the next run on that store rejects
the entry. -/
theorem run_of_canceledReturnEntry :
    (∃ r, (run {} Batch.Refused.none none [returnEntry]).result = .ok [r] ∧ r.accepted = true) ∧
      ∃ s', (run {} (fun _ => true) (some {}) [returnEntry]).store = some s' ∧
        ¬ Trustworthy {} s' [returnEntry] (Digest.compute returnBytes) ∧
        ∃ r, (run {} Batch.Refused.none (some s') [returnEntry]).result = .ok [r] ∧
          r.accepted = false ∧ r.message = "context canceled" := by
  have hdecode : Bytes.Hex.decode returnEntry.code = .ok returnBytes := by decide +kernel
  obtain ⟨item, hitem⟩ : ∃ item, CodeItem.parse returnBytes = .ok item := ⟨_, rfl⟩
  let j : Job := ⟨returnEntry, returnBytes, item, hdecode, hitem⟩
  constructor
  · obtain ⟨reports, hresult, hreports⟩ := run_none {} [returnEntry]
    obtain ⟨r, rest, hr, hrest, rfl⟩ := List.forall₂_cons_left_iff.mp hreports
    cases hrest
    refine ⟨r, hresult, ?_⟩
    have hcore : (entryCore returnEntry).accepted = true := by decide +kernel
    rw [← hr.1] at hcore
    exact hcore
  · -- the empty store knows no verdict, so the entry is the only job
    have hjobs : jobs {} {} [returnEntry] = [j] := by
      have hjob : job? {} {} returnEntry = some j := by
        unfold job?
        rw [Job.ofEntry?_eq_some_iff.mpr (rfl : j.entry = returnEntry)]
        simp [VerdictStore.get_empty]
      unfold jobs
      rw [List.filterMap_cons_some hjob, List.filterMap_nil]
    have hcanceled : canceledJob? (fun _ => true) [j] (Digest.compute returnBytes) = some j := by
      simp [canceledJob?, lastJob, scheduled, j, Job.digest]
    obtain ⟨ps, hps, -⟩ := exists_prepareAll [returnEntry] fun e _ =>
      (holds_empty Set.univ).prepare {} fun b _ => Set.mem_univ b
    obtain ⟨rs, s', -, -, hstore, -, hbytes⟩ := run_jobs rfl hps fun _ => true
    rw [hjobs] at hbytes
    refine ⟨s', hstore, ?_, _, run_of_canceledJob? (hbytes _) hcanceled rfl hdecode rfl, rfl, rfl⟩
    rw [← hjobs] at hbytes hcanceled
    rw [trustworthy_iff (hbytes _)]
    intro hbefore
    cases hbefore j hcanceled

end Analyzer
end Dalvik
