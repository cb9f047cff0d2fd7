import Mathlib
import Dalvik.Proofs.Cancellation

/-!
# Runs entry by entry

A run that nobody cancels looks every entry up before it keeps any verdict. So the entries do not
see each other, even if they share a digest: the run fails if and only if it would fail on one of
them alone, it reports on each what it would report on it alone, and it puts the verdicts of those
that it had to analyse into the store in their order (`pointwise_run`). A run that fails leaves the
store as it was. All of this holds for any store: none, an open one with whatever bytes in it, or a
closed one.
-/

namespace Dalvik

/-! ## Keeping several verdicts -/

namespace VerdictStore

/-- Keeps verdicts one after the other. -/
def putAll (s : VerdictStore) (kept : List (Digest × Verdict)) : Except StoreFault VerdictStore :=
  kept.foldlM (fun s p => s.put p.1 p.2) s

theorem putAll_cons_ok {s s' : VerdictStore} {p : Digest × Verdict} (h : s.put p.1 p.2 = .ok s')
    (kept : List (Digest × Verdict)) : s.putAll (p :: kept) = s'.putAll kept := by
  rw [putAll, List.foldlM_cons, h]
  rfl

/-- A closed store gives no answer. -/
theorem isOpen_of_get {s : VerdictStore} {d : Digest} {v : Option Verdict}
    (h : (s.get d).1 = .ok v) : s.isOpen = true := by
  by_contra hclosed
  rw [get, getBytes, if_neg hclosed] at h
  cases h

/-- A closed store takes no verdict. -/
theorem put_closed {s : VerdictStore} (hs : s.isOpen = false) (d : Digest) (v : Verdict) :
    s.put d v = .error (.put d) := by
  rw [put, putBytes, hs, if_neg Bool.false_ne_true]

theorem putAll_closed {s : VerdictStore} (hs : s.isOpen = false) (p : Digest × Verdict)
    (kept : List (Digest × Verdict)) : s.putAll (p :: kept) = .error (.put p.1) := by
  rw [putAll, List.foldlM_cons, put_closed hs]
  rfl

/-- In an open store the bytes under a key are what is read. -/
theorem bytes?_eq_of_getBytes {s s' : VerdictStore} (hs : s.isOpen = true) (hs' : s'.isOpen = true)
    {d : Digest} (h : s'.getBytes d = s.getBytes d) : s'.bytes? d = s.bytes? d := by
  have hread : ∀ t : VerdictStore, t.isOpen = true →
      t.bytes? d = (t.getBytes d).toOption := by
    intro t ht
    rw [getBytes, if_pos ht]
    cases t.bytes? d <;> rfl
  rw [hread s hs, hread s' hs', h]

/-- An open store takes all verdicts and keeps what it has under other digests. -/
theorem putAll_open {s : VerdictStore} (hs : s.isOpen = true) (kept : List (Digest × Verdict)) :
    ∃ s', s.putAll kept = .ok s' ∧ ∀ d, (∀ p ∈ kept, p.1 ≠ d) → s'.bytes? d = s.bytes? d := by
  induction kept generalizing s with
  | nil => exact ⟨s, rfl, fun _ _ => rfl⟩
  | cons p kept ih =>
    obtain ⟨s₁, hput, hopen, -, hother⟩ := getBytes_put hs p.1 p.2
    obtain ⟨s', hall, hrest⟩ := ih hopen
    refine ⟨s', (putAll_cons_ok hput kept).trans hall, fun d hd => ?_⟩
    rw [List.forall_mem_cons] at hd
    rw [hrest d hd.2]
    exact bytes?_eq_of_getBytes hs hopen (hother d hd.1.symm)

/-- Verdicts cannot be kept if there are some and the store is closed. -/
theorem exists_putAll_error_iff (s : VerdictStore) (kept : List (Digest × Verdict)) :
    (∃ fault, s.putAll kept = .error fault) ↔ s.isOpen = false ∧ kept ≠ [] := by
  cases hs : s.isOpen with
  | true =>
    obtain ⟨s', hall, -⟩ := putAll_open hs kept
    simp [hall]
  | false =>
    cases kept with
    | nil => exact iff_of_false (fun ⟨_, h⟩ => by cases h) fun h => h.2 rfl
    | cons p kept =>
      exact iff_of_true ⟨_, putAll_closed hs p kept⟩ ⟨rfl, List.cons_ne_nil p kept⟩

/-- Whatever verdicts a store takes, it keeps what it has under other digests. -/
theorem bytes?_of_putAll {s s' : VerdictStore} {kept : List (Digest × Verdict)}
    (h : s.putAll kept = .ok s') {d : Digest} (hd : ∀ p ∈ kept, p.1 ≠ d) :
    s'.bytes? d = s.bytes? d := by
  cases hs : s.isOpen with
  | true =>
    obtain ⟨s₁, hall, hother⟩ := putAll_open hs kept
    rw [hall] at h
    cases h
    exact hother d hd
  | false =>
    cases kept with
    | nil =>
      cases h
      rfl
    | cons p kept =>
      rw [putAll_closed hs] at h
      cases h

end VerdictStore

namespace Analyzer

/-! ## Completing -/

/-- The verdict of a report as a store keeps it. -/
def storedVerdict (r : MethodReport) : Verdict :=
  { toVerdict r with version := Verdict.currentVersion }

/-- What is kept for a pending entry after its analysis. -/
def kept (a : Analyzer) (q : MethodReport × Method) : Digest × Verdict :=
  (q.1.hash, storedVerdict (finish a (.pending q.1 q.2)))

/-- What is kept for a prepared entry. -/
def kept? (a : Analyzer) (p : Prepared) : Option (Digest × Verdict) := p.pending?.map (kept a)

/-- An analysis does not change the digest of a report. -/
theorem hash_merge (a : Analyzer) (r : MethodReport) (res : MethodResult) :
    (merge a r res).hash = r.hash := by
  unfold merge
  split
  · dsimp only
    split <;> rfl
  · rfl

theorem keep_finish (a : Analyzer) (s : VerdictStore) (r : MethodReport) (m : Method) :
    keep (some s) (finish a (.pending r m))
      = (s.put r.hash (storedVerdict (finish a (.pending r m)))).map some := by
  have hhash : (finish a (.pending r m)).hash = r.hash := hash_merge a r _
  rw [keep, hhash]
  -- the store writes its version into whatever it keeps
  rfl

/-- An open store takes the verdicts of all entries, and the reports are completed in order. -/
theorem complete_open {s : VerdictStore} (hs : s.isOpen = true) (a : Analyzer)
    (ps : List Prepared) :
    ∃ s', s.putAll (ps.filterMap (kept? a)) = .ok s' ∧
      complete a ps (results a ps) (some s) = (.ok (ps.map (finish a)), some s') := by
  induction ps generalizing s with
  | nil => exact ⟨s, rfl, rfl⟩
  | cons p ps ih =>
    cases p with
    | complete r =>
      obtain ⟨s', hall, hcomplete⟩ := ih hs
      exact ⟨s', hall, complete_cons_complete r hcomplete⟩
    | pending r m =>
      obtain ⟨s₁, hput, hopen, -⟩ :=
        VerdictStore.getBytes_put hs r.hash (storedVerdict (finish a (.pending r m)))
      obtain ⟨s', hall, hcomplete⟩ := ih hopen
      have hkept : (Prepared.pending r m :: ps).filterMap (kept? a)
          = (r.hash, storedVerdict (finish a (.pending r m))) :: ps.filterMap (kept? a) := rfl
      refine ⟨s', ?_, complete_cons_pending ?_ hcomplete⟩
      · rw [hkept, VerdictStore.putAll_cons_ok hput, hall]
      · rw [keep_finish, hput]
        rfl

/-- The entries are completed in order and their verdicts are kept, or nothing is. -/
theorem complete_results (a : Analyzer) (ps : List Prepared) (s : VerdictStore) :
    complete a ps (results a ps) (some s) = match s.putAll (ps.filterMap (kept? a)) with
      | .ok s' => (.ok (ps.map (finish a)), some s')
      | .error fault => (.error fault, some s) := by
  cases hs : s.isOpen with
  | true =>
    obtain ⟨s', hall, hcomplete⟩ := complete_open hs a ps
    rw [hall]
    exact hcomplete
  | false =>
    -- the first verdict that is to be kept decides
    induction ps with
    | nil => rfl
    | cons p ps ih =>
      cases p with
      | complete r =>
        have hkept : (Prepared.complete r :: ps).filterMap (kept? a)
            = ps.filterMap (kept? a) := rfl
        rw [results_complete, complete, ih, hkept]
        cases s.putAll (ps.filterMap (kept? a)) <;> rfl
      | pending r m =>
        have hkept : (Prepared.pending r m :: ps).filterMap (kept? a)
            = (r.hash, storedVerdict (finish a (.pending r m))) :: ps.filterMap (kept? a) := rfl
        have hkeep : keep (some s) (finish a (.pending r m)) = .error (.put r.hash) := by
          rw [keep_finish, VerdictStore.put_closed hs]
          rfl
        unfold finish at hkeep
        rw [hkept, VerdictStore.putAll_closed hs, results_pending, complete]
        simp only [hkeep]

/-! ## Failures -/

/-- There is a store, and it has been closed. -/
def Closed (store : Option VerdictStore) : Prop := ∃ s, store = some s ∧ s.isOpen = false

theorem closed_some_iff (s : VerdictStore) : Closed (some s) ↔ s.isOpen = false := by
  simp [Closed]

/-- The entry stands in the way of a run: the store fails to answer, or it does not take the
verdict. -/
def Blocked (a : Analyzer) (store : Option VerdictStore) (e : ManifestEntry) : Prop :=
  (∃ fault, (prepare a store e).1 = .error fault) ∨
    Closed store ∧ ∃ p, (prepare a store e).1 = .ok p ∧ kept? a p ≠ none

theorem blocked_iff {a : Analyzer} {store : Option VerdictStore} {e : ManifestEntry} {p : Prepared}
    (h : (prepare a store e).1 = .ok p) :
    Blocked a store e ↔ Closed store ∧ kept? a p ≠ none := by
  simp [Blocked, h]

theorem exists_blocked_iff {a : Analyzer} {store : Option VerdictStore} {es : List ManifestEntry}
    {ps : List Prepared} (h : List.Forall₂ (fun e p => (prepare a store e).1 = .ok p) es ps) :
    (∃ e ∈ es, Blocked a store e) ↔ Closed store ∧ ps.filterMap (kept? a) ≠ [] := by
  induction h with
  | nil => simp
  | cons hp _ ih =>
    rw [List.exists_mem_cons_iff, blocked_iff hp, ih, ← and_or_left, Ne, Ne, Ne,
      List.filterMap_eq_nil_iff, List.filterMap_eq_nil_iff, List.forall_mem_cons, not_and_or]

/-- Entries that cannot be prepared together cannot be prepared one by one. -/
theorem exists_prepare_error {a : Analyzer} {store : Option VerdictStore}
    {es : List ManifestEntry} {fault : StoreFault} (h : (prepareAll a store es).1 = .error fault) :
    ∃ e ∈ es, ∃ fault, (prepare a store e).1 = .error fault := by
  by_contra hnone
  obtain ⟨ps, hps, -⟩ := exists_prepareAll (P := fun _ _ => True) es fun e he => by
    cases hp : (prepare a store e).1 with
    | error fault => exact absurd ⟨e, he, fault, hp⟩ hnone
    | ok p => exact ⟨p, rfl, trivial⟩
  rw [h] at hps
  cases hps

/-- What becomes of entries that have been prepared. -/
theorem run_of_prepared {a : Analyzer} {store : Option VerdictStore} {es : List ManifestEntry}
    {ps : List Prepared} (h : (prepareAll a store es).1 = .ok ps) :
    ((run a Batch.Refused.none store es).result, (run a Batch.Refused.none store es).store)
      = match store with
        | none => (.ok (ps.map (finish a)), none)
        | some s => match s.putAll (ps.filterMap (kept? a)) with
          | .ok s' => (.ok (ps.map (finish a)), some s')
          | .error fault => (.error fault, some s) := by
  rw [run_eq_complete h]
  cases store with
  | none => exact complete_none a ps
  | some s => exact complete_results a ps s

/-- One of the entries stands in the way and the run fails, or every entry is prepared and finished
and their verdicts are kept. -/
theorem run_cases (a : Analyzer) (store : Option VerdictStore) (es : List ManifestEntry) :
    (∃ fault, (run a Batch.Refused.none store es).result = .error fault ∧
        (run a Batch.Refused.none store es).store = store ∧ ∃ e ∈ es, Blocked a store e) ∨
      ∃ ps, List.Forall₂ (fun e p => (prepare a store e).1 = .ok p) es ps ∧
        (run a Batch.Refused.none store es).result = .ok (ps.map (finish a)) ∧
        (store = none → (run a Batch.Refused.none store es).store = none) ∧
        (∀ s, store = some s → ∃ s', s.putAll (ps.filterMap (kept? a)) = .ok s' ∧
          (run a Batch.Refused.none store es).store = some s') ∧
        ¬ ∃ e ∈ es, Blocked a store e := by
  cases hps : (prepareAll a store es).1 with
  | error fault =>
    obtain ⟨hresult, hstore⟩ := run_of_prepareAll_error hps Batch.Refused.none
    obtain ⟨e, he, hfault⟩ := exists_prepare_error hps
    exact .inl ⟨fault, hresult, hstore, e, he, .inl hfault⟩
  | ok ps =>
    have hprepared := forall₂_of_prepareAll hps
    have hblocked := exists_blocked_iff hprepared
    have hrun := run_of_prepared hps
    cases store with
    | none =>
      refine .inr ⟨ps, hprepared, congrArg Prod.fst hrun, fun _ => congrArg Prod.snd hrun, ?_, ?_⟩
      · intro s hs
        cases hs
      · rw [hblocked]
        rintro ⟨⟨s, hs, -⟩, -⟩
        cases hs
    | some s =>
      rw [closed_some_iff, ← VerdictStore.exists_putAll_error_iff] at hblocked
      dsimp only at hrun
      cases hall : s.putAll (ps.filterMap (kept? a)) with
      | error fault =>
        rw [hall] at hrun hblocked
        exact .inl ⟨fault, congrArg Prod.fst hrun, congrArg Prod.snd hrun,
          hblocked.mpr ⟨fault, rfl⟩⟩
      | ok s' =>
        rw [hall] at hrun hblocked
        refine .inr ⟨ps, hprepared, congrArg Prod.fst hrun, ?_, ?_, ?_⟩
        · intro hnone
          cases hnone
        · intro s₁ hs₁
          cases hs₁
          exact ⟨s', hall, congrArg Prod.snd hrun⟩
        · rw [hblocked]
          rintro ⟨fault, hfault⟩
          cases hfault

/-- A run fails if and only if one of its entries stands in the way. -/
theorem run_error_iff (a : Analyzer) (store : Option VerdictStore) (es : List ManifestEntry) :
    (∃ fault, (run a Batch.Refused.none store es).result = .error fault) ↔
      ∃ e ∈ es, Blocked a store e := by
  obtain ⟨fault, hresult, -, hblocked⟩ | ⟨ps, -, hresult, -, -, hblocked⟩ := run_cases a store es
  · exact iff_of_true ⟨fault, hresult⟩ hblocked
  · refine iff_of_false ?_ hblocked
    rw [hresult]
    rintro ⟨fault, hfault⟩
    cases hfault

/-! ## Entries on their own -/

/-- A run on the store fails on the entry. With detail the store is only written to, and that fails
if it is closed and there is a verdict to keep. Without detail the store is asked for the bytes,
and that fails if it is closed or has no verdict under their digest that can be read. -/
def FailsOn (a : Analyzer) (s : VerdictStore) (e : ManifestEntry) : Prop :=
  ∃ b, Bytes.Hex.decode e.code = .ok b ∧
    if a.detail then s.isOpen = false ∧ ∃ item, CodeItem.parse b = .ok item
    else ∃ fault, (s.get (Digest.compute b)).1 = .error fault

theorem kept?_prepareBytes_ne_none_iff (a : Analyzer) (r : MethodReport) (b : List UInt8) :
    kept? a (prepareBytes r b).1 ≠ none ↔ ∃ item, CodeItem.parse b = .ok item := by
  unfold prepareBytes
  cases hitem : CodeItem.parse b with
  | error fault => simp [kept?, Prepared.pending?]
  | ok item => simp [kept?, Prepared.pending?]

theorem not_blocked_none (a : Analyzer) (e : ManifestEntry) : ¬ Blocked a none e := by
  obtain ⟨p, hp, -⟩ := prepare_none a e
  rw [blocked_iff hp]
  rintro ⟨⟨s, hs, -⟩, -⟩
  cases hs

theorem blocked_some_iff (a : Analyzer) (s : VerdictStore) (e : ManifestEntry) :
    Blocked a (some s) e ↔ FailsOn a s e := by
  have hprepare := prepare_eq a (some s) e
  unfold FailsOn
  cases hb : Bytes.Hex.decode e.code with
  | error fault =>
    rw [hb] at hprepare
    rw [blocked_iff hprepare]
    simp [kept?, Prepared.pending?]
  | ok b =>
    rw [hb] at hprepare
    simp only [Except.ok.injEq, exists_eq_left']
    cases hdetail : a.detail with
    | true =>
      rw [hdetail] at hprepare
      rw [blocked_iff hprepare, closed_some_iff, kept?_prepareBytes_ne_none_iff, if_pos rfl]
    | false =>
      rw [hdetail] at hprepare
      simp only [Bool.false_eq_true, if_false] at hprepare ⊢
      cases hget : (s.get (Digest.compute b)).1 with
      | error fault =>
        rw [hget] at hprepare
        exact iff_of_true (.inl ⟨fault, hprepare⟩) ⟨fault, rfl⟩
      -- a store that answers is open, so it takes the verdict
      | ok v =>
        have hopen := VerdictStore.isOpen_of_get hget
        rw [hget] at hprepare
        have hno : ¬ Blocked a (some s) e := by
          cases v <;> simp [blocked_iff hprepare, closed_some_iff, hopen]
        exact iff_of_false hno (by simp)

/-- Without a store no run fails on an entry. -/
theorem blocked_iff_failsOn (a : Analyzer) (store : Option VerdictStore) (e : ManifestEntry) :
    Blocked a store e ↔ ∃ s, store = some s ∧ FailsOn a s e := by
  cases store with
  | none => simp [not_blocked_none]
  | some s => simp [blocked_some_iff]

/-- A run on an entry that does not stand in the way reports how it was finished. -/
theorem run_singleton {a : Analyzer} {store : Option VerdictStore} {e : ManifestEntry}
    {p : Prepared} (hp : (prepare a store e).1 = .ok p) (h : ¬ Blocked a store e) :
    (run a Batch.Refused.none store [e]).result = .ok [finish a p] := by
  obtain ⟨fault, -, -, hblocked⟩ | ⟨ps, hprepared, hresult, -⟩ := run_cases a store [e]
  · obtain ⟨e', he', hblocked⟩ := hblocked
    rw [List.mem_singleton.mp he'] at hblocked
    exact absurd hblocked h
  · cases hprepared with
    | cons hp' hrest =>
      cases hrest
      rw [hp] at hp'
      cases hp'
      exact hresult

/-- The verdicts on the entries that a run on a store had to analyse, each under the digest of the
bytes, in the order of the entries. The verdict is what the pre-analysis of the entry finds. -/
def freshVerdicts (a : Analyzer) (s : VerdictStore) (es : List ManifestEntry) :
    List (Digest × Verdict) :=
  (jobs a s es).map fun j => (j.digest, entryVerdict j.entry j.item)

/-- What is kept for a job is the verdict on its entry. -/
theorem kept_job (a : Analyzer) (j : Job) :
    kept a (j.report, j.method) = (j.digest, entryVerdict j.entry j.item) :=
  Prod.ext rfl (j.toVerdict_merge a false)

/-- What is kept for prepared entries are the verdicts on the jobs. -/
theorem filterMap_kept? {a : Analyzer} {s : VerdictStore} {es : List ManifestEntry}
    {ps : List Prepared} (h : List.Forall₂ (fun e p => (prepare a (some s) e).1 = .ok p) es ps) :
    ps.filterMap (kept? a) = freshVerdicts a s es := by
  unfold freshVerdicts jobs
  rw [List.map_filterMap]
  induction h with
  | nil => rfl
  | cons hp _ ih =>
    rw [List.filterMap_cons, List.filterMap_cons, ih, kept?, pending?_of_prepare hp]
    simp only [Option.map_map, Function.comp_def, kept_job]

/-- The report on an entry that had to be analysed says what its verdict says. -/
theorem storedVerdict_of_job {a : Analyzer} {s : VerdictStore} {e : ManifestEntry} {p : Prepared}
    (hp : (prepare a (some s) e).1 = .ok p) {j : Job} (hj : job? a s e = some j) :
    storedVerdict (finish a p) = entryVerdict j.entry j.item := by
  have hpending := pending?_of_prepare hp
  rw [hj] at hpending
  cases p with
  | complete r => cases hpending
  | pending r m =>
    cases hpending
    exact j.toVerdict_merge a false

/-- What a run does is what it would do on each of its entries alone. -/
structure Pointwise (a : Analyzer) (store : Option VerdictStore) (es : List ManifestEntry) :
    Prop where
  /-- The run fails if and only if it fails on some entry alone. -/
  fails_iff : (∃ fault, (run a Batch.Refused.none store es).result = .error fault) ↔
    ∃ e ∈ es, ∃ fault, (run a Batch.Refused.none store [e]).result = .error fault
  /-- On an entry alone it fails if and only if there is a store and the store fails. -/
  alone_iff : ∀ e, (∃ fault, (run a Batch.Refused.none store [e]).result = .error fault) ↔
    ∃ s, store = some s ∧ FailsOn a s e
  /-- If it fails, the store stays as it is. -/
  store_of_error : ∀ fault, (run a Batch.Refused.none store es).result = .error fault →
    (run a Batch.Refused.none store es).store = store
  /-- Otherwise there is one report on each entry, which is that of a run on the entry alone. -/
  reports : ∀ rs, (run a Batch.Refused.none store es).result = .ok rs →
    List.Forall₂ (fun e r => (run a Batch.Refused.none store [e]).result = .ok [r]) es rs
  /-- Without a store there is none afterwards. -/
  store_none : store = none → (run a Batch.Refused.none store es).store = none
  /-- With a store the verdicts on the entries that had to be analysed are put into it in order,
  and under other digests it stays as it is. -/
  store_some : ∀ s rs, store = some s → (run a Batch.Refused.none store es).result = .ok rs →
    ∃ s', (run a Batch.Refused.none store es).store = some s' ∧
      s.putAll (freshVerdicts a s es) = .ok s' ∧
      ∀ d, (∀ j ∈ jobs a s es, j.digest ≠ d) → s'.bytes? d = s.bytes? d
  /-- The report on such an entry says what its verdict says. -/
  verdict_of_report : ∀ s rs, store = some s →
    (run a Batch.Refused.none store es).result = .ok rs →
      List.Forall₂ (fun e r => ∀ j, job? a s e = some j →
        storedVerdict r = entryVerdict j.entry j.item) es rs

/-- A run that nobody cancels does what it would do on each of its entries alone, on every store and
with all settings. -/
theorem pointwise_run (a : Analyzer) (store : Option VerdictStore) (es : List ManifestEntry) :
    Pointwise a store es := by
  have hfails : (∃ fault, (run a Batch.Refused.none store es).result = .error fault) ↔
      ∃ e ∈ es, ∃ fault, (run a Batch.Refused.none store [e]).result = .error fault := by
    simp only [run_error_iff, List.mem_singleton, exists_eq_left]
  have halone : ∀ e, (∃ fault, (run a Batch.Refused.none store [e]).result = .error fault) ↔
      ∃ s, store = some s ∧ FailsOn a s e := by
    intro e
    rw [← blocked_iff_failsOn, run_error_iff]
    simp only [List.mem_singleton, exists_eq_left]
  obtain ⟨fault, hresult, hstore, -⟩ | ⟨ps, hprepared, hresult, hnone, hsome, hblocked⟩ :=
    run_cases a store es
  · have hno : ∀ rs, (run a Batch.Refused.none store es).result ≠ .ok rs := by
      intro rs hrs
      rw [hresult] at hrs
      cases hrs
    exact ⟨hfails, halone, fun _ _ => hstore, fun rs hrs => absurd hrs (hno rs),
      fun hs => hstore.trans hs, fun _ rs _ hrs => absurd hrs (hno rs),
      fun _ rs _ hrs => absurd hrs (hno rs)⟩
  · refine ⟨hfails, halone, ?_, ?_, hnone, ?_, ?_⟩
    · intro fault hfault
      rw [hresult] at hfault
      cases hfault
    · intro rs hrs
      rw [hresult] at hrs
      cases hrs
      have hfree : ∀ e ∈ es, ¬ Blocked a store e := fun e he h => hblocked ⟨e, he, h⟩
      rw [List.forall₂_map_right_iff]
      exact ((List.forall₂_and_left es ps).mpr ⟨hfree, hprepared⟩).imp fun e p h => run_singleton h.2 h.1
    · rintro s rs rfl hrs
      rw [hresult] at hrs
      cases hrs
      obtain ⟨s', hall, hstore⟩ := hsome s rfl
      rw [filterMap_kept? hprepared] at hall
      refine ⟨s', hstore, hall, fun d hd => VerdictStore.bytes?_of_putAll hall ?_⟩
      rw [freshVerdicts, List.forall_mem_map]
      exact hd
    · rintro s rs rfl hrs
      rw [hresult] at hrs
      cases hrs
      rw [List.forall₂_map_right_iff]
      exact hprepared.imp fun e p hp j hj => storedVerdict_of_job hp hj

end Analyzer
end Dalvik
