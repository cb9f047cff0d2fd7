import Mathlib
import Dalvik.Proofs.BodyVerdict

/-!
# Runs that share a store

A store only saves work. Whatever runs have been made on it before, a report says about its entry
what a report without a store says (`reports_of_sharedStore`), and it is marked as cached exactly
when its run does not ask for detail and an earlier run has seen the same code item.

The invariant is `Holds`: the store has a verdict on each body that has been seen, and it has
nothing under the digests of the other bytes. Preparing an entry reads the store (`Preparation`),
completing it adds what was not there, and so one run takes the invariant to the next.
-/

namespace Dalvik
namespace Analyzer

/-! ## Entries -/

/-- The entries spell these bytes, and the bytes start with a code item. -/
def bodies (entries : List ManifestEntry) : Set (List UInt8) :=
  {b | (∃ e ∈ entries, Bytes.Hex.decode e.code = .ok b) ∧ ∃ item, CodeItem.parse b = .ok item}

theorem bodies_cons (e : ManifestEntry) (es : List ManifestEntry) :
    bodies (e :: es) = bodies [e] ∪ bodies es := by
  ext b
  simp only [bodies, Set.mem_union, Set.mem_ofPred_eq, List.exists_mem_cons_iff, List.not_mem_nil,
    false_and, exists_false, or_false, or_and_right]

/-- What every report on the entry says. -/
def entryCore (e : ManifestEntry) : MethodReport :=
  match Bytes.Hex.decode e.code with
  | .error _ =>
    { blankReport e Digest.zero with code := decodeCode, category := decodeCategory }
  | .ok b =>
    let r := blankReport e (Digest.compute b)
    match CodeItem.parse b with
    | .error _ => { r with code := decodeCode, category := decodeCategory }
    | .ok item => (ofVerdict r (bodyVerdict item)).core

/-! ## Preparing -/

/-- How an entry is prepared when there are verdicts on the `known` bodies. -/
inductive Preparation (a : Analyzer) (known : Set (List UInt8)) (e : ManifestEntry) :
    Prepared → Prop where
  /-- The code is not written in digits. -/
  | noBytes {fault : Bytes.Hex.Fault} (f : Failure) (hb : Bytes.Hex.decode e.code = .error fault) :
    Preparation a known e (.complete (undecodable (blankReport e Digest.zero) f))
  /-- The bytes are no code item. -/
  | noItem {b : List UInt8} {fault : CodeItem.Fault} (f : Failure)
      (hb : Bytes.Hex.decode e.code = .ok b) (hitem : CodeItem.parse b = .error fault) :
    Preparation a known e (.complete (undecodable (blankReport e (Digest.compute b)) f))
  /-- A verdict is found. -/
  | found {b : List UInt8} {item : CodeItem} {v : Verdict}
      (hb : Bytes.Hex.decode e.code = .ok b) (hitem : CodeItem.parse b = .ok item)
      (hdetail : a.detail = false) (hknown : b ∈ known) (hv : v.core = (bodyVerdict item).core) :
    Preparation a known e (.complete (ofVerdict (blankReport e (Digest.compute b)) v))
  /-- The method is to be analysed. -/
  | pending {b : List UInt8} {item : CodeItem}
      (hb : Bytes.Hex.decode e.code = .ok b) (hitem : CodeItem.parse b = .ok item)
      (hnew : a.detail = false → b ∉ known) :
    Preparation a known e (.pending { blankReport e (Digest.compute b) with insns := item.code.size }
      (item.toMethod e.className e.method e.proto))

/-- The store, as far as a run without detail looks at it. -/
theorem prepare_eq (a : Analyzer) (store : Option VerdictStore) (e : ManifestEntry) :
    (prepare a store e).1
      = match Bytes.Hex.decode e.code with
        | .error fault => .ok (.complete (undecodable (blankReport e Digest.zero)
            (.labelled "bad hex in code" (.text fault.message))))
        | .ok b =>
          let r := blankReport e (Digest.compute b)
          match if a.detail then none else store with
          | none => .ok (prepareBytes r b).1
          | some s =>
            match (s.get (Digest.compute b)).1 with
            | .error fault => .error fault
            | .ok (some v) => .ok (.complete (ofVerdict r v))
            | .ok none => .ok (prepareBytes r b).1 := by
  unfold prepare
  cases Bytes.Hex.decode e.code with
  | error fault => rfl
  | ok b =>
    dsimp only
    cases (if a.detail then none else store) with
    | none => rfl
    | some s =>
      dsimp only
      rcases s.get (Digest.compute b) with ⟨_ | _ | v, records⟩ <;> rfl

/-- An entry that the store knows nothing about. -/
theorem preparation_prepareBytes {a : Analyzer} {known : Set (List UInt8)} {e : ManifestEntry}
    {b : List UInt8} (hb : Bytes.Hex.decode e.code = .ok b) (hnew : a.detail = false → b ∉ known) :
    Preparation a known e (prepareBytes (blankReport e (Digest.compute b)) b).1 := by
  unfold prepareBytes
  cases hitem : CodeItem.parse b with
  | error fault => exact .noItem _ hb hitem
  | ok item => exact .pending hb hitem hnew

/-- Without a store nothing is known. -/
theorem prepare_none (a : Analyzer) (e : ManifestEntry) :
    ∃ p, (prepare a none e).1 = .ok p ∧ Preparation a ∅ e p := by
  rw [prepare_eq]
  cases hb : Bytes.Hex.decode e.code with
  | error fault => exact ⟨_, rfl, .noBytes _ hb⟩
  | ok b =>
    have hstore : (if a.detail then none else (none : Option VerdictStore)) = none := ite_self none
    dsimp only
    rw [hstore]
    exact ⟨_, rfl, preparation_prepareBytes hb fun _ => Set.notMem_empty b⟩

/-! ## The invariant -/

/-- The store has a verdict on each known body, and nothing on the other bytes that the runs
involve. -/
structure Holds (s : VerdictStore) (involved known : Set (List UInt8)) : Prop where
  isOpen : s.isOpen = true
  /-- Only bytes with a code item are known. -/
  found : ∀ b ∈ known, b ∈ involved ∧ ∃ item v, CodeItem.parse b = .ok item ∧
    (s.get (Digest.compute b)).1 = .ok (some v) ∧ v.core = (bodyVerdict item).core
  absent : ∀ b ∈ involved, b ∉ known → (s.get (Digest.compute b)).1 = .ok none

/-- An empty store knows nothing. -/
theorem holds_empty (involved : Set (List UInt8)) : Holds {} involved ∅ where
  isOpen := rfl
  found := fun b hb => absurd hb (Set.notMem_empty b)
  absent := fun b _ _ => VerdictStore.get_empty (Digest.compute b)

/-- A verdict on a body is put into the store. Different bytes have different digests, so this
changes nothing else. -/
theorem Holds.put {s : VerdictStore} {involved known : Set (List UInt8)}
    (h : Holds s involved known) (hdistinct : Set.InjOn Digest.compute involved)
    {b : List UInt8} (hb : b ∈ involved) {item : CodeItem} (hitem : CodeItem.parse b = .ok item)
    {v : Verdict} (hv : v.core = (bodyVerdict item).core) :
    ∃ s', s.put (Digest.compute b) v = .ok s' ∧ Holds s' involved (insert b known) := by
  have hinsns : Json.Decoder.FitsInt64 v.core.insns := by
    rw [hv]
    exact (fits_bodyVerdict hitem).1
  have hnew : Json.Decoder.FitsInt64 v.core.newInstances := by
    rw [hv]
    exact (fits_bodyVerdict hitem).2
  obtain ⟨s', hput, hopen, hkey, hother⟩ :=
    @VerdictStore.get_put s h.isOpen (Digest.compute b) v hinsns hnew
  -- what the store has on other bytes stays
  have hkeep : ∀ b' ∈ involved, b' ≠ b →
      (s'.get (Digest.compute b')).1 = (s.get (Digest.compute b')).1 := by
    intro b' hb' hne
    exact hother _ fun heq => hne (hdistinct hb' hb heq)
  refine ⟨s', hput, hopen, ?_, ?_⟩
  · intro b' hb'
    by_cases heq : b' = b
    · rw [heq]
      exact ⟨hb, item, _, hitem, hkey, hv⟩
    · obtain ⟨hin, item', v', hitem', hget, hcore⟩ :=
        h.found b' (Set.mem_of_mem_insert_of_ne hb' heq)
      exact ⟨hin, item', v', hitem', (hkeep b' hin heq).trans hget, hcore⟩
  · intro b' hin hb'
    have hne : b' ≠ b := fun heq => hb' (heq ▸ Set.mem_insert b known)
    rw [hkeep b' hin hne]
    exact h.absent b' hin fun hknown => hb' (Set.mem_insert_of_mem b hknown)

/-- The store is asked for each entry, and what it answers is right. -/
theorem Holds.prepare {s : VerdictStore} {involved known : Set (List UInt8)}
    (h : Holds s involved known) (a : Analyzer) {e : ManifestEntry}
    (he : ∀ b, Bytes.Hex.decode e.code = .ok b → b ∈ involved) :
    ∃ p, (Analyzer.prepare a (some s) e).1 = .ok p ∧ Preparation a known e p := by
  rw [prepare_eq]
  cases hb : Bytes.Hex.decode e.code with
  | error fault => exact ⟨_, rfl, .noBytes _ hb⟩
  | ok b =>
    dsimp only
    -- a run with detail does not ask the store
    cases hdetail : a.detail with
    | true =>
      refine ⟨_, rfl, preparation_prepareBytes hb ?_⟩
      intro hno
      rw [hdetail] at hno
      cases hno
    | false =>
      simp only [Bool.false_eq_true, if_false]
      by_cases hknown : b ∈ known
      · obtain ⟨-, item, v, hitem, hget, hcore⟩ := h.found b hknown
        rw [hget]
        exact ⟨_, rfl, .found hb hitem hdetail hknown hcore⟩
      · rw [h.absent b (he b hb) hknown]
        exact ⟨_, rfl, preparation_prepareBytes hb fun _ => hknown⟩

/-- Entries that can be prepared one by one can be prepared together. -/
theorem exists_prepareAll {a : Analyzer} {store : Option VerdictStore}
    {P : ManifestEntry → Prepared → Prop} (es : List ManifestEntry)
    (h : ∀ e ∈ es, ∃ p, (prepare a store e).1 = .ok p ∧ P e p) :
    ∃ ps, (prepareAll a store es).1 = .ok ps ∧ List.Forall₂ P es ps := by
  induction es with
  | nil => exact ⟨[], rfl, .nil⟩
  | cons e es ih =>
    obtain ⟨p, hp, hP⟩ := h e List.mem_cons_self
    obtain ⟨ps, hps, hPs⟩ := ih fun e' he' => h e' (List.mem_cons_of_mem e he')
    refine ⟨p :: ps, ?_, .cons hP hPs⟩
    rw [prepareAll]
    revert hp hps
    rcases prepare a store e with ⟨result, records⟩
    rcases prepareAll a store es with ⟨results, more⟩
    intro hp hps
    cases hp
    cases hps
    rfl

/-! ## Completing -/

/-- The report on a prepared entry when its method has been analysed. -/
def finish (a : Analyzer) : Prepared → MethodReport
  | .complete r => r
  | .pending r m => merge a r ⟨m, .analysed (preAnalyze a.config m)⟩

/-- The report says what it has to say about its entry, and it is cached if the verdict was
found. -/
def Reports (detail : Bool) (known : Set (List UInt8)) (e : ManifestEntry) (r : MethodReport) :
    Prop :=
  r.core = entryCore e ∧
    (r.cached = true ↔ detail = false ∧ ∃ b ∈ known, Bytes.Hex.decode e.code = .ok b)

/-- However an entry is prepared, its report is right. -/
theorem Preparation.reports {a : Analyzer} {known : Set (List UInt8)} {e : ManifestEntry}
    {p : Prepared} (h : Preparation a known e p)
    (hknown : ∀ b ∈ known, ∃ item, CodeItem.parse b = .ok item) :
    Reports a.detail known e (finish a p) := by
  unfold Reports entryCore
  cases h with
  | noBytes f hb =>
    rw [hb]
    refine ⟨rfl, iff_of_false Bool.false_ne_true ?_⟩
    intro hseen
    rcases hseen with ⟨-, b, -, hb'⟩
    cases hb'
  | @noItem b fault f hb hitem =>
    rw [hb]
    dsimp only
    rw [hitem]
    refine ⟨rfl, iff_of_false Bool.false_ne_true ?_⟩
    intro hseen
    rcases hseen with ⟨-, b', hb', heq⟩
    cases heq
    obtain ⟨item, hok⟩ := hknown b hb'
    rw [hitem] at hok
    cases hok
  | @found b item v hb hitem hdetail hmem hv =>
    rw [hb]
    dsimp only
    rw [hitem]
    exact ⟨core_ofVerdict hv _, iff_of_true rfl ⟨hdetail, b, hmem, rfl⟩⟩
  | @pending b item hb hitem hnew =>
    rw [hb]
    dsimp only
    rw [hitem]
    have hcached : (finish a (.pending { blankReport e (Digest.compute b) with
        insns := item.code.size } (item.toMethod e.className e.method e.proto))).cached = false :=
      cached_merge a _ a.config e item
    refine ⟨core_merge a e (Digest.compute b) item, iff_of_false (by simp [hcached]) ?_⟩
    intro hseen
    rcases hseen with ⟨hdetail, b', hb', heq⟩
    cases heq
    exact hnew hdetail hb'

/-- The results for the pending methods, when nobody cancels the run. -/
def results (a : Analyzer) (ps : List Prepared) : List MethodResult :=
  Batch.run a.config Batch.Refused.none (ps.filterMap Prepared.method?)

theorem results_complete (a : Analyzer) (r : MethodReport) (ps : List Prepared) :
    results a (.complete r :: ps) = results a ps := rfl

theorem results_pending (a : Analyzer) (r : MethodReport) (m : Method) (ps : List Prepared) :
    results a (.pending r m :: ps) = ⟨m, .analysed (preAnalyze a.config m)⟩ :: results a ps := by
  have hcons : (Prepared.pending r m :: ps).filterMap Prepared.method?
      = m :: ps.filterMap Prepared.method? := rfl
  unfold results Batch.run
  rw [hcons, List.mapIdx_cons]
  rfl

theorem complete_cons_complete {a : Analyzer} {ps : List Prepared}
    {store store' : Option VerdictStore} {rs : List MethodReport} (r : MethodReport)
    (h : complete a ps (results a ps) store = (.ok rs, store')) :
    complete a (.complete r :: ps) (results a (.complete r :: ps)) store
      = (.ok (r :: rs), store') := by
  rw [results_complete, complete, h]

theorem complete_cons_pending {a : Analyzer} {ps : List Prepared}
    {store store₁ store' : Option VerdictStore} {rs : List MethodReport} {r : MethodReport}
    {m : Method} (hkeep : keep store (finish a (.pending r m)) = .ok store₁)
    (h : complete a ps (results a ps) store₁ = (.ok rs, store')) :
    complete a (.pending r m :: ps) (results a (.pending r m :: ps)) store
      = (.ok (finish a (.pending r m) :: rs), store') := by
  unfold finish at hkeep ⊢
  rw [results_pending, complete]
  simp only [hkeep, h]

/-- Without a store the reports are completed in order. -/
theorem complete_none (a : Analyzer) (ps : List Prepared) :
    complete a ps (results a ps) none = (.ok (ps.map (finish a)), none) := by
  induction ps with
  | nil => rfl
  | cons p ps ih =>
    cases p with
    | complete r => exact complete_cons_complete r ih
    | pending r m => exact complete_cons_pending rfl ih

/-- A prepared entry adds nothing to what is known, or its method is pending. -/
theorem Preparation.complete_or_pending {a : Analyzer} {known : Set (List UInt8)}
    {e : ManifestEntry} {p : Prepared} (h : Preparation a known e p) :
    (∃ r, p = .complete r ∧ bodies [e] ⊆ known) ∨
      ∃ b item, Bytes.Hex.decode e.code = .ok b ∧ CodeItem.parse b = .ok item ∧ bodies [e] = {b} ∧
        p = .pending { blankReport e (Digest.compute b) with insns := item.code.size }
          (item.toMethod e.className e.method e.proto) := by
  have hmem : ∀ b, b ∈ bodies [e] ↔
      Bytes.Hex.decode e.code = .ok b ∧ ∃ item, CodeItem.parse b = .ok item := by
    intro b
    simp [bodies]
  cases h with
  | noBytes f hb =>
    refine .inl ⟨_, rfl, ?_⟩
    intro b' hb'
    have := ((hmem b').mp hb').1
    rw [hb] at this
    cases this
  | @noItem b fault f hb hitem =>
    refine .inl ⟨_, rfl, ?_⟩
    intro b' hb'
    obtain ⟨heq, item, hok⟩ := (hmem b').mp hb'
    rw [hb] at heq
    cases heq
    rw [hitem] at hok
    cases hok
  | @found b item v hb hitem hdetail hknown hv =>
    refine .inl ⟨_, rfl, ?_⟩
    intro b' hb'
    have heq := ((hmem b').mp hb').1
    rw [hb] at heq
    cases heq
    exact hknown
  | @pending b item hb hitem hnew =>
    refine .inr ⟨b, item, hb, hitem, ?_, rfl⟩
    ext b'
    rw [hmem, hb, Set.mem_singleton_iff]
    constructor
    · intro hbody
      rcases hbody with ⟨heq, -⟩
      cases heq
      rfl
    · intro heq
      rw [heq]
      exact ⟨rfl, item, hitem⟩

/-- With a store the reports are the same, and the verdicts on the bodies of the entries are
there afterwards. -/
theorem Holds.complete {s : VerdictStore} {involved known current : Set (List UInt8)}
    (h : Holds s involved current) (hdistinct : Set.InjOn Digest.compute involved)
    {a : Analyzer} {es : List ManifestEntry} {ps : List Prepared}
    (hps : List.Forall₂ (Preparation a known) es ps) (hcurrent : known ⊆ current)
    (hes : ∀ e ∈ es, ∀ b, Bytes.Hex.decode e.code = .ok b → b ∈ involved) :
    ∃ s', Analyzer.complete a ps (results a ps) (some s) = (.ok (ps.map (finish a)), some s') ∧
      Holds s' involved (current ∪ bodies es) := by
  -- the puts are made one after the other, so the induction is over the entries with any store
  induction hps generalizing s current with
  | nil =>
    have hnone : bodies [] = ∅ := by
      ext b
      simp [bodies]
    refine ⟨s, rfl, ?_⟩
    rw [hnone, Set.union_empty]
    exact h
  | @cons e p es ps hp hps ih =>
    have hes' : ∀ e ∈ es, ∀ b, Bytes.Hex.decode e.code = .ok b → b ∈ involved :=
      fun e' he' => hes e' (List.mem_cons_of_mem e he')
    rw [bodies_cons, ← Set.union_assoc]
    obtain ⟨r, rfl, hbodies⟩ | ⟨b, item, hb, hitem, hbodies, rfl⟩ := hp.complete_or_pending
    · obtain ⟨s', hcomplete, hholds⟩ := ih h hcurrent hes'
      refine ⟨s', complete_cons_complete r hcomplete, ?_⟩
      rw [Set.union_eq_self_of_subset_right (hbodies.trans hcurrent)]
      exact hholds
    · have hin := hes e List.mem_cons_self b hb
      obtain ⟨s₁, hput, hholds₁⟩ :=
        h.put hdistinct hin hitem (core_toVerdict_merge a e (Digest.compute b) item)
      have hcurrent₁ : known ⊆ insert b current := hcurrent.trans (Set.subset_insert b current)
      obtain ⟨s', hcomplete, hholds⟩ := ih hholds₁ hcurrent₁ hes'
      refine ⟨s', complete_cons_pending ?_ hcomplete, ?_⟩
      · -- the verdict is kept under the digest of the bytes
        have hhash : (finish a (.pending { blankReport e (Digest.compute b) with
            insns := item.code.size } (item.toMethod e.className e.method e.proto))).hash
              = Digest.compute b :=
          congrArg MethodReport.hash (core_merge a e (Digest.compute b) item)
        rw [keep, hhash]
        exact congrArg (Except.map some) hput
      · rw [hbodies, Set.union_singleton]
        exact hholds

/-! ## Runs -/

/-- A run whose entries can be prepared completes them with what the batch gives. -/
theorem run_eq_complete {a : Analyzer} {store : Option VerdictStore} {es : List ManifestEntry}
    {ps : List Prepared} (h : (prepareAll a store es).1 = .ok ps) (refused : Batch.Refused) :
    ((run a refused store es).result, (run a refused store es).store)
      = complete a ps (Batch.run a.config refused (ps.filterMap Prepared.method?)) store := by
  unfold run
  revert h
  rcases prepareAll a store es with ⟨result, records⟩
  intro h
  cases h
  rfl

theorem run_of_prepareAll {a : Analyzer} {store : Option VerdictStore} {es : List ManifestEntry}
    {ps : List Prepared} (h : (prepareAll a store es).1 = .ok ps) :
    (run a Batch.Refused.none store es).result = (complete a ps (results a ps) store).1 ∧
      (run a Batch.Refused.none store es).store = (complete a ps (results a ps) store).2 :=
  ⟨congrArg Prod.fst (run_eq_complete h _), congrArg Prod.snd (run_eq_complete h _)⟩

/-- A run without a store reports on every entry. -/
theorem run_none (a : Analyzer) (es : List ManifestEntry) :
    ∃ reports, (run a Batch.Refused.none none es).result = .ok reports ∧
      List.Forall₂ (Reports a.detail ∅) es reports := by
  obtain ⟨ps, hps, hprepared⟩ := exists_prepareAll es fun e _ => prepare_none a e
  refine ⟨ps.map (finish a), ?_, ?_⟩
  · rw [(run_of_prepareAll hps).1, complete_none]
  · rw [List.forall₂_map_right_iff]
    refine hprepared.imp fun e p hp => hp.reports ?_
    intro b hb
    exact absurd hb (Set.notMem_empty b)

/-- A run on a store reports on every entry, and the store knows their bodies afterwards. -/
theorem Holds.run {s : VerdictStore} {involved known : Set (List UInt8)}
    (h : Holds s involved known) (hdistinct : Set.InjOn Digest.compute involved) (a : Analyzer)
    {es : List ManifestEntry}
    (hes : ∀ e ∈ es, ∀ b, Bytes.Hex.decode e.code = .ok b → b ∈ involved) :
    ∃ reports s', (Analyzer.run a Batch.Refused.none (some s) es).result = .ok reports ∧
      (Analyzer.run a Batch.Refused.none (some s) es).store = some s' ∧
      Holds s' involved (known ∪ bodies es) ∧
      List.Forall₂ (Reports a.detail known) es reports := by
  obtain ⟨ps, hps, hprepared⟩ := exists_prepareAll es fun e he => h.prepare a (hes e he)
  obtain ⟨s', hcomplete, hholds⟩ := h.complete hdistinct hprepared subset_rfl hes
  obtain ⟨hresult, hstore⟩ := run_of_prepareAll hps
  refine ⟨ps.map (finish a), s', ?_, ?_, hholds, ?_⟩
  · rw [hresult, hcomplete]
  · rw [hstore, hcomplete]
  · rw [List.forall₂_map_right_iff]
    refine hprepared.imp fun e p hp => hp.reports ?_
    intro b hb
    obtain ⟨-, item, -, hitem, -⟩ := h.found b hb
    exact ⟨item, hitem⟩

/-- A run: its settings and its entries. -/
structure Call where
  analyzer : Analyzer
  entries : List ManifestEntry

/-- The results of runs that are made one after the other on the same store. -/
def session (store : Option VerdictStore) : List Call → List (Except StoreFault (List MethodReport))
  | [] => []
  | c :: rest =>
    let outcome := c.analyzer.run Batch.Refused.none store c.entries
    outcome.result :: session outcome.store rest

/-- The bytes that the entries of some runs spell. -/
def spelled (calls : List Call) : Set (List UInt8) :=
  {b | ∃ c ∈ calls, ∃ e ∈ c.entries, Bytes.Hex.decode e.code = .ok b}

theorem spelled_cons_subset {first : Call} {calls : List Call} {involved : Set (List UInt8)}
    (h : spelled (first :: calls) ⊆ involved) :
    (∀ e ∈ first.entries, ∀ b, Bytes.Hex.decode e.code = .ok b → b ∈ involved) ∧
      spelled calls ⊆ involved := by
  constructor
  · intro e he b hb
    exact h ⟨first, List.mem_cons_self, e, he, hb⟩
  · intro b hspelled
    obtain ⟨c, hc, he⟩ := hspelled
    exact h ⟨c, List.mem_cons_of_mem first hc, he⟩

/-- The bodies that some runs have seen. -/
def seen (calls : List Call) : Set (List UInt8) := {b | ∃ c ∈ calls, b ∈ bodies c.entries}

/-- Each run of a session reports on its entries, with what was known at the start and what the
runs before it have seen. -/
theorem Holds.session {s : VerdictStore} {involved known : Set (List UInt8)}
    (h : Holds s involved known) (hdistinct : Set.InjOn Digest.compute involved)
    {calls : List Call} (hcalls : spelled calls ⊆ involved) {k : ℕ} {c : Call}
    (hk : calls[k]? = some c) :
    ∃ reports, (Analyzer.session (some s) calls)[k]? = some (.ok reports) ∧
      List.Forall₂ (Reports c.analyzer.detail (known ∪ seen (calls.take k))) c.entries reports := by
  induction calls generalizing s known k with
  | nil => cases hk
  | cons first calls ih =>
    obtain ⟨hfirst, hrest⟩ := spelled_cons_subset hcalls
    -- the first run is made on the store as it is, the others on what it leaves
    obtain ⟨reports, s', hresult, hstore, hholds, hreports⟩ := h.run hdistinct first.analyzer hfirst
    cases k with
    | zero =>
      cases hk
      have hnone : seen [] = ∅ := by
        ext b
        simp [seen]
      refine ⟨reports, ?_, ?_⟩
      · rw [Analyzer.session, List.getElem?_cons_zero, hresult]
      · rw [List.take_zero, hnone, Set.union_empty]
        exact hreports
    | succ k =>
      obtain ⟨later, hlater, hagree⟩ := ih hholds hrest hk
      have hseen : seen (first :: calls.take k) = bodies first.entries ∪ seen (calls.take k) := by
        ext b
        simp [seen]
      refine ⟨later, ?_, ?_⟩
      · rw [Analyzer.session, List.getElem?_cons_succ, hstore]
        exact hlater
      · rw [List.take_succ_cons, hseen, ← Set.union_assoc]
        exact hagree

/-- Every report on the entry that is made without a store, in whatever run, says the same. -/
def AgreesWithoutStore (e : ManifestEntry) (r : MethodReport) : Prop :=
  ∀ (a : Analyzer) (es : List ManifestEntry),
    ∃ fresh, (run a Batch.Refused.none none es).result = .ok fresh ∧
      List.Forall₂ (fun e' r' => e' = e → r.core = r'.core) es fresh

theorem agreesWithoutStore {e : ManifestEntry} {r : MethodReport} (h : r.core = entryCore e) :
    AgreesWithoutStore e r := by
  intro a es
  obtain ⟨fresh, hfresh, hreports⟩ := run_none a es
  refine ⟨fresh, hfresh, hreports.imp fun e' r' hr heq => ?_⟩
  rw [h, ← heq, hr.1]

/-- Runs of any settings share a store that is empty at first, and the bytes of their entries have
different digests. Then each run gives one report on each of its entries. The report agrees with
those that are made without a store, and it is cached if and only if its run does not ask for
detail and an earlier run had an entry with the same bytes, which hold a code item. -/
theorem reports_of_sharedStore {calls : List Call}
    (hdistinct : Set.InjOn Digest.compute (spelled calls)) {k : ℕ} {c : Call}
    (hk : calls[k]? = some c) :
    ∃ reports, (session (some {}) calls)[k]? = some (.ok reports) ∧
      List.Forall₂ (fun e r => AgreesWithoutStore e r ∧
        (r.cached = true ↔ c.analyzer.detail = false ∧
          ∃ b ∈ seen (calls.take k), Bytes.Hex.decode e.code = .ok b)) c.entries reports := by
  obtain ⟨reports, hresult, hreports⟩ :=
    (holds_empty (spelled calls)).session hdistinct subset_rfl hk
  rw [Set.empty_union] at hreports
  refine ⟨reports, hresult, hreports.imp fun e r hr => ⟨agreesWithoutStore hr.1, hr.2⟩⟩

/-- The bytes of a body that returns at once. -/
def returnBytes : List UInt8 := [1, 0, 0, 0, 0, 0, 0, 0, 0, 0, 0, 0, 1, 0, 0, 0, 0x0e, 0]

/-- A run with detail on a method and on an entry without digits. -/
def detailedCall : Call where
  analyzer := ⟨{ workers := 4 }, true⟩
  entries :=
    [{ className := "LA;", method := "f", proto := "V",
       code := "0x010000000000000000000000010000000e00" }, { code := "zz" }]

/-- A run without detail on the same code in another spelling, under other names. -/
def plainCall : Call where
  analyzer := ⟨{ gcPoints := false }, false⟩
  entries :=
    [{ className := "LB;", method := "g", proto := "I",
       code := "010000000000000000000000010000000E00 " }]

/-- The second run finds the verdict that the first one has kept. -/
theorem reports_of_twoCalls :
    Set.InjOn Digest.compute (spelled [detailedCall, plainCall]) ∧
      ∃ reports, (session (some {}) [detailedCall, plainCall])[1]? = some (.ok reports) ∧
        List.Forall₂ (fun e r => AgreesWithoutStore e r ∧ r.cached = true) plainCall.entries
          reports := by
  have hdecode : ∀ c ∈ [detailedCall, plainCall], ∀ e ∈ c.entries,
      Bytes.Hex.decode e.code = .error .digit ∨ Bytes.Hex.decode e.code = .ok returnBytes := by
    decide +kernel
  have hspelled : ∀ b ∈ spelled [detailedCall, plainCall], b = returnBytes := by
    intro b ⟨c, hc, e, he, hb⟩
    rcases hdecode c hc e he with h | h
    · rw [h] at hb
      cases hb
    · rw [h] at hb
      exact (Except.ok.inj hb).symm
  have hdistinct : Set.InjOn Digest.compute (spelled [detailedCall, plainCall]) := by
    intro b hb b' hb' _
    rw [hspelled b hb, hspelled b' hb']
  have hseen : returnBytes ∈ seen [detailedCall] := by
    refine ⟨detailedCall, List.mem_singleton_self _, ⟨_, List.mem_cons_self, ?_⟩, _, rfl⟩
    decide +kernel
  refine ⟨hdistinct, ?_⟩
  obtain ⟨reports, hresult, hreports⟩ := reports_of_sharedStore hdistinct (k := 1) rfl
  refine ⟨reports, hresult, ?_⟩
  cases hreports with
  | cons h hrest =>
    cases hrest
    refine .cons ⟨h.1, h.2.mpr ⟨rfl, returnBytes, hseen, ?_⟩⟩ .nil
    decide +kernel

end Analyzer
end Dalvik
