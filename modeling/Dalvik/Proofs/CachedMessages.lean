import Mathlib
import Dalvik.Proofs.KeptVerdicts

/-!
# Messages that come from a store

A verdict is kept under the digest of the code, but its message names the entry whose analysis
wrote it. So the invariant of a store is where its verdicts come from (`Signed`): under each body
there is the verdict of the entry that was the last one to be analysed with that body
(`Call.author`). A report that is not cached has the message of its own entry, and a cached one
has the message of that author, whatever the names of its own entry are
(`messages_of_sharedStore`).
-/

namespace Dalvik
namespace Analyzer

/-! ## Messages without a store -/

/-- The message of a report on the entry that is made without a store. -/
def entryMessage (e : ManifestEntry) : String :=
  match Bytes.Hex.decode e.code with
  | .error fault => (Failure.labelled "bad hex in code" (.text fault.message)).message
  | .ok b =>
    match CodeItem.parse b with
    | .error fault => (Failure.ofCodeItem fault).message
    | .ok item => (entryVerdict e item).message

theorem Job.entryMessage_entry (j : Job) :
    entryMessage j.entry = (entryVerdict j.entry j.item).message := by
  unfold entryMessage
  rw [j.decoded]
  dsimp only
  rw [j.parsed]

/-- The entry that the message of a report is about: the author of the verdict if that was found,
and the own entry otherwise. -/
def MessageSource (author : List UInt8 → Option ManifestEntry) (e : ManifestEntry)
    (r : MethodReport) (source : ManifestEntry) : Prop :=
  if r.cached then ∃ b, Bytes.Hex.decode e.code = .ok b ∧ author b = some source else source = e

theorem MessageSource.eq_of_cached {author : List UInt8 → Option ManifestEntry}
    {e source first : ManifestEntry} {r : MethodReport} {b : List UInt8}
    (h : MessageSource author e r source) (hcached : r.cached = true)
    (hb : Bytes.Hex.decode e.code = .ok b) (hfirst : author b = some first) : source = first := by
  unfold MessageSource at h
  rw [if_pos hcached, hb] at h
  obtain ⟨b', hb', hauthor⟩ := h
  cases hb'
  exact Option.some.inj (hauthor.symm.trans hfirst)

/-- How a report gets its message. -/
inductive Attributed (author : List UInt8 → Option ManifestEntry) (e : ManifestEntry)
    (r : MethodReport) : ManifestEntry → Prop where
  /-- There is no body. -/
  | undecodable (hcached : r.cached = false) (hcode : r.code = decodeCode)
      (hmessage : r.message = entryMessage e) : Attributed author e r e
  /-- There is a verdict on the body. -/
  | verdict {source : ManifestEntry} (j : Job) (hentry : j.entry = e)
      (hsource : MessageSource author e r source)
      (haccepted : r.accepted = (entryVerdict source j.item).accepted)
      (hmessage : r.message = (entryVerdict source j.item).message) : Attributed author e r source

/-- The message of a job that is analysed is its own. -/
theorem attributed_merge (author : List UInt8 → Option ManifestEntry) (a : Analyzer) (j : Job) :
    Attributed author j.entry (finish a (.pending j.report j.method)) j.entry := by
  have hverdict := j.toVerdict_merge a false
  have hcached : (finish a (.pending j.report j.method)).cached = false :=
    cached_merge a j.report a.config j.entry j.item
  refine .verdict j rfl ?_ (congrArg Verdict.accepted hverdict) (congrArg Verdict.message hverdict)
  simp [MessageSource, hcached]

/-- An entry about which nothing is known has its own message. -/
theorem attributed_prepareBytes (author : List UInt8 → Option ManifestEntry) (a : Analyzer)
    {e : ManifestEntry} {b : List UInt8} (hb : Bytes.Hex.decode e.code = .ok b) :
    Attributed author e
      (finish a (prepareBytes (blankReport e (Digest.compute b)) b).1) e := by
  cases hitem : CodeItem.parse b with
  | error fault =>
    have hmessage : entryMessage e = (Failure.ofCodeItem fault).message := by
      simp only [entryMessage, hb, hitem]
    unfold prepareBytes
    rw [hitem]
    exact .undecodable rfl rfl hmessage.symm
  | ok item =>
    have hprepared := prepareBytes_job ⟨e, b, item, hb, hitem⟩
    dsimp only [Job.digest] at hprepared
    rw [hprepared]
    exact attributed_merge author a ⟨e, b, item, hb, hitem⟩

theorem attributed_undecodable (author : List UInt8 → Option ManifestEntry) {e : ManifestEntry}
    {fault : Bytes.Hex.Fault} (hb : Bytes.Hex.decode e.code = .error fault) :
    Attributed author e (undecodable (blankReport e Digest.zero)
      (.labelled "bad hex in code" (.text fault.message))) e := by
  have hmessage : entryMessage e
      = (Failure.labelled "bad hex in code" (.text fault.message)).message := by
    simp only [entryMessage, hb]
  exact .undecodable rfl rfl hmessage.symm

/-- The message of a report is the one that its source has without a store. -/
theorem Attributed.message_eq {author : List UInt8 → Option ManifestEntry} {e source : ManifestEntry}
    {r : MethodReport} (h : Attributed author e r source)
    (hspelled : ∀ b e', author b = some e' → Bytes.Hex.decode e'.code = .ok b) :
    r.message = entryMessage source := by
  cases h with
  | undecodable hcached hcode hmessage => exact hmessage
  | verdict j hentry hsource haccepted hmessage =>
    rw [hmessage]
    unfold MessageSource at hsource
    split_ifs at hsource
    · obtain ⟨b, hb, hauthor⟩ := hsource
      rw [← hentry, j.decoded] at hb
      cases hb
      exact (Job.entryMessage_entry ⟨source, j.bytes, j.item, hspelled _ _ hauthor, j.parsed⟩).symm
    · rw [hsource, ← hentry]
      exact j.entryMessage_entry.symm

/-- Every report on the entry that is made without a store, in whatever run, has this message. -/
def SaysWithoutStore (e : ManifestEntry) (text : String) : Prop :=
  ∀ (a : Analyzer) (es : List ManifestEntry),
    ∃ fresh, (run a Batch.Refused.none none es).result = .ok fresh ∧
      List.Forall₂ (fun e' r' => e' = e → r'.message = text) es fresh

/-- A run without a store gives every entry its own message. -/
theorem run_none_message (a : Analyzer) (es : List ManifestEntry) :
    ∃ fresh, (run a Batch.Refused.none none es).result = .ok fresh ∧
      List.Forall₂ (fun e r => r.message = entryMessage e) es fresh := by
  have hprepare : ∀ e ∈ es, ∃ p, (prepare a none e).1 = .ok p ∧
      (finish a p).message = entryMessage e := by
    intro e _
    have hnobody : ∀ b e', (none : Option ManifestEntry) = some e' →
        Bytes.Hex.decode e'.code = .ok b := by
      intro b e' h
      cases h
    rw [prepare_eq]
    cases hb : Bytes.Hex.decode e.code with
    | error fault =>
      exact ⟨_, rfl, (attributed_undecodable (fun _ => none) hb).message_eq hnobody⟩
    | ok b =>
      have hstore : (if a.detail then none else (none : Option VerdictStore)) = none := ite_self none
      dsimp only
      rw [hstore]
      exact ⟨_, rfl, (attributed_prepareBytes (fun _ => none) a hb).message_eq hnobody⟩
  obtain ⟨ps, hps, hmessages⟩ := exists_prepareAll es hprepare
  refine ⟨ps.map (finish a), ?_, ?_⟩
  · rw [(run_of_prepareAll hps).1, complete_none]
  · rw [List.forall₂_map_right_iff]
    exact hmessages

theorem saysWithoutStore_iff {e : ManifestEntry} {text : String} :
    SaysWithoutStore e text ↔ text = entryMessage e := by
  constructor
  · intro h
    obtain ⟨fresh, hfresh, htext⟩ := h {} [e]
    obtain ⟨fresh', hfresh', hmessage⟩ := run_none_message {} [e]
    rw [hfresh] at hfresh'
    cases hfresh'
    obtain ⟨r, rest, hr, -, rfl⟩ := List.forall₂_cons_left_iff.mp htext
    cases hmessage with
    | cons hown _ => rw [← hr rfl, hown]
  · intro h a es
    obtain ⟨fresh, hfresh, hmessage⟩ := run_none_message a es
    refine ⟨fresh, hfresh, hmessage.imp fun e' r' hr heq => ?_⟩
    rw [hr, heq, h]

/-! ## Authors -/

/-- The entry spells these bytes. -/
def spells (b : List UInt8) (e : ManifestEntry) : Bool :=
  decide (Bytes.Hex.decode e.code = .ok b)

/-- The author of the verdict on a body after one more run. A run that finds a verdict leaves it;
otherwise the last of its entries with that body is the author. -/
def Call.author (c : Call) (b : List UInt8) (before : Option ManifestEntry) :
    Option ManifestEntry :=
  if c.analyzer.detail = false ∧ before.isSome then before
  else (c.entries.reverse.find? (spells b)).or before

/-- The author of the verdict on a body after some runs, with the one it had before them. -/
def authorAfter (calls : List Call) (b : List UInt8) (before : Option ManifestEntry) :
    Option ManifestEntry :=
  calls.foldl (fun author c => c.author b author) before

/-- The verdict that is kept for some bytes. -/
def keptVerdict (author : Option ManifestEntry) (b : List UInt8) : Option Verdict :=
  match CodeItem.parse b with
  | .error _ => none
  | .ok item => author.map fun e => entryVerdict e item

/-- Each verdict of the store was written by the author of its body. -/
structure Signed (s : VerdictStore) (involved : Set (List UInt8))
    (author : List UInt8 → Option ManifestEntry) : Prop where
  isOpen : s.isOpen = true
  author_spells : ∀ b e, author b = some e → Bytes.Hex.decode e.code = .ok b
  kept : ∀ b ∈ involved, (s.get (Digest.compute b)).1 = .ok (keptVerdict (author b) b)

/-- An empty store has no author. -/
theorem signed_empty (involved : Set (List UInt8)) : Signed {} involved fun _ => none where
  isOpen := rfl
  author_spells := by
    intro b e h
    cases h
  kept := by
    intro b _
    rw [VerdictStore.get_empty]
    unfold keptVerdict
    cases CodeItem.parse b <;> rfl

/-- The store is asked for each entry, and the message comes from the author or the entry. -/
theorem Signed.prepare {s : VerdictStore} {involved : Set (List UInt8)}
    {author : List UInt8 → Option ManifestEntry} (h : Signed s involved author) (a : Analyzer)
    {e : ManifestEntry} (he : ∀ b, Bytes.Hex.decode e.code = .ok b → b ∈ involved) :
    ∃ p, (Analyzer.prepare a (some s) e).1 = .ok p ∧
      ∃ source, Attributed author e (finish a p) source := by
  rw [prepare_eq]
  cases hb : Bytes.Hex.decode e.code with
  | error fault => exact ⟨_, rfl, e, attributed_undecodable author hb⟩
  | ok b =>
    dsimp only
    cases hdetail : a.detail with
    | true => exact ⟨_, rfl, e, attributed_prepareBytes author a hb⟩
    | false =>
      simp only [Bool.false_eq_true, if_false]
      rw [h.kept b (he b hb)]
      cases hkept : keptVerdict (author b) b with
      | none => exact ⟨_, rfl, e, attributed_prepareBytes author a hb⟩
      | some v =>
        unfold keptVerdict at hkept
        cases hitem : CodeItem.parse b with
        | error fault =>
          rw [hitem] at hkept
          cases hkept
        | ok item =>
          rw [hitem] at hkept
          obtain ⟨source, hauthor, rfl⟩ := Option.map_eq_some_iff.mp hkept
          have hsource : MessageSource author e (ofVerdict (blankReport e (Digest.compute b))
              (entryVerdict source item)) source := ⟨b, hb, hauthor⟩
          exact ⟨_, rfl, source, .verdict ⟨e, b, item, hb, hitem⟩ rfl hsource rfl rfl⟩

/-! ## One run -/

/-- The jobs of a run that nobody cancels. -/
theorem lastJob_none (js : List Job) (d : Digest) :
    lastJob Batch.Refused.none js d
      = (js.reverse.find? fun j => decide (j.digest = d)).map fun j => (j, false) := by
  have hscheduled : scheduled Batch.Refused.none js = js.map fun j => (j, false) := by
    apply List.ext_getElem?
    intro i
    simp only [scheduled, List.getElem?_mapIdx, List.getElem?_map]
    rfl
  rw [lastJob, hscheduled, ← List.map_reverse, List.find?_map]
  rfl

section

variable {s : VerdictStore} {involved : Set (List UInt8)}
  {author : List UInt8 → Option ManifestEntry} {es : List ManifestEntry}

/-- An entry is a job unless the run finds the verdict of an author. -/
theorem Signed.job?_eq_some_iff (h : Signed s involved author) (a : Analyzer) {j : Job}
    (hj : j.bytes ∈ involved) :
    job? a s j.entry = some j ↔ ¬ (a.detail = false ∧ (author j.bytes).isSome) := by
  unfold job?
  rw [Job.ofEntry?_eq_some_iff.mpr rfl, Option.filter_some]
  have hget : (s.get j.digest).1 = .ok ((author j.bytes).map fun e => entryVerdict e j.item) := by
    have hkept := h.kept j.bytes hj
    unfold keptVerdict at hkept
    rw [j.parsed] at hkept
    exact hkept
  rw [hget]
  cases a.detail <;> cases author j.bytes <;> simp

/-- The jobs with a body are the entries that spell it, unless the run finds a verdict. -/
theorem Signed.any_job? (h : Signed s involved author)
    (hdistinct : Set.InjOn Digest.compute involved) (a : Analyzer) {e : ManifestEntry}
    (he : ∀ b, Bytes.Hex.decode e.code = .ok b → b ∈ involved) {b : List UInt8} (hb : b ∈ involved)
    {item : CodeItem} (hitem : CodeItem.parse b = .ok item) :
    ((job? a s e).any fun j => decide (j.digest = Digest.compute b)) = true ↔
      spells b e = true ∧ ¬ (a.detail = false ∧ (author b).isSome) := by
  unfold spells
  rw [Option.any_eq_true, decide_eq_true_iff]
  constructor
  · intro hany
    obtain ⟨j, hjob, hdigest⟩ := hany
    obtain rfl := entry_of_job? hjob
    have hin := he j.bytes j.decoded
    -- different bytes have different digests
    have hbytes : j.bytes = b := hdistinct hin hb (of_decide_eq_true hdigest)
    have hnew := (h.job?_eq_some_iff a hin).mp hjob
    rw [hbytes] at hnew
    exact ⟨hbytes ▸ j.decoded, hnew⟩
  · intro hspelled
    obtain ⟨hdecode, hnew⟩ := hspelled
    let j : Job := ⟨e, b, item, hdecode, hitem⟩
    have hjob : job? a s j.entry = some j := (h.job?_eq_some_iff a hb).mpr hnew
    exact ⟨j, hjob, decide_eq_true rfl⟩

/-- The last job with a body is that of the next author. -/
theorem Signed.author_eq (h : Signed s involved author)
    (hdistinct : Set.InjOn Digest.compute involved) (c : Call)
    (hes : ∀ e ∈ c.entries, ∀ b, Bytes.Hex.decode e.code = .ok b → b ∈ involved)
    {b : List UInt8} (hb : b ∈ involved) {item : CodeItem} (hitem : CodeItem.parse b = .ok item) :
    c.author b (author b) = (((jobs c.analyzer s c.entries).reverse.find? fun j =>
      decide (j.digest = Digest.compute b)).map Job.entry).or (author b) := by
  have hany : ∀ e ∈ c.entries.reverse, _ := fun e he =>
    h.any_job? hdistinct c.analyzer (hes e (List.mem_reverse.mp he)) hb hitem
  -- a job is found together with its entry
  have hentry : ((jobs c.analyzer s c.entries).reverse.find? fun j =>
        decide (j.digest = Digest.compute b)).map Job.entry
      = c.entries.reverse.find? fun e =>
        (job? c.analyzer s e).any fun j => decide (j.digest = Digest.compute b) := by
    unfold jobs
    rw [← List.filterMap_reverse, List.find?_filterMap]
    cases hfind : c.entries.reverse.find? fun e =>
        (job? c.analyzer s e).any fun j => decide (j.digest = Digest.compute b) with
    | none => rfl
    | some e =>
      have hsome := List.find?_some hfind
      obtain ⟨j, hjob, -⟩ := (Option.any_eq_true _ _).mp hsome
      rw [Option.bind_some, hjob, Option.map_some, entry_of_job? hjob]
  rw [hentry]
  unfold Call.author
  split_ifs with hfound
  · have hnone : c.entries.reverse.find? (fun e =>
        (job? c.analyzer s e).any fun j => decide (j.digest = Digest.compute b)) = none := by
      rw [List.find?_eq_none]
      intro e he hjob
      exact ((hany e he).mp hjob).2 hfound
    rw [hnone, Option.none_or]
  · congr 1
    apply List.find?_congr
    intro e he
    rw [Bool.eq_iff_iff, hany e he, and_iff_left hfound]

/-- After a run the store is signed by the next authors. -/
theorem Signed.run (h : Signed s involved author) (hdistinct : Set.InjOn Digest.compute involved)
    (c : Call) (hes : ∀ e ∈ c.entries, ∀ b, Bytes.Hex.decode e.code = .ok b → b ∈ involved) :
    ∃ reports s', (c.analyzer.run Batch.Refused.none (some s) c.entries).result = .ok reports ∧
      (c.analyzer.run Batch.Refused.none (some s) c.entries).store = some s' ∧
      Signed s' involved (fun b => c.author b (author b)) ∧
      List.Forall₂ (fun e r => ∃ source, Attributed author e r source) c.entries reports := by
  obtain ⟨ps, hps, hprepared⟩ := exists_prepareAll c.entries fun e he =>
    h.prepare c.analyzer (hes e he)
  obtain ⟨reports, s', hnone, hresult, hstore, hopen, hbytes⟩ :=
    run_jobs h.isOpen hps Batch.Refused.none
  have hreports : reports = ps.map (finish c.analyzer) := by
    have hfinish := (complete_none c.analyzer ps).symm.trans hnone
    exact (Except.ok.inj (congrArg Prod.fst hfinish)).symm
  refine ⟨reports, s', hresult, hstore, ⟨hopen, ?_, ?_⟩, ?_⟩
  · intro b e hauthor
    unfold Call.author at hauthor
    split_ifs at hauthor
    · exact h.author_spells b e hauthor
    · rcases Option.or_eq_some_iff.mp hauthor with hfind | ⟨-, hbefore⟩
      · have hspells : spells b e = true := List.find?_some hfind
        exact of_decide_eq_true hspells
      · exact h.author_spells b e hbefore
  · intro b hb
    have hlast := hbytes (Digest.compute b)
    rw [lastJob_none] at hlast
    cases hfind : (jobs c.analyzer s c.entries).reverse.find? fun j =>
        decide (j.digest = Digest.compute b) with
    | none =>
      -- nothing is written, so the author stays
      have hauthor : keptVerdict (c.author b (author b)) b = keptVerdict (author b) b := by
        unfold keptVerdict
        cases hitem : CodeItem.parse b with
        | error fault => rfl
        | ok item =>
          rw [h.author_eq hdistinct c hes hb hitem, hfind]
          rfl
      rw [hfind] at hlast
      rw [VerdictStore.get_congr hlast, h.kept b hb, hauthor]
    | some j =>
      have hmem : j ∈ jobs c.analyzer s c.entries :=
        List.mem_reverse.mp (List.mem_of_find?_eq_some hfind)
      have hin : j.bytes ∈ involved := hes j.entry (entry_mem_of_mem_jobs hmem) j.bytes j.decoded
      have hbytes : j.bytes = b := hdistinct hin hb (of_decide_eq_true (List.find?_some hfind :))
      subst hbytes
      have hauthor : c.author j.bytes (author j.bytes) = some j.entry := by
        rw [h.author_eq hdistinct c hes hb j.parsed, hfind]
        rfl
      have hkept : keptVerdict (some j.entry) j.bytes = some (j.outcome false) := by
        unfold keptVerdict
        rw [j.parsed]
        rfl
      rw [hfind] at hlast
      rw [hauthor, hkept]
      exact VerdictStore.get_of_encode hlast (j.fits_outcome false) (j.version_outcome false)
  · rw [hreports, List.forall₂_map_right_iff]
    exact hprepared

/-! ## Sessions -/

/-- Each run of a session asks for the verdicts of the authors that the runs before it have
left. -/
theorem Signed.session (h : Signed s involved author)
    (hdistinct : Set.InjOn Digest.compute involved) {calls : List Call}
    (hcalls : spelled calls ⊆ involved) {k : ℕ} {c : Call} (hk : calls[k]? = some c) :
    ∃ reports s', (Analyzer.session (some s) calls)[k]? = some (.ok reports) ∧
      Signed s' involved (fun b => authorAfter (calls.take k) b (author b)) ∧
      List.Forall₂ (fun e r => ∃ source,
        Attributed (fun b => authorAfter (calls.take k) b (author b)) e r source)
        c.entries reports := by
  induction calls generalizing s author k with
  | nil => cases hk
  | cons first calls ih =>
    obtain ⟨hfirst, hrest⟩ := spelled_cons_subset hcalls
    obtain ⟨reports, s', hresult, hstore, hsigned, hreports⟩ := h.run hdistinct first hfirst
    cases k with
    | zero =>
      cases hk
      refine ⟨reports, s, ?_, h, hreports⟩
      rw [Analyzer.session, List.getElem?_cons_zero, hresult]
    | succ k =>
      obtain ⟨later, s'', hlater, hsigned', hattributed⟩ := ih hsigned hrest hk
      refine ⟨later, s'', ?_, hsigned', hattributed⟩
      rw [Analyzer.session, List.getElem?_cons_succ, hstore]
      exact hlater

/-! ## Attribution -/

variable {e source : ManifestEntry} {r : MethodReport}

theorem Attributed.messageSource (h : Attributed author e r source) :
    MessageSource author e r source := by
  cases h with
  | undecodable hcached hcode hmessage => simp [MessageSource, hcached]
  | verdict j hentry hsource haccepted hmessage => exact hsource

/-- The message of a rejected body ends in the names of the source, and what stands before them
depends on the body alone. -/
theorem Attributed.message_cases (h : Attributed author e r source) (hrejected : r.accepted = false) :
    (source = e ∧ r.code = decodeCode ∧ r.message = entryMessage e) ∨
      ∃ text, r.message = text ++ " in " ++ source.owner ∧
        entryMessage e = text ++ " in " ++ e.owner := by
  cases h with
  | undecodable hcached hcode hmessage => exact .inl ⟨rfl, hcode, hmessage⟩
  | verdict j hentry hsource haccepted hmessage =>
    obtain ⟨count, -, hverdict⟩ | ⟨kind, text, hverdict⟩ := entryVerdict_cases j.item
    · rw [hverdict source, hrejected] at haccepted
      cases haccepted
    · refine .inr ⟨text, ?_, ?_⟩
      · rw [hmessage, hverdict source]
      · rw [← hentry, j.entryMessage_entry, hverdict j.entry]

/-- A rejected report has the message of its own entry exactly if its source has the same names. -/
theorem Attributed.saysWithoutStore_iff_owner (h : Attributed author e r source)
    (hrejected : r.accepted = false) :
    SaysWithoutStore e r.message ↔ source.owner = e.owner := by
  rw [saysWithoutStore_iff]
  obtain ⟨rfl, -, hmessage⟩ | ⟨text, hmessage, hown⟩ := h.message_cases hrejected
  · exact iff_of_true hmessage rfl
  · rw [hmessage, hown, String.append_right_inj]

end

/-- Runs of any settings share a store that is empty at first, and the bytes of their entries have
different digests. Then each run gives one report on each of its entries. The message of a report
is the one that its source has without a store, and the source is the own entry unless the report
is cached; then it is the entry that was the last one to be analysed with the same bytes. So
a rejected report has the message of its own entry if and only if that entry and the source have
the same names, and the message of a verification failure ends in the names of the source. -/
theorem messages_of_sharedStore {calls : List Call}
    (hdistinct : Set.InjOn Digest.compute (spelled calls)) {k : ℕ} {c : Call}
    (hk : calls[k]? = some c) :
    ∃ reports, (session (some {}) calls)[k]? = some (.ok reports) ∧
      List.Forall₂ (fun e r => ∃ source,
        MessageSource (fun b => authorAfter (calls.take k) b none) e r source ∧
        SaysWithoutStore source r.message ∧
        (r.accepted = false → (SaysWithoutStore e r.message ↔ source.owner = e.owner)) ∧
        (r.accepted = false → r.code ≠ decodeCode →
          ∃ text, r.message = text ++ " in " ++ source.owner)) c.entries reports := by
  obtain ⟨reports, s', hresult, hsigned, hreports⟩ :=
    (signed_empty (spelled calls)).session hdistinct subset_rfl hk
  refine ⟨reports, hresult, hreports.imp fun e r hr => ?_⟩
  obtain ⟨source, hattributed⟩ := hr
  refine ⟨source, hattributed.messageSource, ?_, hattributed.saysWithoutStore_iff_owner, ?_⟩
  · exact saysWithoutStore_iff.mpr (hattributed.message_eq hsigned.author_spells)
  · intro hrejected hcode
    obtain ⟨-, hdecode, -⟩ | ⟨text, hmessage, -⟩ := hattributed.message_cases hrejected
    · exact absurd hdecode hcode
    · exact ⟨text, hmessage⟩

/-- An entry with a body that jumps to itself, which is not allowed. -/
def loopEntry (className method proto : String) : ManifestEntry :=
  { className, method, proto, code := "0200000000000000000000000200000028000e00" }

/-- The bytes of that body. -/
def loopBytes : List UInt8 := [2, 0, 0, 0, 0, 0, 0, 0, 0, 0, 0, 0, 2, 0, 0, 0, 0x28, 0, 0x0e, 0]

theorem decode_loopEntry (className method proto : String) :
    Bytes.Hex.decode (loopEntry className method proto).code = .ok loopBytes := by
  show Bytes.Hex.decode "0200000000000000000000000200000028000e00" = .ok loopBytes
  decide +kernel

/-- Runs on entries with one and the same body. -/
theorem injOn_spelled {calls : List Call} {b : List UInt8}
    (h : ∀ c ∈ calls, ∀ e ∈ c.entries, Bytes.Hex.decode e.code = .ok b) :
    Set.InjOn Digest.compute (spelled calls) := by
  have hsame : ∀ b' ∈ spelled calls, b' = b := by
    intro b' hspelled
    obtain ⟨c, hc, e, he, hb⟩ := hspelled
    rw [h c hc e he] at hb
    exact (Except.ok.inj hb).symm
  intro b₁ hb₁ b₂ hb₂ _
  rw [hsame b₁ hb₁, hsame b₂ hb₂]

/-- The body is rejected, and it is known to all runs after the first one with such an entry. -/
theorem reports_loopEntry {calls : List Call} {className method proto : String} {r : MethodReport}
    (h : Reports false (∅ ∪ seen calls) (loopEntry className method proto) r)
    (hseen : ∃ c ∈ calls, ∃ e ∈ c.entries, Bytes.Hex.decode e.code = .ok loopBytes) :
    r.accepted = false ∧ r.cached = true := by
  obtain ⟨item, hitem⟩ : ∃ item, CodeItem.parse loopBytes = .ok item := ⟨_, rfl⟩
  constructor
  · have hrejected : (entryCore (loopEntry "" "" "")).accepted = false := by decide +kernel
    have hsame : (entryCore (loopEntry className method proto)).accepted
        = (entryCore (loopEntry "" "" "")).accepted := by
      simp only [entryCore, decode_loopEntry, hitem]
      rfl
    calc r.accepted = r.core.accepted := rfl
      _ = (entryCore (loopEntry className method proto)).accepted := by rw [h.1]
      _ = false := hsame.trans hrejected
  · obtain ⟨c, hc, hspelled⟩ := hseen
    exact h.2.mpr ⟨rfl, loopBytes, .inr ⟨c, hc, hspelled, item, hitem⟩, decode_loopEntry _ _ _⟩

/-- A run on two methods with one body, and another one on a third method and the second again. -/
def loopCalls : List Call :=
  [⟨{}, [loopEntry "LA;" "f" "()V", loopEntry "LB;" "g" "(I)V"]⟩,
    ⟨{}, [loopEntry "LC;" "h" "()V", loopEntry "LB;" "g" "(I)V"]⟩]

/-- The second method is the author, so in the second run only its own message is right. -/
theorem messages_of_loopCalls :
    Set.InjOn Digest.compute (spelled loopCalls) ∧
      ∃ r₁ r₂, (session (some {}) loopCalls)[1]? = some (.ok [r₁, r₂]) ∧
        r₁.accepted = false ∧ r₂.accepted = false ∧
        ¬ SaysWithoutStore (loopEntry "LC;" "h" "()V") r₁.message ∧
        SaysWithoutStore (loopEntry "LB;" "g" "(I)V") r₁.message ∧
        SaysWithoutStore (loopEntry "LB;" "g" "(I)V") r₂.message := by
  have hloop : ∀ c ∈ loopCalls, ∀ e ∈ c.entries, Bytes.Hex.decode e.code = .ok loopBytes := by
    simp [loopCalls, decode_loopEntry]
  have hdistinct := injOn_spelled hloop
  refine ⟨hdistinct, ?_⟩
  obtain ⟨reports, hresult, hmessages⟩ := messages_of_sharedStore hdistinct (k := 1) rfl
  obtain ⟨reports', hresult', hreports⟩ :=
    (holds_empty (spelled loopCalls)).session hdistinct subset_rfl (k := 1) rfl
  rw [hresult] at hresult'
  cases hresult'
  obtain ⟨r₁, _, ⟨source₁, hsource₁, hsays₁, hiff₁, -⟩, hrest, rfl⟩ :=
    List.forall₂_cons_left_iff.mp hmessages
  obtain ⟨r₂, _, ⟨source₂, hsource₂, hsays₂, -, -⟩, hnil, rfl⟩ :=
    List.forall₂_cons_left_iff.mp hrest
  cases hnil
  have hseen : ∃ c ∈ loopCalls.take 1, ∃ e ∈ c.entries, Bytes.Hex.decode e.code = .ok loopBytes :=
    ⟨_, List.mem_singleton_self _, _, List.mem_cons_self, decode_loopEntry _ _ _⟩
  cases hreports with
  | cons hr₁ hreports =>
    cases hreports with
    | cons hr₂ _ =>
      obtain ⟨hrejected₁, hcached₁⟩ := reports_loopEntry hr₁ hseen
      obtain ⟨hrejected₂, hcached₂⟩ := reports_loopEntry hr₂ hseen
      have hauthor : authorAfter (loopCalls.take 1) loopBytes none
          = some (loopEntry "LB;" "g" "(I)V") := by
        decide +kernel
      obtain rfl := hsource₁.eq_of_cached hcached₁ (decode_loopEntry _ _ _) hauthor
      obtain rfl := hsource₂.eq_of_cached hcached₂ (decode_loopEntry _ _ _) hauthor
      refine ⟨r₁, r₂, hresult, hrejected₁, hrejected₂, ?_, hsays₁, hsays₂⟩
      rw [hiff₁ hrejected₁]
      decide +kernel

/-- Two runs on one body under different names: the second one blames the method of the first. -/
theorem message_of_sharedLoop :
    ∃ r, (session (some {}) [⟨{}, [loopEntry "LA;" "f" "()V"]⟩,
        ⟨{}, [loopEntry "LB;" "g" "(I)V"]⟩])[1]? = some (.ok [r]) ∧
      r.className = "LB;" ∧ r.accepted = false ∧
      r.message = "VFY: branch offset of zero not allowed at 0x0000 (goto) in LA;.f:()V" ∧
      SaysWithoutStore (loopEntry "LB;" "g" "(I)V")
        "VFY: branch offset of zero not allowed at 0x0000 (goto) in LB;.g:(I)V" := by
  let calls : List Call :=
    [⟨{}, [loopEntry "LA;" "f" "()V"]⟩, ⟨{}, [loopEntry "LB;" "g" "(I)V"]⟩]
  have hloop : ∀ c ∈ calls, ∀ e ∈ c.entries, Bytes.Hex.decode e.code = .ok loopBytes := by
    simp [calls, decode_loopEntry]
  have hdistinct := injOn_spelled hloop
  obtain ⟨reports, s', hresult, hsigned, hattributed⟩ :=
    (signed_empty (spelled calls)).session hdistinct subset_rfl (k := 1) rfl
  obtain ⟨reports', hresult', hreports⟩ :=
    (holds_empty (spelled calls)).session hdistinct subset_rfl (k := 1) rfl
  rw [hresult] at hresult'
  cases hresult'
  obtain ⟨r, _, ⟨source, hsource⟩, hnil, rfl⟩ := List.forall₂_cons_left_iff.mp hattributed
  cases hnil
  cases hreports with
  | cons hr _ =>
    obtain ⟨hrejected, hcached⟩ := reports_loopEntry hr
      ⟨_, List.mem_singleton_self _, _, List.mem_cons_self, decode_loopEntry _ _ _⟩
    have hauthor : authorAfter (calls.take 1) loopBytes none
        = some (loopEntry "LA;" "f" "()V") := by
      decide +kernel
    obtain rfl := hsource.messageSource.eq_of_cached hcached (decode_loopEntry _ _ _) hauthor
    have hclass : r.core.className = "LB;" := by
      rw [hr.1]
      decide +kernel
    refine ⟨r, hresult, hclass, hrejected, ?_, saysWithoutStore_iff.mpr ?_⟩
    · rw [hsource.message_eq hsigned.author_spells]
      decide +kernel
    · decide +kernel

end Analyzer
end Dalvik
