import Mathlib
import Dalvik.Log.Logger
import Dalvik.Proofs.Bounds
import Dalvik.Proofs.PointwiseRuns

/-!
# Failures in the log

A failure is logged where it is found and nowhere else, by two warnings (`FailurePair`). A pass
therefore logs no warning unless it halts, and then the two for that halt (`Pass.LogsOnce`). This is
so of each single pass; it is kept when passes follow one another and when a loop runs a pass at
every instruction (`Pass.severe_walk`), and so it holds of a pre-analysis. In a run of the analyzer an
entry that is rejected has its two warnings, from the decoder or from the analysis, and an entry
that is accepted or whose verdict comes from the store has none (`EntryLog`).
-/

namespace Dalvik

open Check
open Log (Record Switches)

namespace Log

/-! ## Warnings -/

theorem Level.trace_lt_warn : Level.trace < Level.warn := by decide

theorem Level.debug_lt_warn : Level.debug < Level.warn := by decide

/-- The records at the level of warnings and above. -/
def severe (records : List Record) : List Record :=
  records.filter fun r => decide (Level.warn ≤ r.level)

/-- The warnings, and what is above them, that come through the switches to the logger. -/
def Switches.warnings (s : Switches) (records : List Record) : List Record :=
  severe (records.filter s.admits)

/-- No switch holds a warning back. -/
theorem Switches.warnings_eq (s : Switches) (records : List Record) :
    s.warnings records = severe records := by
  rw [warnings, severe, List.filter_filter]
  apply List.filter_congr
  intro r _
  by_cases hr : Level.warn ≤ r.level
  · have htrace : r.level ≠ Level.trace := fun heq => absurd (heq ▸ hr) (by decide)
    have hdebug : r.level ≠ Level.debug := fun heq => absurd (heq ▸ hr) (by decide)
    simp [hr, admits, htrace, hdebug]
  · simp [hr]

/-- The warnings of two logs, one after the other, are those of both. -/
theorem severe_append (records more : List Record) :
    severe (records ++ more) = severe records ++ severe more := by
  rw [severe, List.filter_append, ← severe, ← severe]

/-- A record below the level of warnings is none. -/
theorem severe_singleton {r : Record} (h : r.level < Level.warn) : severe [r] = [] := by
  rw [severe, List.filter_singleton, decide_eq_false (Int.not_le.mpr h)]
  rfl

/-- The value under a key. -/
def Record.value? (r : Record) (key : String) : Option Value :=
  (r.fields.find? fun f => decide (f.key = key)).map (·.value)

end Log

namespace Diagnosis

/-- Two warnings about the failure `f` of a method: the first carries the particulars of the failure
and of the method, the second names the method. -/
structure FailurePair (className name proto : String) (f : Failure) (first second : Record) :
    Prop where
  levels : first.level = Log.Level.warn ∧ second.level = Log.Level.warn
  message : first.message = "VFY: verification failed"
  /-- No key has two values. -/
  keys : (first.fields.map (·.key)).Nodup
  code : first.value? "code" = some (.text f.code)
  text : first.value? "err" = some (.text f.message)
  /-- There is an offset if the failure has one. -/
  offset : first.value? "offset" = (f.rejection?.bind (·.offset)).map .int
  /-- There is an opcode if it is known. -/
  opcode : first.value? "opcode" = (f.rejection?.bind (·.opcode)).map fun op => .text op.name
  owner : first.value? "class" = some (.text (dotted className)) ∧
    first.value? "method" = some (.text name) ∧ first.value? "proto" = some (.text proto)
  rejected : second.message = "VFY:  rejected " ++ className ++ "." ++ name ++ " " ++ proto

theorem failureFields_eq (f : Failure) :
    failureFields f = [⟨"code", .text f.code⟩, ⟨"err", .text f.message⟩]
      ++ ((f.rejection?.bind (·.offset)).map fun off => ⟨"offset", .int off⟩).toList
      ++ ((f.rejection?.bind (·.opcode)).map fun op => ⟨"opcode", .text op.name⟩).toList :=
  rfl

/-- What is logged about a failure of a method is such a pair. -/
theorem failurePair (m : Method) (f : Failure) :
    FailurePair m.className m.name m.proto f (failureRecord (failureFields f ++ methodFields m))
      (rejectedRecord m) := by
  rw [failureFields_eq]
  -- the keys are fixed, so it is enough to know which of the two optional fields are there
  cases hoffset : f.rejection?.bind (·.offset) <;> cases hopcode : f.rejection?.bind (·.opcode) <;>
    constructor <;>
    simp [Record.value?, failureRecord, methodFields, rejectedRecord, hoffset, hopcode]

end Diagnosis

namespace Pass

open Log (severe)

/-! ## Passes -/

/-- The warnings of the pass are those for its halt, if it halts. -/
def LogsOnce {α : Type} (m : Method) (p : Pass α) : Prop :=
  ∀ t, severe (p.run t).records = haltRecords m (p.run t).result

/-- Whatever is logged about a halt is a warning. -/
theorem severe_haltRecords {α : Type} (m : Method) (c : Check α) :
    severe (haltRecords m c) = haltRecords m c := by
  cases c with
  | ok a => rfl
  | error h => cases h <;> rfl

namespace LogsOnce

variable {α β : Type} {m : Method}

theorem pure (a : α) : LogsOnce m (Pure.pure a : Pass α) := fun _ => rfl

theorem note {r : Record} (h : r.level < Log.Level.warn) : LogsOnce m (Pass.note r) :=
  fun _ => Log.severe_singleton h

/-- A check logs its own failure. -/
theorem ofCheck (check : FlagTable → Check α × FlagTable) : LogsOnce m (Pass.ofCheck m check) :=
  fun t => severe_haltRecords m (check t).1

/-- An operation on the table need not log, as long as it refuses nothing. -/
theorem ofTable {op : FlagTable → Check α × FlagTable} (h : ∀ t, haltRecords m (op t).1 = []) :
    LogsOnce m (Pass.ofTable op) := fun t => (h t).symm

/-- So it is with a query. -/
theorem ofQuery {query : FlagTable → Check α} (h : ∀ t, haltRecords m (query t) = []) :
    LogsOnce m (Pass.ofQuery query) := fun t => (h t).symm

/-- A halt of the first pass is logged there; else the second one has the say. -/
theorem bind {p : Pass α} {f : α → Pass β} (hp : LogsOnce m p) (hf : ∀ a, LogsOnce m (f a)) :
    LogsOnce m (p >>= f) := by
  intro t
  have hp' := hp t
  cases hrun : p.run t with
  | mk result t' records =>
    rw [hrun] at hp'
    cases result with
    | error h =>
      rw [run_bind_error hrun f]
      exact hp'
    | ok a =>
      rw [run_bind_ok hrun f]
      simp only
      rw [Log.severe_append, hp', hf a t']
      rfl

end LogsOnce

theorem logsOnce_widths (m : Method) : LogsOnce m (widths m) :=
  (LogsOnce.ofCheck _).bind fun _ => (LogsOnce.note Log.Level.trace_lt_warn).bind fun _ => .pure _

theorem logsOnce_tries (m : Method) : LogsOnce m (tries m) :=
  (LogsOnce.ofCheck _).bind fun _ => .note Log.Level.trace_lt_warn

theorem logsOnce_branch (m : Method) (off : ℤ) (selfOkay : Bool) :
    LogsOnce m (branch m off selfOkay) := .ofCheck _

theorem logsOnce_switch (m : Method) (off : ℤ) : LogsOnce m (switch m off) := .ofCheck _

theorem logsOnce_arrayData (m : Method) (off : ℤ) : LogsOnce m (arrayData m off) := .ofCheck _

/-- A read of the code refuses nothing. -/
theorem haltRecords_unit (m : Method) (code : Code) (i : ℕ) :
    haltRecords m (Check.unit code i) = [] := by
  unfold Check.unit
  cases code[i]? <;> rfl

/-- A mark refuses nothing. -/
theorem haltRecords_markAll (m : Method) (t : FlagTable) (k : Mark) (addrs : List ℕ) :
    haltRecords m (markAll t k addrs).1 = [] := by
  unfold markAll
  split <;> rfl

/-- Neither does the search for collection points. -/
theorem haltRecords_gcPoint (m : Method) (off : ℕ) (t : FlagTable) :
    haltRecords m (Check.gcPoint m off t).1 = [] := by
  unfold Check.gcPoint Check.word Check.unit
  cases t.words[off]? with
  | none => rfl
  | some w =>
    simp only
    split
    · rfl
    · cases m.code[off]? with
      | none => rfl
      | some u =>
        simp only
        split <;> rfl

/-- The checks of one instruction are those of a branch, of a switch or of array data, or none. -/
theorem logsOnce_instruction (m : Method) (off : ℕ) : LogsOnce m (instruction m off) := by
  refine (LogsOnce.ofQuery fun _ => haltRecords_unit m m.code off).bind fun u => ?_
  dsimp only
  split_ifs
  · exact .pure ()
  · exact logsOnce_branch m off _
  · exact logsOnce_switch m off
  · exact logsOnce_arrayData m off
  · exact .pure ()

theorem logsOnce_gcPoint (m : Method) (off : ℕ) : LogsOnce m (gcPoint m off) :=
  .ofTable (haltRecords_gcPoint m off)

/-- A loop adds the warnings for its halt to those from before, if that is so of its body. -/
theorem severe_walk {m : Method} {body : ℕ → Pass Unit} (hbody : ∀ o, LogsOnce m (body o))
    (limit off : ℕ) (logged : List Record) (t : FlagTable) :
    severe ((walk limit body off logged).run t).records
      = severe logged ++ haltRecords m ((walk limit body off logged).run t).result := by
  -- what one turn adds to the log depends on how the body ends
  have hturn : ∀ {o : ℕ} {t t' : FlagTable} {result : Check Unit} {records : List Record}
      (logged : List Record), (body o).run t = ⟨result, t', records⟩ →
      severe (logged ++ records) = severe logged ++ haltRecords m result := by
    intro o t t' result records logged hrun
    have hrecords := hbody o t
    rw [hrun] at hrecords
    rw [Log.severe_append, hrecords]
  apply walk_rule (P := fun _ logged _ out =>
    severe out.records = severe logged ++ haltRecords m out.result)
  case stop =>
    intro off logged t _
    exact (List.append_nil _).symm
  case halt =>
    intro off logged t h t' records _ hrun
    exact hturn logged hrun
  -- a halt without a cause is logged no more than a turn that passes
  case lost =>
    intro off logged t t' records _ hrun _
    show severe (logged ++ records) = severe logged ++ haltRecords m (.ok () : Check Unit)
    exact hturn logged hrun
  case stalled =>
    intro off logged t t' records w _ hrun _ _
    show severe (logged ++ records) = severe logged ++ haltRecords m (.ok () : Check Unit)
    exact hturn logged hrun
  case turn =>
    intro off logged t t' records w out _ hrun _ _ ih
    rw [ih, hturn logged hrun]
    exact congrArg (· ++ _) (List.append_nil _)

/-- A loop over a method logs once if its body does. -/
theorem LogsOnce.each {m : Method} {body : ℕ → Pass Unit} (hbody : ∀ o, LogsOnce m (body o)) :
    LogsOnce m (Pass.each m body) := severe_walk hbody m.code.size 0 []

/-- The passes of a pre-analysis log once. -/
theorem logsOnce_all (m : Method) (gcPoints : Bool) : LogsOnce m (Pass.all m gcPoints) := by
  refine (logsOnce_widths m).bind fun n => (logsOnce_tries m).bind fun _ => ?_
  refine (LogsOnce.ofTable fun t => haltRecords_markAll m t _ _).bind fun _ => ?_
  refine (LogsOnce.each (logsOnce_instruction m)).bind fun _ => ?_
  cases gcPoints with
  | true =>
    refine (LogsOnce.each (logsOnce_gcPoint m)).bind fun _ => ?_
    exact (LogsOnce.note Log.Level.debug_lt_warn).bind fun _ => .pure n
  | false => exact (LogsOnce.note Log.Level.debug_lt_warn).bind fun _ => .pure n

end Pass

/-- The warnings of a pre-analysis are those for its halt. -/
theorem severe_preAnalyze (config : Config) (m : Method) :
    Log.severe (preAnalyze config m).records
      = Pass.haltRecords m (preAnalyze config m).result := by
  have hall := Pass.logsOnce_all m config.gcPoints (.blank m.code.size)
  unfold preAnalyze
  cases hrun : (Pass.all m config.gcPoints).run (.blank m.code.size) with
  | mk result table records =>
    rw [hrun] at hall
    cases result with
    | error h => exact hall
    | ok n => exact hall

/-- A method that is accepted gives no warning. -/
theorem severe_accepted {config : Config} {m : Method} {a : Analysis}
    (h : (preAnalyze config m).result = .ok a) : Log.severe (preAnalyze config m).records = [] := by
  rw [severe_preAnalyze, h]
  rfl

/-- A method that is rejected has the warnings about its failure. -/
theorem severe_rejected {config : Config} {m : Method} {h : Halt}
    (hresult : (preAnalyze config m).result = .error h) :
    Log.severe (preAnalyze config m).records = Diagnosis.failure (some m) (h.failure m) := by
  obtain ⟨offset, cause, rfl⟩ := refuses_preAnalyze config m h hresult
  rw [severe_preAnalyze, hresult]
  rfl

/-! ## Runs of the analyzer -/

namespace Analyzer

open Log (severe)

/-- What is logged at the level of warnings and above about an entry with the report `r`: two
warnings about a failure if it is rejected and the verdict was not found in the store, else
nothing. -/
inductive EntryLog (e : ManifestEntry) (r : MethodReport) : List Record → Prop where
  /-- The failure has the text of the report, and its code unless the entry cannot be decoded. -/
  | rejected {f : Failure} {first second : Record} (haccepted : r.accepted = false)
      (hcached : r.cached = false)
      (hpair : Diagnosis.FailurePair e.className e.method e.proto f first second)
      (hmessage : f.message = r.message)
      (hcode : f.code = r.code ∨ f.rejection? = none ∧ r.code = decodeCode) :
    EntryLog e r [first, second]
  | silent (h : r.accepted = true ∨ r.cached = true) : EntryLog e r []

/-- The warnings of an analysis that is still to come. -/
def analysisLog (a : Analyzer) : Prepared → List Record
  | .complete _ => []
  | .pending _ m => severe (preAnalyze a.config m).records

/-- Looking for a verdict gives no warnings. -/
theorem severe_get (s : VerdictStore) (key : Digest) : severe (s.get key).2 = [] := by
  unfold VerdictStore.get
  split
  · exact Log.severe_singleton Log.Level.trace_lt_warn
  · rfl
  · split
    · rfl
    · split
      · exact Log.severe_singleton Log.Level.debug_lt_warn
      · exact Log.severe_singleton Log.Level.trace_lt_warn

theorem rejection?_withLabels (f : Failure) (labels : List String) :
    (f.withLabels labels).rejection? = f.rejection? := by
  induction labels generalizing f with
  | nil => rfl
  | cons label labels ih => exact ih (.labelled label f)

/-- An entry that cannot be decoded has its warnings. -/
theorem entryLog_undecodable (e : ManifestEntry) (hash : Digest) {f : Failure}
    (hf : f.rejection? = none) :
    EntryLog e (undecodable (blankReport e hash) f)
      (severe (undecodableRecords (blankReport e hash) f)) :=
  .rejected rfl rfl
    (Diagnosis.failurePair { className := e.className, name := e.method, proto := e.proto } f) rfl
    (.inr ⟨hf, rfl⟩)

/-- A method that is analysed has the warnings of its analysis. -/
theorem entryLog_pending (a : Analyzer) (e : ManifestEntry) (hash : Digest) (item : CodeItem) :
    let p := Prepared.pending { blankReport e hash with insns := item.code.size }
      (item.toMethod e.className e.method e.proto)
    EntryLog e (finish a p) (analysisLog a p) := by
  intro p
  change EntryLog e (merge a _ ⟨_, .analysed (preAnalyze a.config _)⟩)
    (severe (preAnalyze a.config _).records)
  generalize hm : item.toMethod e.className e.method e.proto = m
  cases hresult : (preAnalyze a.config m).result with
  | ok found =>
    rw [severe_accepted hresult]
    exact .silent (.inl (congrArg MethodReport.accepted (merge_accepted a _ m hresult).1))
  | error h =>
    rw [severe_rejected hresult, merge_refused a _ m hresult]
    have hpair := Diagnosis.failurePair m (h.failure m)
    rw [← hm] at hpair ⊢
    exact .rejected rfl rfl hpair rfl (.inl rfl)

/-- The warnings about an entry with bytes come from the decoder or from the analysis, never from
both. -/
theorem entryLog_prepareBytes (a : Analyzer) (e : ManifestEntry) (hash : Digest)
    (bytes : List UInt8) :
    EntryLog e (finish a (prepareBytes (blankReport e hash) bytes).1)
      (severe (prepareBytes (blankReport e hash) bytes).2
        ++ analysisLog a (prepareBytes (blankReport e hash) bytes).1) := by
  unfold prepareBytes
  cases CodeItem.parse bytes with
  | error fault =>
    have hf : (Failure.ofCodeItem fault).rejection? = none := rejection?_withLabels _ _
    simp only [analysisLog, List.append_nil]
    exact entryLog_undecodable e hash hf
  | ok item => exact entryLog_pending a e hash item

/-- However an entry is prepared, preparing it and analysing its method together give the warnings
that it should have. -/
theorem entryLog_prepare {a : Analyzer} {store : Option VerdictStore} {e : ManifestEntry}
    {p : Prepared} (h : (prepare a store e).1 = .ok p) :
    EntryLog e (finish a p) (severe (prepare a store e).2 ++ analysisLog a p) := by
  unfold prepare at h ⊢
  cases hb : Bytes.Hex.decode e.code with
  | error fault =>
    rw [hb] at h
    cases h
    simp only [analysisLog, List.append_nil]
    exact entryLog_undecodable e Digest.zero rfl
  | ok bytes =>
    rw [hb] at h
    simp only at h ⊢
    cases hstore : (if a.detail then none else store) with
    | none =>
      rw [hstore] at h
      cases h
      exact entryLog_prepareBytes a e _ bytes
    | some s =>
      have hquiet := severe_get s (Digest.compute bytes)
      rw [hstore] at h
      simp only at h ⊢
      rcases hget : s.get (Digest.compute bytes) with ⟨_ | _ | v, records⟩
      · rw [hget] at h
        cases h
      · rw [hget] at h hquiet
        cases h
        simp only [Log.severe_append]
        rw [hquiet]
        exact entryLog_prepareBytes a e _ bytes
      · rw [hget] at h hquiet
        cases h
        simp only [hquiet]
        exact .silent (.inr rfl)

/-- The warnings of the analyses are those of the first entry and those of the others. -/
theorem severe_results_cons (a : Analyzer) (p : Prepared) (ps : List Prepared) :
    severe ((results a (p :: ps)).flatMap MethodResult.records)
      = analysisLog a p ++ severe ((results a ps).flatMap MethodResult.records) := by
  cases p with
  | complete r => rw [results_complete, analysisLog, List.nil_append]
  | pending r m =>
    rw [results_pending, List.flatMap_cons, Log.severe_append]
    rfl

/-- The warnings from preparing and from the analyses are those of the entries, one after the
other. -/
theorem exists_entryLogs {a : Analyzer} {store : Option VerdictStore} {es : List ManifestEntry}
    {ps : List Prepared} (h : (prepareAll a store es).1 = .ok ps) :
    ∃ logs, List.Forall₂ (fun e log => EntryLog e.1 e.2 log) (es.zip (ps.map (finish a))) logs ∧
      (severe (prepareAll a store es).2
        ++ severe ((results a ps).flatMap MethodResult.records)).Perm logs.flatten := by
  induction es generalizing ps with
  | nil =>
    cases h
    exact ⟨[], .nil, .refl _⟩
  | cons e es ih =>
    rw [prepareAll] at h ⊢
    cases hp : prepare a store e with
    | mk result records =>
      cases result with
      | error fault =>
        rw [hp] at h
        cases h
      | ok p =>
        have hlog := entryLog_prepare (show (prepare a store e).1 = .ok p by rw [hp])
        cases hps : prepareAll a store es with
        | mk rest more =>
          rw [hp, hps] at h
          cases rest with
          | error fault => cases h
          | ok ps =>
            cases h
            obtain ⟨logs, hlogs, hperm⟩ := ih (show (prepareAll a store es).1 = .ok ps by rw [hps])
            rw [hp] at hlog
            rw [hps] at hperm
            refine ⟨_ :: logs, .cons hlog hlogs, ?_⟩
            simp only [List.flatten_cons, Log.severe_append, severe_results_cons, List.append_assoc]
            -- the analysis of the first entry comes before the preparation of the others
            refine List.Perm.append_left _ ?_
            exact (List.perm_append_comm_assoc _ _ _).trans (hperm.append_left _)

/-- The records at the start and at the end of the analyses are no warnings. -/
theorem severe_run {a : Analyzer} {store : Option VerdictStore} {es : List ManifestEntry}
    {ps : List Prepared} (h : (prepareAll a store es).1 = .ok ps) :
    severe (run a Batch.Refused.none store es).records
      = severe (prepareAll a store es).2
        ++ severe ((results a ps).flatMap MethodResult.records) := by
  have hrecords : (run a Batch.Refused.none store es).records
      = (prepareAll a store es).2 ++ [startRecord es.length (ps.filterMap Prepared.method?).length]
        ++ Batch.records (results a ps) := by
    unfold run
    revert h
    rcases prepareAll a store es with ⟨result, records⟩
    intro h
    cases h
    rfl
  have hstart := Log.severe_singleton (r := startRecord es.length
    (ps.filterMap Prepared.method?).length) Log.Level.debug_lt_warn
  have hdone := Log.severe_singleton (r := Batch.doneRecord (results a ps)) Log.Level.debug_lt_warn
  rw [hrecords, Batch.records]
  simp only [Log.severe_append, hstart, hdone, List.append_nil]

/-- The reports of a run that succeeds are those on its prepared entries. -/
theorem prepared_of_run {a : Analyzer} {store : Option VerdictStore} {es : List ManifestEntry}
    {reports : List MethodReport} (h : (run a Batch.Refused.none store es).result = .ok reports) :
    ∃ ps, (prepareAll a store es).1 = .ok ps ∧ reports = ps.map (finish a) := by
  cases hps : (prepareAll a store es).1 with
  | error fault =>
    rw [(run_of_prepareAll_error hps Batch.Refused.none).1] at h
    cases h
  | ok ps =>
    refine ⟨ps, rfl, ?_⟩
    have hresult := congrArg Prod.fst (run_of_prepared hps)
    simp only [h] at hresult
    cases store with
    | none => exact Except.ok.inj hresult
    | some s =>
      simp only at hresult
      split at hresult
      · exact Except.ok.inj hresult
      · cases hresult

end Analyzer

/-! ## All failures -/

/-- Behind every choice of modules, failures are reported once and where they belong. -/
structure ReportedOnce (switches : Switches) : Prop where
  /-- A method that is accepted gives no warning. -/
  accepted : ∀ config m a, (preAnalyze config m).result = .ok a →
    switches.warnings (preAnalyze config m).records = []
  /-- A method that is rejected gives two warnings about its failure. -/
  rejected : ∀ config m h, (preAnalyze config m).result = .error h →
    ∃ offset cause first second, h = .refused offset cause ∧
      switches.warnings (preAnalyze config m).records = [first, second] ∧
      Diagnosis.FailurePair m.className m.name m.proto (.rejection (.of m offset cause)) first
        second
  /-- In a run of the analyzer, in whatever order its workers log, each entry has the warnings that
  its report calls for, and there are no others. -/
  run : ∀ (a : Analyzer) store entries reports,
    (a.run Batch.Refused.none store entries).result = .ok reports →
      entries.length = reports.length ∧
      ∃ logs, List.Forall₂ (fun e log => Analyzer.EntryLog e.1 e.2 log) (entries.zip reports) logs ∧
        ∀ log, log.Perm (a.run Batch.Refused.none store entries).records →
          (switches.warnings log).Perm logs.flatten

/-- Every failure is reported exactly once, whatever modules are enabled. -/
theorem reportedOnce_switches (switches : Switches) : ReportedOnce switches := by
  constructor
  · intro config m a haccepted
    rw [Switches.warnings_eq, severe_accepted haccepted]
  · intro config m h hrejected
    obtain ⟨offset, cause, rfl⟩ := refuses_preAnalyze config m h hrejected
    refine ⟨offset, cause, _, _, rfl, ?_, Diagnosis.failurePair m _⟩
    rw [Switches.warnings_eq, severe_rejected hrejected]
    rfl
  · intro a store entries reports hrun
    obtain ⟨ps, hps, rfl⟩ := Analyzer.prepared_of_run hrun
    obtain ⟨logs, hlogs, hperm⟩ := Analyzer.exists_entryLogs hps
    refine ⟨?_, logs, hlogs, ?_⟩
    · rw [List.length_map, (Analyzer.forall₂_of_prepareAll hps).length_eq]
    · intro log hlog
      rw [Switches.warnings_eq]
      refine (hlog.filter _).trans ?_
      rw [← Log.severe, Analyzer.severe_run hps]
      exact hperm

end Dalvik
