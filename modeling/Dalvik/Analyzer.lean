import Dalvik.Batch
import Dalvik.Report.Basic
import Dalvik.Verdict

/-!
# The analyzer

Turns manifest entries into reports. A verdict that the store holds is taken from there, unless
the run asks for detail; every other entry is decoded and, if it is a code item, analysed
together with the others, and its verdict is kept. Entries that cannot be decoded are rejected
without being kept.
-/

namespace Dalvik

open Log (Record)

/-- The settings of an analyzer. -/
structure Analyzer where
  config : Config := {}
  /-- Reports list instructions, targets and try blocks; the store is not asked. -/
  detail : Bool := false

namespace Analyzer

/-- The code of entries that cannot be decoded. -/
def decodeCode : String := "DEX"

/-- The category of entries that cannot be decoded. -/
def decodeCategory : String := "decode"

/-! ## Reports and verdicts -/

/-- The report on an entry that cannot be decoded. -/
def undecodable (r : MethodReport) (f : Failure) : MethodReport :=
  { r with code := decodeCode, category := decodeCategory, message := f.message }

/-- What is logged about an entry that cannot be decoded. -/
def undecodableRecords (r : MethodReport) (f : Failure) : List Record :=
  Diagnosis.failure (some { className := r.className, name := r.method, proto := r.proto }) f

/-- The category that belongs to the code of a kept verdict. -/
def categoryOf (code : String) : String :=
  if code.isEmpty then ""
  else if code = decodeCode then decodeCategory
  else (Category.ofCode code).text

/-- The report that a kept verdict gives. -/
def ofVerdict (r : MethodReport) (v : Verdict) : MethodReport :=
  { r with
    cached := true
    accepted := v.accepted
    code := v.code
    category := categoryOf v.code
    message := v.message
    insns := v.insns
    newInstances := v.newInstances }

/-- The verdict of a report. -/
def toVerdict (r : MethodReport) : Verdict where
  accepted := r.accepted
  code := r.code
  message := r.message
  insns := r.insns
  newInstances := r.newInstances

/-- The report with the outcome of an analysis. -/
def merge (a : Analyzer) (r : MethodReport) (res : MethodResult) : MethodReport :=
  match res.outcome with
  | .analysed ⟨.ok found, _⟩ =>
    let r := { r with accepted := true, newInstances := found.newInstances }
    if a.detail then
      { r with
        stats := some (.ofStats found.stats)
        targets := found.branchTargets.map Int.ofNat
        instructions := found.instructions.map .ofInfo
        tries := found.method.tries }
    else r
  | _ =>
    let f := res.failure
    { r with code := f.code, category := f.category.text, message := f.message }

/-! ## Before the analysis -/

/-- An entry before the analysis: its report is complete, or its method is to be analysed. -/
inductive Prepared where
  | complete (report : MethodReport)
  | pending (report : MethodReport) (method : Method)

/-- The method that is to be analysed. -/
def Prepared.method? : Prepared → Option Method
  | complete _ => none
  | pending _ m => some m

/-- Decodes the bytes of an entry. -/
def prepareBytes (r : MethodReport) (bytes : List UInt8) : Prepared × List Record :=
  match CodeItem.parse bytes with
  | .error fault =>
    let f := Failure.ofCodeItem fault
    (.complete (undecodable r f), undecodableRecords r f)
  | .ok item =>
    let m := item.toMethod r.className r.method r.proto
    (.pending { r with insns := m.code.size } m, [])

/-- Prepares one entry; only the store can make this fail. -/
def prepare (a : Analyzer) (store : Option VerdictStore) (e : ManifestEntry) :
    Except StoreFault Prepared × List Record :=
  let blank : MethodReport := { className := e.className, method := e.method, proto := e.proto }
  match Bytes.Hex.decode e.code with
  | .error fault =>
    let f := Failure.labelled "bad hex in code" (.text fault.message)
    (.ok (.complete (undecodable blank f)), undecodableRecords blank f)
  | .ok bytes =>
    let r := { blank with hash := Digest.compute bytes }
    let fresh := fun (before : List Record) =>
      match prepareBytes r bytes with
      | (p, records) => (Except.ok p, before ++ records)
    match if a.detail then none else store with
    | none => fresh []
    | some s =>
      match s.get r.hash with
      | (.error fault, records) => (.error fault, records)
      | (.ok (some v), records) => (.ok (.complete (ofVerdict r v)), records)
      | (.ok none, records) => fresh records

/-- Prepares the entries in order, up to the first failure. -/
def prepareAll (a : Analyzer) (store : Option VerdictStore) :
    List ManifestEntry → Except StoreFault (List Prepared) × List Record
  | [] => (.ok [], [])
  | e :: rest =>
    match prepare a store e with
    | (.error fault, records) => (.error fault, records)
    | (.ok p, records) =>
      match prepareAll a store rest with
      | (.error fault, more) => (.error fault, records ++ more)
      | (.ok ps, more) => (.ok (p :: ps), records ++ more)

/-! ## After the analysis -/

/-- Keeps a verdict, if there is a store. -/
def keep (store : Option VerdictStore) (r : MethodReport) :
    Except StoreFault (Option VerdictStore) :=
  match store with
  | none => .ok none
  | some s => (s.put r.hash (toVerdict r)).map some

/-- Puts the results of the analysis into the reports of pending entries, in order, and keeps
their verdicts. The store comes back also after a failure. -/
def complete (a : Analyzer) : List Prepared → List MethodResult → Option VerdictStore →
    Except StoreFault (List MethodReport) × Option VerdictStore
  | .complete r :: rest, results, store =>
    match complete a rest results store with
    | (.ok rs, store') => (.ok (r :: rs), store')
    | (.error fault, store') => (.error fault, store')
  | .pending r _ :: rest, res :: results, store =>
    let merged := merge a r res
    match keep store merged with
    | .error fault => (.error fault, store)
    | .ok store' =>
      match complete a rest results store' with
      | (.ok rs, store'') => (.ok (merged :: rs), store'')
      | (.error fault, store'') => (.error fault, store'')
  | _, _, store => (.ok [], store)

/-! ## Runs -/

/-- What a run leaves behind. -/
structure RunOutcome where
  result : Except StoreFault (List MethodReport)
  store : Option VerdictStore
  records : List Record

/-- The record at the start of the analysis. -/
def startRecord (entries pending : Nat) : Record :=
  ⟨Log.Level.debug, Log.commandModule, "analyzing",
    [⟨"methods", .int entries⟩, ⟨"uncached", .int pending⟩]⟩

/-- Reports on the entries, in order. `refused` says which of the methods to be analysed were
kept from starting by cancellation. -/
def run (a : Analyzer) (refused : Batch.Refused) (store : Option VerdictStore)
    (entries : List ManifestEntry) : RunOutcome :=
  match prepareAll a store entries with
  | (.error fault, records) => ⟨.error fault, store, records⟩
  | (.ok prepared, records) =>
    let methods := prepared.filterMap Prepared.method?
    let results := Batch.run a.config refused methods
    let records := records ++ [startRecord entries.length methods.length] ++ Batch.records results
    match complete a prepared results store with
    | (result, store') => ⟨result, store', records⟩

end Analyzer

end Dalvik
