import Dalvik.Analyzer
import Dalvik.Command.Help
import Dalvik.Diff
import Dalvik.Files
import Dalvik.Log.Logger
import Dalvik.Report.View

/-!
# Running commands

A command reads files, may keep verdicts in a store on disk, prints to the standard output and
logs to the standard error. It fails not only when something goes wrong: a rejected method and a
difference between reports are failures too, though ones that need no message.
-/

namespace Dalvik.Command

open Log (Record)

/-! ## Faults -/

/-- Why a command fails. -/
inductive Fault where
  | usage (fault : UsageFault)
  | log (fault : Log.Logger.SetupFault)
  /-- Both or none of the two ways to give a method were used. -/
  | oneInput
  | unreadable (path : String) (fault : Files.PathFault)
  | unreadableManifest (fault : Files.PathFault)
  | manifest (path : String) (fault : Json.DecodeFault)
  | report (path : String) (fault : Json.DecodeFault)
  | cache (fault : Files.OpenFault)
  | store (fault : StoreFault)
  | diff (fault : Diff.Fault)
  | rejected
  | differs
  deriving DecidableEq

namespace Fault

/-- The wording of a fault. -/
def message : Fault → String
  | usage fault => fault.message
  | log fault => fault.message
  | oneInput => "exactly one of --hex or --file is required"
  | unreadable path fault => "failed to read " ++ path ++ ": " ++ fault.message
  | unreadableManifest fault => "failed to read manifest: " ++ fault.message
  | manifest path fault => "failed to parse manifest " ++ path ++ ": " ++ fault.message
  | report path fault => path ++ " is not a batch report: " ++ fault.message
  | cache fault => fault.message
  | store fault => fault.message
  | diff fault => fault.message
  | rejected => "one or more methods rejected"
  | differs => "reports differ"

/-- The fault is the answer of the command and needs no message. -/
def isAnswer : Fault → Bool
  | rejected => true
  | differs => true
  | _ => false

/-- The fault is one of JSON. -/
def isJson : Fault → Bool
  | manifest _ fault => fault.isJson
  | report _ fault => fault.isJson
  | store fault => fault.isJson
  | diff fault => fault.isJson
  | _ => false

end Fault

/-! ## Commands -/

/-- What a command does. -/
structure Effect where
  files : Files
  result : Except Fault Unit := .ok ()
  output : String := ""
  records : List Record := []
  /-- The mode that suppresses reports on class resolution was switched on. -/
  optimizing : Bool := false

/-- A failure that prints nothing. -/
def Effect.fail (files : Files) (fault : Fault) : Effect :=
  { files := files, result := .error fault }

/-- Opens the store of verdicts, if a place is given for one. -/
def openCache (files : Files) (place : String) :
    Except Fault (Option Files.OpenStore) × Files :=
  if place.isEmpty then (.ok none, files)
  else
    match files.openStore place with
    | (.ok s, files) => (.ok (some s), files)
    | (.error fault, files) => (.error (.cache fault), files)

/-- Closes the store of verdicts with what it holds now. -/
def closeCache (files : Files) (opened : Option Files.OpenStore) (now : Option VerdictStore) :
    Files :=
  match opened, now with
  | some s, some store =>
    match files.closeStore { s with store := store } with
    | .ok (_, files') => files'
    | .error _ => files
  | _, _ => files

/-- Analyses entries and prints their reports; a method that is not accepted is a failure. -/
def analyze (files : Files) (place : String) (a : Analyzer) (entries : List ManifestEntry)
    (print : List MethodReport → String) : Effect :=
  match openCache files place with
  | (.error fault, files) => .fail files fault
  | (.ok opened, files) =>
    let o := a.run .none (opened.map (·.store)) entries
    let done : Effect :=
      { files := closeCache files opened o.store, records := o.records
        optimizing := a.config.optimizing }
    match o.result with
    | .error fault => { done with result := .error (.store fault) }
    | .ok reports =>
      { done with
        output := print reports
        result := if reports.all (·.accepted) then .ok () else .error .rejected }

/-- The digits of the method to be scanned. -/
def ScanOptions.code (o : ScanOptions) (files : Files) : Except Fault String :=
  if o.hex.isEmpty = o.file.isEmpty then .error .oneInput
  else if o.file.isEmpty then .ok o.hex
  else
    match files.read o.file with
    | .ok bytes => .ok (Bytes.Hex.encode bytes)
    | .error fault => .error (.unreadable o.file fault)

/-- The report on a scanned method in the form that is asked for. -/
def ScanOptions.print (o : ScanOptions) (r : MethodReport) : String :=
  if o.json then r.toJson.document
  else if o.tree then r.tree.render ++ "\n"
  else r.line

/-- Pre-analyses one method. -/
def scan (files : Files) (o : ScanOptions) : Effect :=
  match o.code files with
  | .error fault => .fail files fault
  | .ok code =>
    let config : Config := { gcPoints := o.gcPoints, optimizing := o.optimizing, workers := 1 }
    analyze files o.cache ⟨config, o.json || o.tree⟩ [⟨o.className, o.method, o.proto, code⟩]
      fun reports => String.join (reports.map o.print)

/-- The entries of a manifest. -/
def readManifest (files : Files) (path : String) : Except Fault (List ManifestEntry) :=
  match files.read path with
  | .error fault => .error (.unreadableManifest fault)
  | .ok bytes =>
    match ManifestEntry.listDecoder.run bytes with
    | .ok entries => .ok entries
    | .error fault => .error (.manifest path fault)

/-- The reports on a batch in the form that is asked for. -/
def BatchOptions.print (o : BatchOptions) (reports : List MethodReport) : String :=
  let report := Report.ofMethods reports
  if o.json then report.toJson.document
  else String.join (reports.map (·.line)) ++ report.sumLine

/-- Pre-analyses the methods of a manifest. -/
def batch (files : Files) (o : BatchOptions) (manifest : String) : Effect :=
  match readManifest files manifest with
  | .error fault => .fail files fault
  | .ok entries => analyze files o.cache ⟨⟨o.gcPoints, o.optimizing, o.workers⟩, false⟩ entries o.print

/-- The text of a report and what it holds. -/
def readReport (files : Files) (path : String) : Except Fault (List UInt8 × Report) :=
  match files.read path with
  | .error fault => .error (.unreadable path fault)
  | .ok bytes =>
    match Report.decoder.run bytes with
    | .ok report => .ok (bytes, report)
    | .error fault => .error (.report path fault)

/-- The record of a difference. -/
def differenceRecord (left right : String) : Record :=
  ⟨Log.Level.debug, Log.commandModule, "reports differ",
    [⟨"left", .text left⟩, ⟨"right", .text right⟩]⟩

/-- The line with the counts of two reports. -/
def countLine (l r : Report) : String :=
  let change := fun (before after : Int) => s!"{before} -> {after}"
  "accepted " ++ change l.accepted r.accepted ++ ", rejected " ++ change l.rejected r.rejected
    ++ "\n"

/-- Compares two reports. -/
def diff (files : Files) (o : DiffOptions) (left right : String) : Effect :=
  match readReport files left with
  | .error fault => .fail files fault
  | .ok (leftText, l) =>
    match readReport files right with
    | .error fault => .fail files fault
    | .ok (rightText, r) =>
      match Diff.documents leftText rightText o.color with
      | ⟨.error fault, _⟩ => .fail files (.diff fault)
      | ⟨.ok _, false⟩ =>
        { files := files, output := Color.paint Color.green "reports match" ++ "\n" }
      | ⟨.ok listing, true⟩ =>
        { files := files, output := listing ++ countLine l r, result := .error .differs
          records := [differenceRecord left right] }

/-! ## Whole runs -/

/-- What a run leaves behind. -/
structure Outcome where
  files : Files
  result : Except Fault Unit
  stdout : String
  stderr : String
  optimizing : Bool

/-- The record at the start of tracing. -/
def tracingRecords (g : Globals) : List Record :=
  if g.endpoint.isEmpty then []
  else [⟨Log.Level.info, Log.commandModule, "tracing enabled", [⟨"endpoint", .text g.endpoint⟩]⟩]

/-- Runs a command under the global settings. -/
def execute (g : Globals) (files : Files) (command : Files → Effect) : Outcome :=
  match Log.Logger.setup g.logLevel g.logFormat with
  | .error fault => ⟨files, .error (.log fault), "", "", false⟩
  | .ok logger =>
    let e := command files
    let switches := Log.Switches.start.enableList g.debug
    ⟨e.files, e.result, e.output, Log.render logger switches (tracingRecords g ++ e.records),
      e.optimizing⟩

/-- Does what is asked for. -/
def Request.run (files : Files) : Request → Outcome
  | help topic => ⟨files, .ok (), helpText topic, "", false⟩
  | version => ⟨files, .ok (), versionText, "", false⟩
  | scan g o => execute g files fun fs => Command.scan fs o
  | batch g o manifest => execute g files fun fs => Command.batch fs o manifest
  | diff g o left right => execute g files fun fs => Command.diff fs o left right

/-- Runs a command line. -/
def run (files : Files) (line : List String) : Outcome :=
  match Request.parse line with
  | .ok request => request.run files
  | .error fault => ⟨files, .error (.usage fault), "", "", false⟩

namespace Outcome

/-- The exit status of the program. -/
def status (o : Outcome) : Nat :=
  match o.result with
  | .ok _ => 0
  | .error _ => 1

/-- Everything on the standard error: the log and, unless the fault is an answer, its message. -/
def complaints (o : Outcome) : String :=
  match o.result with
  | .ok _ => o.stderr
  | .error fault =>
    if fault.isAnswer then o.stderr
    else o.stderr ++ program ++ ": " ++ fault.message ++ "\n"

end Outcome

end Dalvik.Command
