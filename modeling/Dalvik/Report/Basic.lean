import Dalvik.Analysis
import Dalvik.Json.Decode
import Dalvik.Json.Value

/-!
# Reports

What a run says about each method, and about all of them. Reports are written as JSON documents
and read back from them; a field that holds nothing is left out.
-/

namespace Dalvik

/-- A method to be analysed: its names and its code item in hexadecimal digits. -/
structure ManifestEntry where
  className : String := ""
  method : String := ""
  proto : String := ""
  code : String := ""
  deriving DecidableEq, Repr

/-- The counts of a report. -/
structure ReportStats where
  instructions : Int := 0
  payloads : Int := 0
  branchTargets : Int := 0
  inTryUnits : Int := 0
  gcPoints : Int := 0
  deriving DecidableEq, Repr

/-- An instruction in a report. -/
structure ReportInstruction where
  offset : Int := 0
  width : Int := 0
  name : String := ""
  payload : Bool := false
  inTry : Bool := false
  branchTarget : Bool := false
  gcPoint : Bool := false
  deriving DecidableEq, Repr

/-- The outcome for one method. The last four fields hold detail that only some runs ask for. -/
structure MethodReport where
  className : String := ""
  method : String := ""
  proto : String := ""
  hash : Digest := Digest.zero
  accepted : Bool := false
  cached : Bool := false
  code : String := ""
  category : String := ""
  message : String := ""
  insns : Int := 0
  newInstances : Int := 0
  stats : Option ReportStats := none
  targets : List Int := []
  instructions : List ReportInstruction := []
  tries : List TryBlock := []
  deriving DecidableEq

/-- The outcome for a list of methods. A report that is read back can lack a method. -/
structure Report where
  methods : List (Option MethodReport) := []
  accepted : Int := 0
  rejected : Int := 0
  deriving DecidableEq

/-- The counts of an analysis as they stand in a report. -/
def ReportStats.ofStats (s : Stats) : ReportStats where
  instructions := s.instructions
  payloads := s.payloads
  branchTargets := s.branchTargets
  inTryUnits := s.inTryUnits
  gcPoints := s.gcPoints

/-- An entry of a listing as it stands in a report. -/
def ReportInstruction.ofInfo (i : InstructionInfo) : ReportInstruction where
  offset := i.offset
  width := i.width
  name := i.name
  payload := i.payload
  inTry := i.inTry
  branchTarget := i.branchTarget
  gcPoint := i.gcPoint

/-- The report on all methods. -/
def Report.ofMethods (methods : List MethodReport) : Report where
  methods := methods.map some
  accepted := methods.countP (·.accepted)
  rejected := methods.countP (!·.accepted)

/-! ## Writing -/

open Json.Value (textField flagField listField)

/-- The JSON form of the counts. -/
def ReportStats.toJson (s : ReportStats) : Json.Value :=
  .object [("instructions", .int s.instructions), ("payloads", .int s.payloads),
    ("branch_targets", .int s.branchTargets), ("in_try_units", .int s.inTryUnits),
    ("gc_points", .int s.gcPoints)]

/-- The JSON form of an instruction. -/
def ReportInstruction.toJson (i : ReportInstruction) : Json.Value :=
  .object ([("offset", .int i.offset), ("width", .int i.width), ("name", .text i.name)]
    ++ flagField "payload" i.payload ++ flagField "in_try" i.inTry
    ++ flagField "branch_target" i.branchTarget ++ flagField "gc_point" i.gcPoint)

/-- The JSON form of a handler. -/
def CatchHandler.toJson (h : CatchHandler) : Json.Value :=
  .object [("type_idx", .int h.typeIdx.toNat), ("addr", .int h.addr.toNat)]

/-- The JSON form of a try block. -/
def TryBlock.toJson (t : TryBlock) : Json.Value :=
  .object [("start_addr", .int t.start.toNat), ("insn_count", .int t.count.toNat),
    ("handlers", .array (t.handlers.map CatchHandler.toJson))]

/-- The JSON form of a method's report. -/
def MethodReport.toJson (r : MethodReport) : Json.Value :=
  .object ([("class", .text r.className), ("method", .text r.method), ("proto", .text r.proto),
      ("hash", .text r.hash.text), ("accepted", .bool r.accepted)]
    ++ flagField "cached" r.cached
    ++ textField "code" r.code ++ textField "category" r.category
    ++ textField "message" r.message
    ++ [("insns", .int r.insns), ("new_instances", .int r.newInstances)]
    ++ (r.stats.map fun s => ("stats", s.toJson)).toList
    ++ listField "branch_targets" r.targets .int
    ++ listField "instructions" r.instructions ReportInstruction.toJson
    ++ listField "tries" r.tries TryBlock.toJson)

/-- The JSON form of a report. -/
def Report.toJson (r : Report) : Json.Value :=
  .object [("methods", .array (r.methods.map fun m => (m.map MethodReport.toJson).getD .null)),
    ("accepted", .int r.accepted), ("rejected", .int r.rejected)]

/-! ## Reading -/

open Json.Decoder (field record)

/-- Reads an entry of a manifest. -/
def ManifestEntry.decoder : Json.Decoder ManifestEntry :=
  record (ManifestEntry.mk <$> field "class" .text <*> field "method" .text
    <*> field "proto" .text <*> field "code" .text)

/-- Reads a manifest. -/
def ManifestEntry.listDecoder : Json.Decoder (List ManifestEntry) := .list decoder

/-- Reads counts. -/
def ReportStats.decoder : Json.Decoder ReportStats :=
  record (ReportStats.mk <$> field "instructions" .int64 <*> field "payloads" .int64
    <*> field "branch_targets" .int64 <*> field "in_try_units" .int64
    <*> field "gc_points" .int64)

/-- Reads an instruction. -/
def ReportInstruction.decoder : Json.Decoder ReportInstruction :=
  record (ReportInstruction.mk <$> field "offset" .int64 <*> field "width" .int64
    <*> field "name" .text <*> field "payload" .bool <*> field "in_try" .bool
    <*> field "branch_target" .bool <*> field "gc_point" .bool)

/-- Reads a handler. -/
def CatchHandler.decoder : Json.Decoder CatchHandler :=
  record (CatchHandler.mk <$> field "type_idx" .uint32 <*> field "addr" .uint32)

/-- Reads a try block. -/
def TryBlock.decoder : Json.Decoder TryBlock :=
  record (TryBlock.mk <$> field "start_addr" .uint32 <*> field "insn_count" .uint16
    <*> field "handlers" (.list CatchHandler.decoder))

/-- Reads a method's report. -/
def MethodReport.decoder : Json.Decoder MethodReport :=
  record (MethodReport.mk <$> field "class" .text <*> field "method" .text
    <*> field "proto" .text <*> field "hash" .digest <*> field "accepted" .bool
    <*> field "cached" .bool <*> field "code" .text <*> field "category" .text
    <*> field "message" .text <*> field "insns" .int64 <*> field "new_instances" .int64
    <*> field "stats" (.optional ReportStats.decoder)
    <*> field "branch_targets" (.list .int64)
    <*> field "instructions" (.list ReportInstruction.decoder)
    <*> field "tries" (.list TryBlock.decoder))

/-- Reads a report. -/
def Report.decoder : Json.Decoder Report :=
  record (Report.mk <$> field "methods" (.list (.optional MethodReport.decoder))
    <*> field "accepted" .int64 <*> field "rejected" .int64)

end Dalvik
