import Dalvik.Pass

/-!
# Pre-analysis

The passes in order: widths, try blocks, the checks of all control transfers and tables, and, if
asked for, collection points. The first failure rejects the method. An accepted method comes with
its flag table, of which statistics, a listing and the branch targets are views.
-/

namespace Dalvik

open Log (Record)

/-- The settings of a run. -/
structure Config where
  /-- Marks collection points. -/
  gcPoints : Bool := true
  /-- Suppresses reports on class resolution. -/
  optimizing : Bool := false
  /-- The number of methods analysed at a time; a number below one stands for the number of
  processors. -/
  workers : Int := 1
  deriving DecidableEq, Repr

/-- The number of methods analysed at a time on a machine with this many processors. -/
def Config.slots (c : Config) (processors : Nat := 1) : Nat :=
  if c.workers < 1 then processors else c.workers.toNat

/-- What the pre-analysis of an accepted method finds. -/
structure Analysis where
  method : Method
  table : FlagTable
  newInstances : Nat
  deriving DecidableEq, Repr

/-- All passes over `m`; the result is the number of allocations. -/
def Pass.all (m : Method) (gcPoints : Bool) : Pass Nat := do
  let newInstances ← Pass.widths m
  Pass.tries m
  -- the entry of the method counts as a branch target
  ofTable fun t => Check.markAll t .branchTarget [0]
  each m (instruction m)
  if gcPoints then
    each m (gcPoint m)
  note ⟨Log.Level.debug, Log.scanModule, "pre-analysis done",
    [⟨"method", .text m.text⟩, ⟨"units", .int m.code.size⟩,
      ⟨"newInstances", .int newInstances⟩]⟩
  return newInstances

/-- How a pre-analysis ends. -/
structure Verification where
  result : Check Analysis
  records : List Record

/-- The pre-analysis of `m`. -/
def preAnalyze (config : Config) (m : Method) : Verification :=
  match (Pass.all m config.gcPoints).run (.blank m.code.size) with
  | ⟨.error h, _, records⟩ => ⟨.error h, records⟩
  | ⟨.ok newInstances, table, records⟩ => ⟨.ok ⟨m, table, newInstances⟩, records⟩

/-! ## Views of an accepted method -/

/-- Counts over a flag table. The distribution lists opcodes in ascending order. -/
structure Stats where
  instructions : Nat
  payloads : Nat
  branchTargets : Nat
  inTryUnits : Nat
  gcPoints : Nat
  distribution : List (Opcode × Nat)
  deriving DecidableEq, Repr

/-- One entry of the listing. -/
structure InstructionInfo where
  offset : Nat
  width : Nat
  opcode : Opcode
  name : String
  payload : Bool
  inTry : Bool
  branchTarget : Bool
  gcPoint : Bool
  deriving DecidableEq, Repr

namespace Analysis

/-- The flag words, each with its offset and code unit. -/
def units (a : Analysis) : List (Nat × FlagWord × UInt16) :=
  (a.table.words.toList.zip a.method.code.toList).zipIdx.map fun ((w, u), i) => (i, w, u)

/-- The units at which instructions start. -/
def starts (a : Analysis) : List (Nat × FlagWord × UInt16) :=
  a.units.filter fun (_, w, _) => w.isOpcode

/-- The name of the table that a payload unit starts. -/
def payloadName (kind : PayloadKind) : String := kind.word ++ "-payload"

/-- The entry of the listing for an instruction start. -/
def entry : Nat × FlagWord × UInt16 → InstructionInfo
  | (offset, w, u) =>
    let opcode := Opcode.ofUnit u
    let kind := PayloadKind.ofUnit? u
    { offset, opcode
      width := w.width
      name := (kind.map payloadName).getD opcode.name
      payload := kind.isSome
      inTry := w.has .inTry
      branchTarget := w.has .branchTarget
      gcPoint := w.has .gcPoint }

/-- Every instruction start in order of address. -/
def instructions (a : Analysis) : List InstructionInfo := a.starts.map entry

/-- The addresses that are marked as branch targets. -/
def branchTargets (a : Analysis) : List Nat :=
  (a.units.filter fun (_, w, _) => w.has .branchTarget).map (·.1)

/-- How often each opcode starts an instruction that is no payload table. -/
def distribution (a : Analysis) : List (Opcode × Nat) :=
  let counts := a.starts.foldl (fun (acc : Array Nat) (_, _, u) =>
    if isPayloadUnit u then acc else acc.modify (Opcode.ofUnit u).value.toNat (· + 1))
    (Array.replicate 256 0)
  (counts.toList.zipIdx.filter fun (n, _) => n ≠ 0).map fun (n, i) => (⟨i.toUInt8⟩, n)

/-- The statistics of an accepted method. -/
def stats (a : Analysis) : Stats where
  instructions := a.starts.countP fun (_, _, u) => !isPayloadUnit u
  payloads := a.starts.countP fun (_, _, u) => isPayloadUnit u
  branchTargets := a.starts.countP fun (_, w, _) => w.has .branchTarget
  inTryUnits := a.units.countP fun (_, w, _) => w.has .inTry
  gcPoints := a.starts.countP fun (_, w, _) => w.has .gcPoint
  distribution := a.distribution

end Analysis

/-! ## Spans -/

/-- A traced interval of work: its attributes, and for a failure the status and the exception. -/
structure Span where
  name : String
  failed : Bool
  description : String
  attributes : List Log.Field
  events : List (String × List Log.Field)
  deriving DecidableEq, Repr

/-- The span of a pre-analysis of `m` that ends this way; none for an outcome without verdict. -/
def Verification.span? (m : Method) (v : Verification) : Option Span :=
  let base : List Log.Field :=
    [⟨"method", .text m.text⟩, ⟨"insns", .int m.code.size⟩, ⟨"tries", .int m.tries.length⟩]
  match v.result with
  | .ok a =>
    some ⟨"verify.PreAnalyze", false, "", base ++ [⟨"new_instances", .int a.newInstances⟩], []⟩
  | .error h =>
    match h.rejection? m with
    | none => none
    | some r =>
      some ⟨"verify.PreAnalyze", true, (Failure.rejection r).codeWithName, base,
        [("exception", [⟨"exception.type", .text "*verify.Error"⟩,
          ⟨"exception.message", .text r.text⟩])]⟩

end Dalvik
