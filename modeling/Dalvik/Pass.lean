import Dalvik.Check.Branch
import Dalvik.Check.Tables
import Dalvik.Check.Tries
import Dalvik.Check.Widths
import Dalvik.Diagnosis

/-!
# Passes

A pass runs checks over a flag table: it reads and writes the table, can halt, and logs. When a
check halts with a cause, the failure is logged there and nowhere else. The loops run a pass at
every instruction and collect what it logs. `Step` lists the single passes, so that any sequence of
them can be run on one table.
-/

namespace Dalvik

open Log (Record)

/-- What a pass leaves behind. -/
structure Outcome (α : Type) where
  result : Check α
  table : FlagTable
  records : List Record

/-- A computation on a flag table that can halt and logs. -/
def Pass (α : Type) : Type := FlagTable → Outcome α

namespace Pass

/-- Runs a pass on a table. -/
def run {α : Type} (p : Pass α) (t : FlagTable) : Outcome α := p t

/-- The pass that does nothing. -/
protected def pure {α : Type} (a : α) : Pass α := fun t => ⟨.ok a, t, []⟩

/-- The second pass runs on what the first one left, unless that halted. -/
protected def bind {α β : Type} (p : Pass α) (f : α → Pass β) : Pass β := fun t =>
  match p t with
  | ⟨.error h, t', records⟩ => ⟨.error h, t', records⟩
  | ⟨.ok a, t', records⟩ =>
    match f a t' with
    | ⟨result, t'', more⟩ => ⟨result, t'', records ++ more⟩

instance : Monad Pass where
  pure := Pass.pure
  bind := Pass.bind

/-- Logs a record. -/
def note (r : Record) : Pass Unit := fun t => ⟨.ok (), t, [r]⟩

/-- What is logged when a check of `m` ends this way. -/
def haltRecords {α : Type} (m : Method) : Check α → List Record
  | .ok _ => []
  | .error h =>
    match h.rejection? m with
    | some r => Diagnosis.failure (some m) (.rejection r)
    | none => []

/-- A check of `m` that writes to the table; a failure is logged. -/
def ofCheck {α : Type} (m : Method) (check : FlagTable → Check α × FlagTable) : Pass α := fun t =>
  match check t with
  | (result, t') => ⟨result, t', haltRecords m result⟩

/-- An operation on the table that does not log, as it has no cause to refuse anything. -/
def ofTable {α : Type} (op : FlagTable → Check α × FlagTable) : Pass α := fun t =>
  match op t with
  | (result, t') => ⟨result, t', []⟩

/-- A query, which neither writes to the table nor logs. -/
def ofQuery {α : Type} (query : FlagTable → Check α) : Pass α := fun t => ⟨query t, t, []⟩

/-! ## The single passes -/

/-- Records the width of every instruction. -/
def widths (m : Method) : Pass Nat := do
  let count ← ofCheck m (Check.widths m)
  note ⟨Log.Level.trace, Log.scanModule, "widths computed",
    [⟨"method", .text m.text⟩, ⟨"units", .int m.code.size⟩, ⟨"newInstances", .int count⟩]⟩
  return count

/-- Marks try blocks and checks handlers. -/
def tries (m : Method) : Pass Unit := do
  ofCheck m (Check.tries m)
  note ⟨Log.Level.trace, Log.scanModule, "try flags set",
    [⟨"method", .text m.text⟩, ⟨"tries", .int m.tries.length⟩]⟩

/-- Checks a branch and marks its target. -/
def branch (m : Method) (off : Int) (selfOkay : Bool) : Pass Unit :=
  ofCheck m (Check.branch m off selfOkay)

/-- Checks a switch and marks its targets. -/
def switch (m : Method) (off : Int) : Pass Unit := ofCheck m (Check.switch m off)

/-- Checks the table of a fill-array instruction. -/
def arrayData (m : Method) (off : Int) : Pass Unit :=
  ofCheck m fun t => (Check.arrayData m t off, t)

/-- The target of a branch as it is encoded. -/
def encodedTarget (m : Method) (off : Int) : Pass (Int × Bool) :=
  ofQuery fun t => Check.encodedTarget m t off

end Pass

/-! ## Walks -/

/-- Marks the instruction at `off` as a collection point if it is a branch target or can leave
the straight line. -/
def Check.gcPoint (m : Method) (off : Nat) (t : FlagTable) : Check Unit × FlagTable :=
  match word t off with
  | .error h => (.error h, t)
  | .ok w =>
    if w.has .branchTarget then (.ok (), t.mark .gcPoint off)
    else
      match unit m.code off with
      | .error h => (.error h, t)
      | .ok u =>
        if !isPayloadUnit u && (Opcode.ofUnit u).flow.leavesLine then
          (.ok (), t.mark .gcPoint off)
        else (.ok (), t)

namespace Pass

/-- Checks the instruction at `off` if it transfers control or refers to a table. Only `goto/32`
may branch to itself. -/
def instruction (m : Method) (off : Nat) : Pass Unit := do
  let u ← ofQuery fun _ => Check.unit m.code off
  let op := Opcode.ofUnit u
  if isPayloadUnit u then return ()
  else if op.isBranch then branch m off (op == .goto32)
  else if op.isSwitch then switch m off
  else if op = .fillArrayData then arrayData m off
  else return ()

/-- Marks the instruction at `off` if it is a collection point. -/
def gcPoint (m : Method) (off : Nat) : Pass Unit := ofTable (Check.gcPoint m off)

/-- Runs `body` at every instruction from `off` on and below `limit`, following the widths in
the table. The records in `logged` came before. -/
def walk (limit : Nat) (body : Nat → Pass Unit) (off : Nat) (logged : List Record) : Pass Unit :=
  fun t =>
    if off < limit then
      match body off t with
      | ⟨.error h, t', records⟩ => ⟨.error h, t', logged ++ records⟩
      | ⟨.ok (), t', records⟩ =>
        match t'.words[off]? with
        | none => ⟨.error .outOfRange, t', logged ++ records⟩
        | some w =>
          if 0 < w.width then walk limit body (off + w.width) (logged ++ records) t'
          else ⟨.error .stalled, t', logged ++ records⟩
    else ⟨.ok (), t, logged⟩
termination_by limit - off

/-- Runs `body` at every instruction of `m`. -/
def each (m : Method) (body : Nat → Pass Unit) : Pass Unit := walk m.code.size body 0 []

end Pass

/-! ## Sequences of passes -/

/-- A single pass with its arguments. -/
inductive Step where
  | widths
  | tries
  | branch (off : Int) (selfOkay : Bool)
  | switch (off : Int)
  | arrayData (off : Int)
  | encodedTarget (off : Int)
  deriving DecidableEq, Repr

/-- What a step answers. -/
inductive Answer where
  | newInstances (count : Nat)
  | done
  | target (address : Int) (conditional : Bool)
  deriving DecidableEq, Repr

/-- The pass of a step. -/
def Step.pass (m : Method) : Step → Pass Answer
  | widths => do return .newInstances (← Pass.widths m)
  | tries => do Pass.tries m; return .done
  | branch off selfOkay => do Pass.branch m off selfOkay; return .done
  | switch off => do Pass.switch m off; return .done
  | arrayData off => do Pass.arrayData m off; return .done
  | encodedTarget off => do
    let (address, conditional) ← Pass.encodedTarget m off
    return .target address conditional

end Dalvik
