import Dalvik.Analysis

/-!
# Batches

Many methods are analysed independently, and the results come in the order of the methods. A run
can be cancelled: a method whose analysis has not started by then is refused. Which methods these
are depends on the schedule, so it is a parameter here.
-/

namespace Dalvik

open Log (Record)

/-- What became of one method of a batch. -/
inductive MethodOutcome where
  | analysed (v : Verification)
  | canceled

/-- A method of a batch and what became of it. -/
structure MethodResult where
  method : Method
  outcome : MethodOutcome

namespace MethodResult

/-- The words for a method that was refused because the run was cancelled. -/
def canceledText : String := "context canceled"

/-- The method was analysed and accepted. -/
def accepted (r : MethodResult) : Bool :=
  match r.outcome with
  | .analysed ⟨.ok _, _⟩ => true
  | _ => false

/-- The failure of a method that was not accepted; empty for one that was. -/
def failure (r : MethodResult) : Failure :=
  match r.outcome with
  | .analysed ⟨.ok _, _⟩ => .text ""
  | .analysed ⟨.error h, _⟩ => h.failure r.method
  | .canceled => .text canceledText

/-- What was logged about a method. -/
def records (r : MethodResult) : List Record :=
  match r.outcome with
  | .analysed v => v.records
  | .canceled => []

end MethodResult

namespace Batch

/-- A schedule, as far as results depend on it: the indices that cancellation kept from starting. -/
abbrev Refused := Nat → Bool

/-- The schedule of a run that nobody cancels. -/
def Refused.none : Refused := fun _ => false

/-- The result of the method with the given index. -/
def one (config : Config) (refused : Refused) (m : Method) (index : Nat) : MethodResult :=
  ⟨m, if refused index then .canceled else .analysed (preAnalyze config m)⟩

/-- The results of all methods, in their order. -/
def run (config : Config) (refused : Refused) (methods : List Method) : List MethodResult :=
  methods.mapIdx fun index m => one config refused m index

/-- The record at the end of a batch. -/
def doneRecord (results : List MethodResult) : Record :=
  ⟨Log.Level.debug, Log.scanModule, "batch done",
    [⟨"methods", .int results.length⟩,
      ⟨"rejected", .int (results.countP fun r => !r.accepted)⟩, ⟨"elapsed", .elapsed⟩]⟩

/-- What is logged in a batch whose methods are analysed one after the other. -/
def records (results : List MethodResult) : List Record :=
  results.flatMap MethodResult.records ++ [doneRecord results]

end Batch

end Dalvik
