import Dalvik.Log.Record
import Dalvik.Rejection

/-!
# Diagnoses

What is logged about failures. A failure of a known method gives two warnings, a failure of an
unknown one gives the first of them. A class that cannot be resolved gives an error, unless the
run is an optimizing one, in which that is expected.
-/

namespace Dalvik.Diagnosis

open Log (Record Field)

/-- The fields that name a method. -/
def methodFields (m : Method) : List Field :=
  [⟨"class", .text (dotted m.className)⟩, ⟨"method", .text m.name⟩, ⟨"proto", .text m.proto⟩]

/-- The fields that describe a failure: its code and text, the offset if it has one, and the
opcode if it is known. -/
def failureFields (f : Failure) : List Field :=
  let offset := do (← f.rejection?).offset
  let opcode := do (← f.rejection?).opcode
  [⟨"code", .text f.code⟩, ⟨"err", .text f.message⟩]
    ++ (offset.map fun off => (⟨"offset", .int off⟩ : Field)).toList
    ++ (opcode.map fun op => (⟨"opcode", .text op.name⟩ : Field)).toList

/-- The warning that carries the particulars of a failure. -/
def failureRecord (fields : List Field) : Record :=
  ⟨Log.Level.warn, Log.verifyModule, "VFY: verification failed", fields⟩

/-- The warning that names the rejected method. -/
def rejectedRecord (m : Method) : Record :=
  ⟨Log.Level.warn, Log.verifyModule,
    "VFY:  rejected " ++ m.className ++ "." ++ m.name ++ " " ++ m.proto, []⟩

/-- What is logged about a failure of `method`; a method that the caller does not know is taken
from the rejection inside the failure. -/
def failure (method : Option Method) (f : Failure) : List Record :=
  match method <|> (do (← f.rejection?).method) with
  | none => [failureRecord (failureFields f)]
  | some m => [failureRecord (failureFields f ++ methodFields m), rejectedRecord m]

/-- What is logged about an error value that may be absent. -/
def failure? (method : Option Method) : Option Failure → List Record
  | none => []
  | some f => failure method f

/-- What is logged about a class that `method` refers to and that cannot be found. -/
def unresolved (optimizing : Bool) (descriptor : String) (method : Option Method) : List Record :=
  if optimizing then []
  else
    let missing : Field := ⟨"missing", .text (dotted descriptor)⟩
    let code : Field := ⟨"code", .text (Failure.kind .unresolvedClass).code⟩
    let owner := (method.map methodFields).getD []
    [⟨Log.Level.error, Log.verifyModule, "VFY: unable to find class referenced in signature",
      missing :: owner ++ [code]⟩]

end Dalvik.Diagnosis
