import Dalvik.CodeItem
import Dalvik.Opcode
import Dalvik.Text.Number

/-!
# Rejections

A cause says in full why a check fails; it determines the fault kind and the wording. A
rejection places a cause in a method. Failures are what callers pass around: a rejection, a bare
fault kind or some text, under any number of labels. The parts of a failure are always read from
the text at the bottom of it, so labels and messages cannot change its class.
-/

namespace Dalvik

/-! ## Causes -/

/-- The query that asked for an instruction at an offset where none starts. -/
inductive Query where
  | branchCheck
  | branchQuery
  | switchCheck
  | arrayCheck
  deriving DecidableEq, Repr

/-- The words for a query. -/
def Query.text : Query → String
  | branchCheck => "branch check"
  | branchQuery => "branch query"
  | switchCheck => "switch check"
  | arrayCheck => "array data check"

/-- Why a check fails. Offsets are absolute, `rel` is a decoded relative offset. -/
inductive Cause where
  | noCode
  | tableSize (entries units : Nat)
  | unknownOpcode (op : Opcode)
  | payload (fault : PayloadFault)
  | instructionEnd (op : Opcode) (needed remaining : Nat)
  | width (units : Nat)
  | noInstruction (query : Query) (off : Int)
  | tryBounds (index start stop units : Nat)
  | tryStart (start : Nat)
  | tryEnd (stop : Nat)
  | handlerAddress (addr : Nat)
  | notBranch
  | selfBranch
  | branchOverflow (off rel : Int)
  | branchTarget (rel target : Int)
  | notSwitch
  | switchCut
  | switchStart (off rel : Int) (units : Nat)
  | switchUnaligned (off rel : Int)
  | switchSignature (found wanted : UInt16)
  | switchEnd (off rel : Int) (stop units : Nat)
  | switchTable (start extent recorded : Nat)
  | switchKeys (last this : Int)
  | switchOverflow (off rel : Int)
  | switchTarget (rel target off : Int) (index : Nat)
  | notFillArray
  | arrayCut
  | arrayStart (off rel : Int) (units : Nat)
  | arrayUnaligned (off rel : Int)
  | arraySignature (found : UInt16)
  | arrayEnd (off rel : Int) (stop units : Nat)
  | arrayTable (start extent recorded : Nat)
  deriving DecidableEq, Repr

namespace Cause

/-- The fault kind of a cause. -/
def kind : Cause → FaultKind
  | noCode => .emptyCode
  | tableSize .. => .flagsSize
  | unknownOpcode _ => .unknownOpcode
  | payload fault => fault.kind
  | instructionEnd .. => .codeEndMismatch
  | width _ => .insaneWidth
  | noInstruction .. => .offsetOutOfRange
  | tryBounds .. => .tryBounds
  | tryStart _ => .tryStart
  | tryEnd _ => .tryEnd
  | handlerAddress _ => .handlerAddress
  | notBranch => .notBranch
  | selfBranch => .selfBranch
  | branchOverflow .. => .branchOverflow
  | branchTarget .. => .branchTarget
  | notSwitch => .notSwitch
  | switchCut => .codeEndMismatch
  | switchStart .. => .switchStart
  | switchUnaligned .. => .switchUnaligned
  | switchSignature .. => .switchSignature
  | switchEnd .. => .switchEnd
  | switchTable .. => .switchTable
  | switchKeys .. => .switchKeys
  | switchOverflow .. => .switchOverflow
  | switchTarget .. => .switchTarget
  | notFillArray => .notFillArray
  | arrayCut => .codeEndMismatch
  | arrayStart .. => .arrayStart
  | arrayUnaligned .. => .arrayUnaligned
  | arraySignature _ => .arraySignature
  | arrayEnd .. => .arrayEnd
  | arrayTable .. => .arrayTable

/-- The wording of a cause, without the mark in front of every message. -/
def wording : Cause → String
  | noCode => "method has no code"
  | tableSize entries units => s!"flag table has {entries} entries for {units} code units"
  | unknownOpcode op => "invalid opcode 0x" ++ Text.hexField 2 op.value.toNat
  | payload fault => fault.message
  | instructionEnd op needed remaining =>
    op.name ++ s!" needs {needed} units, only {remaining} remain"
  | width units => s!"insane width {units}"
  | noInstruction query off => query.text ++ s!" at non-instruction offset {off}"
  | tryBounds index start stop units =>
    s!"bad exception entry {index}: startAddr={start} endAddr={stop} (size={units})"
  | tryStart start => s!"'try' block starts inside an instruction ({start})"
  | tryEnd stop => s!"'try' block ends inside an instruction ({stop})"
  | handlerAddress addr => s!"exception handler starts at bad address ({addr})"
  | notBranch => "not a branch instruction"
  | selfBranch => "branch offset of zero not allowed"
  | branchOverflow off rel => "branch target overflow 0x" ++ Text.hex off ++ s!" +{rel}"
  | branchTarget rel target =>
    s!"invalid branch target {rel} (-> 0x" ++ Text.hex target ++ ")"
  | notSwitch => "not a switch instruction"
  | switchCut => "truncated switch instruction"
  | switchStart off rel units =>
    s!"invalid switch start: at {off}, switch offset {rel}, count {units}"
  | switchUnaligned off rel => s!"unaligned switch table: at {off}, switch offset {rel}"
  | switchSignature found wanted =>
    "wrong signature for switch table (0x" ++ Text.hexField 4 found.toNat ++ ", wanted 0x"
      ++ Text.hexField 4 wanted.toNat ++ ")"
  | switchEnd off rel stop units =>
    s!"invalid switch end: at {off}, switch offset {rel}, end {stop}, count {units}"
  | switchTable start extent recorded =>
    s!"switch table at {start} spans {extent} units, scanner recorded {recorded}"
  | switchKeys last this => s!"invalid sparse switch: last key={last}, this={this}"
  | switchOverflow off rel => "switch target overflow 0x" ++ Text.hex off ++ s!" +{rel}"
  | switchTarget rel target off index =>
    s!"invalid switch target {rel} (-> 0x" ++ Text.hex target ++ ") at 0x" ++ Text.hex off
      ++ s!"[{index}]"
  | notFillArray => "not a fill-array-data instruction"
  | arrayCut => "truncated fill-array-data instruction"
  | arrayStart off rel units =>
    s!"invalid array data start: at {off}, data offset {rel}, count {units}"
  | arrayUnaligned off rel => s!"unaligned array data table: at {off}, data offset {rel}"
  | arraySignature found =>
    "wrong signature for array data (0x" ++ Text.hexField 4 found.toNat ++ ")"
  | arrayEnd off rel stop units =>
    s!"invalid array data end: at {off}, data offset {rel}, end {stop}, count {units}"
  | arrayTable start extent recorded =>
    s!"array data at {start} spans {extent} units, scanner recorded {recorded}"

/-- The message of a cause. -/
def message (c : Cause) : String := "VFY: " ++ c.wording

end Cause

/-! ## Rejections -/

/-- A verification failure: its kind, the message, the method if it is known, the offset if the
failure belongs to one, and the opcode there if the offset lies inside the code. -/
structure Rejection where
  kind : FaultKind
  message : String
  method : Option Method
  offset : Option Int
  opcode : Option Opcode
  deriving DecidableEq, Repr

namespace Rejection

/-- The opcode at an offset of any sign, if the offset lies inside the code. -/
def opcodeAt? (code : Code) : Int → Option Opcode
  | .ofNat off => (code[off]?).map Opcode.ofUnit
  | .negSucc _ => none

/-- A rejection with the given message; the opcode is looked up in the method. -/
def place (method : Option Method) (offset : Option Int) (kind : FaultKind) (message : String) :
    Rejection where
  kind := kind
  message := message
  method := method
  offset := offset
  opcode := do opcodeAt? (← method).code (← offset)

/-- The rejection of `m` for `cause`, at an offset if there is one. -/
def of (m : Method) (offset : Option Int) (cause : Cause) : Rejection :=
  place (some m) offset cause.kind cause.message

/-- The message, the place in the code and the method. -/
def text (r : Rejection) : String :=
  let site :=
    match r.offset, r.opcode with
    | none, _ => ""
    | some off, none => " at 0x" ++ Text.hexField 4 off
    | some off, some op => " at 0x" ++ Text.hexField 4 off ++ " (" ++ op.name ++ ")"
  let owner :=
    match r.method with
    | none => ""
    | some m => " in " ++ m.text
  r.message ++ site ++ owner

end Rejection

/-! ## Failures -/

/-- An error value: a rejection, a bare kind or a text, possibly under labels. -/
inductive Failure where
  | rejection (r : Rejection)
  | kind (k : FaultKind)
  | text (t : String)
  | labelled (label : String) (inner : Failure)
  deriving DecidableEq, Repr

namespace Failure

/-- The whole text of a failure. -/
def message : Failure → String
  | rejection r => r.text
  | kind k => k.text
  | text t => t
  | labelled label inner => label ++ ": " ++ inner.message

/-- The text at the bottom of a failure; for a rejection that of its kind. -/
def rootText : Failure → String
  | rejection r => r.kind.text
  | kind k => k.text
  | text t => t
  | labelled _ inner => inner.rootText

/-- The rejection inside a failure. -/
def rejection? : Failure → Option Rejection
  | rejection r => some r
  | labelled _ inner => inner.rejection?
  | _ => none

/-- The failure under labels, the first one innermost. -/
def withLabels (f : Failure) (labels : List String) : Failure :=
  labels.foldl (fun inner label => labelled label inner) f

/-- The code of a failure. -/
def code (f : Failure) : String := CodedText.code f.rootText

/-- The name of a failure. -/
def name (f : Failure) : String := CodedText.name f.rootText

/-- Code and name of a failure. -/
def codeWithName (f : Failure) : String := CodedText.codeWithName f.rootText

/-- The description of a failure. -/
def description (f : Failure) : String := CodedText.description f.rootText

/-- The category of a failure. -/
def category (f : Failure) : Category := Category.ofCode f.code

/-- What can be said of an error value, also of the absent one. -/
structure Summary where
  code : String
  name : String
  codeWithName : String
  description : String
  category : Category
  message : Option String
  deriving DecidableEq, Repr

/-- The summary of an error value; without an error only the name says something. -/
def summary : Option Failure → Summary
  | some f => ⟨f.code, f.name, f.codeWithName, f.description, f.category, some f.message⟩
  | none => ⟨"", "No Error", "", "", Category.ofCode "", none⟩

/-- The failure that bytes which are not a code item give. -/
def ofCodeItem (fault : CodeItem.Fault) : Failure :=
  (text fault.toClass.text).withLabels fault.details.reverse

end Failure

end Dalvik
