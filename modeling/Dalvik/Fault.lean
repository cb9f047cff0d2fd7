import Dalvik.Text.Blank

/-!
# Fault kinds

Every rejection has a kind. Its text has the form `code|name: description`; the letter of the
code names the family, and the family the category of the failure. The parts are read back from
such a text by `CodedText`, which also gives an answer for texts of any other form.
-/

namespace Dalvik

/-! ## Texts that carry a code -/

namespace CodedText

/-- The parts of `s` before and after the first `sep`, if there is one. -/
def cut? (sep : Char) : List Char → Option (List Char × List Char)
  | [] => none
  | c :: rest =>
    if c = sep then some ([], rest)
    else (cut? sep rest).map fun (a, b) => (c :: a, b)

/-- The trimmed part before the first bar, empty if there is no bar. -/
def code (text : String) : String :=
  match cut? '|' text.toList with
  | some (before, _) => String.ofList (Text.trimChars before)
  | none => ""

/-- The trimmed part between the first bar and the next colon. A text that lacks a bar or a
colon is its own name. -/
def name (text : String) : String :=
  if text.toList.contains ':' then
    match cut? '|' text.toList with
    | some (_, after) =>
      match cut? ':' after with
      | some (mid, _) => String.ofList (Text.trimChars mid)
      | none => String.ofList (Text.trimChars after)
    | none => text
  else text

/-- The trimmed part after the first colon. -/
def description (text : String) : String :=
  match cut? ':' text.toList with
  | some (_, after) => String.ofList (Text.trimChars after)
  | none => "DESC NOT SET"

/-- Code and name joined by an underscore, empty if either part is. -/
def codeWithName (text : String) : String :=
  if (code text).isEmpty || (name text).isEmpty then "" else code text ++ "_" ++ name text

end CodedText

/-! ## Categories -/

/-- The taxonomy of failures. -/
inductive Category where
  | malformedStream
  | controlTransfer
  | exceptionRegion
  | resolution
  | unknown
  deriving DecidableEq, Repr

namespace Category

/-- The words for a category. -/
def text : Category → String
  | malformedStream => "malformed stream"
  | controlTransfer => "invalid control transfer"
  | exceptionRegion => "invalid exception region"
  | resolution => "resolution failure"
  | unknown => "unknown"

/-- The category of a code, told by its first character. -/
def ofCode (code : String) : Category :=
  match code.toList with
  | 'M' :: _ => malformedStream
  | 'B' :: _ | 'S' :: _ | 'A' :: _ => controlTransfer
  | 'T' :: _ => exceptionRegion
  | 'R' :: _ => resolution
  | _ => unknown

end Category

/-! ## Kinds -/

/-- The reasons for which a method can be rejected. -/
inductive FaultKind where
  | emptyCode | flagsSize | unknownOpcode | payloadOverrun | codeEndMismatch | insaneWidth
  | offsetOutOfRange
  | notBranch | selfBranch | branchOverflow | branchTarget
  | notSwitch | switchStart | switchUnaligned | switchSignature | switchEnd | switchKeys
  | switchTarget | switchTable | switchOverflow
  | notFillArray | arrayStart | arrayUnaligned | arraySignature | arrayEnd | arrayTable
  | tryBounds | tryStart | tryEnd | handlerAddress
  | unresolvedClass
  deriving DecidableEq, Repr

namespace FaultKind

/-- All kinds, family by family. -/
def all : List FaultKind :=
  [emptyCode, flagsSize, unknownOpcode, payloadOverrun, codeEndMismatch, insaneWidth,
    offsetOutOfRange, notBranch, selfBranch, branchOverflow, branchTarget, notSwitch, switchStart,
    switchUnaligned, switchSignature, switchEnd, switchKeys, switchTarget, switchTable,
    switchOverflow, notFillArray, arrayStart, arrayUnaligned, arraySignature, arrayEnd, arrayTable,
    tryBounds, tryStart, tryEnd, handlerAddress, unresolvedClass]

/-- The short code of a kind. -/
def code : FaultKind → String
  | emptyCode => "M1" | flagsSize => "M2" | unknownOpcode => "M3" | payloadOverrun => "M4"
  | codeEndMismatch => "M5" | insaneWidth => "M6" | offsetOutOfRange => "M7"
  | notBranch => "B1" | selfBranch => "B2" | branchOverflow => "B3" | branchTarget => "B4"
  | notSwitch => "S1" | switchStart => "S2" | switchUnaligned => "S3" | switchSignature => "S4"
  | switchEnd => "S5" | switchKeys => "S6" | switchTarget => "S7" | switchTable => "S8"
  | switchOverflow => "S9"
  | notFillArray => "A1" | arrayStart => "A2" | arrayUnaligned => "A3" | arraySignature => "A4"
  | arrayEnd => "A5" | arrayTable => "A6"
  | tryBounds => "T1" | tryStart => "T2" | tryEnd => "T3" | handlerAddress => "T4"
  | unresolvedClass => "R1"

/-- The name of a kind. -/
def name : FaultKind → String
  | emptyCode => "EmptyCode" | flagsSize => "FlagsSize" | unknownOpcode => "UnknownOpcode"
  | payloadOverrun => "PayloadOverrun" | codeEndMismatch => "CodeEndMismatch"
  | insaneWidth => "InsaneWidth" | offsetOutOfRange => "OffsetOutOfRange"
  | notBranch => "NotBranch" | selfBranch => "SelfBranch" | branchOverflow => "TargetOverflow"
  | branchTarget => "InvalidTarget"
  | notSwitch => "NotSwitch" | switchStart => "InvalidStart" | switchUnaligned => "Unaligned"
  | switchSignature => "BadSignature" | switchEnd => "InvalidEnd" | switchKeys => "KeysNotSorted"
  | switchTarget => "InvalidTarget" | switchTable => "TableMismatch"
  | switchOverflow => "TargetOverflow"
  | notFillArray => "NotFillArray" | arrayStart => "InvalidStart" | arrayUnaligned => "Unaligned"
  | arraySignature => "BadSignature" | arrayEnd => "InvalidEnd" | arrayTable => "TableMismatch"
  | tryBounds => "BadBounds" | tryStart => "StartMisaligned" | tryEnd => "EndMisaligned"
  | handlerAddress => "BadHandler"
  | unresolvedClass => "UnresolvedClass"

/-- One sentence on a kind. -/
def description : FaultKind → String
  | emptyCode => "Method has no instructions."
  | flagsSize => "Instruction flag table does not match the code length."
  | unknownOpcode => "Instruction uses an unused or invalid opcode value."
  | payloadOverrun => "Variable-width payload runs past the end of the code."
  | codeEndMismatch => "Instruction widths do not end exactly at the code length."
  | insaneWidth => "Instruction width does not fit the width field."
  | offsetOutOfRange => "Offset is outside the code or not an instruction start."
  | notBranch => "Instruction is not a single-target branch."
  | selfBranch => "Branch offset of zero is not allowed here."
  | branchOverflow => "Branch target overflows the offset range."
  | branchTarget => "Branch target is out of range or not an instruction start."
  | notSwitch => "Instruction is not a packed or sparse switch."
  | switchStart => "Switch table starts outside the code."
  | switchUnaligned => "Switch table is not 32-bit aligned."
  | switchSignature => "Switch table has the wrong signature."
  | switchEnd => "Switch table ends outside the code."
  | switchKeys => "Sparse switch keys are not strictly ascending."
  | switchTarget => "Switch target is out of range or not an instruction start."
  | switchTable => "Switch table extent disagrees with the scanned instruction widths."
  | switchOverflow => "Switch target overflows the offset range."
  | notFillArray => "Instruction is not fill-array-data."
  | arrayStart => "Array data table starts outside the code."
  | arrayUnaligned => "Array data table is not 32-bit aligned."
  | arraySignature => "Array data table has the wrong signature."
  | arrayEnd => "Array data table ends outside the code."
  | arrayTable => "Array data extent disagrees with the scanned instruction widths."
  | tryBounds => "Try block bounds are empty or outside the code."
  | tryStart => "Try block starts inside an instruction."
  | tryEnd => "Try block ends inside an instruction."
  | handlerAddress => "Exception handler starts at a bad address."
  | unresolvedClass => "Referenced class could not be found."

/-- The text of a kind, which carries all its parts. -/
def text (k : FaultKind) : String := k.code ++ "|" ++ k.name ++ ": " ++ k.description

/-- The kind with a given code. -/
def ofCode? (code : String) : Option FaultKind := all.find? (·.code == code)

/-- The category of a kind. -/
def category (k : FaultKind) : Category := Category.ofCode k.code

end FaultKind

end Dalvik
