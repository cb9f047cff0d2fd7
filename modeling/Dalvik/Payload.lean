import Dalvik.Fault

/-!
# Payload tables

A payload table is an extended `nop`: a full code unit whose low byte is zero and whose high
byte tells the kind of table. Its extent follows from the fields of its header, in arithmetic
without a bound, so that no combination of fields wraps.
-/

namespace Dalvik

/-- The code of a method: 16-bit units. -/
abbrev Code := Array UInt16

/-- The kinds of payload table. -/
inductive PayloadKind where
  | packedSwitch
  | sparseSwitch
  | arrayData
  deriving DecidableEq, Repr

namespace PayloadKind

/-- The unit that starts a table of this kind. -/
def signature : PayloadKind → UInt16
  | packedSwitch => 0x0100
  | sparseSwitch => 0x0200
  | arrayData => 0x0300

/-- The kind of table that `unit` starts, if any. -/
def ofUnit? (unit : UInt16) : Option PayloadKind :=
  if unit = packedSwitch.signature then some packedSwitch
  else if unit = sparseSwitch.signature then some sparseSwitch
  else if unit = arrayData.signature then some arrayData
  else none

/-- The word for a table of this kind. -/
def word : PayloadKind → String
  | packedSwitch => "packed-switch"
  | sparseSwitch => "sparse-switch"
  | arrayData => "array-data"

end PayloadKind

/-- The unit starts a payload table. -/
def isPayloadUnit (unit : UInt16) : Bool := (PayloadKind.ofUnit? unit).isSome

/-! ## Extents -/

/-- Units of a packed-switch table: signature, size, first key (two units) and the targets. -/
def packedSwitchExtent (entries : Nat) : Nat := 4 + entries * 2

/-- Units of a sparse-switch table: signature, size, keys and targets. -/
def sparseSwitchExtent (entries : Nat) : Nat := 2 + entries * 4

/-- Units of an array-data table: signature, element width, count (two units) and the bytes,
rounded up to whole units. -/
def arrayDataExtent (elementWidth count : Nat) : Nat := 4 + (elementWidth * count + 1) / 2

/-! ## Two-unit values -/

/-- The unsigned value of two units, low unit first. -/
def joinUnits (low high : UInt16) : UInt32 := low.toUInt32 ||| (high.toUInt32 <<< 16)

/-- The unsigned value stored in the two units at `off`. -/
def Code.pair? (code : Code) (off : Nat) : Option UInt32 :=
  match code[off]?, code[off + 1]? with
  | some low, some high => some (joinUnits low high)
  | _, _ => none

/-- The signed value stored in the two units at `off`. -/
def Code.signedPair? (code : Code) (off : Nat) : Option Int :=
  (Code.pair? code off).map fun v => v.toInt32.toInt

/-- The signed value stored in the two units at an offset of any sign. -/
def Code.signedPairAt? (code : Code) : Int → Option Int
  | .ofNat off => Code.signedPair? code off
  | .negSucc _ => none

/-! ## Measuring a table -/

/-- Why a table cannot be measured. -/
inductive PayloadFault where
  | outside (off : Int) (units : Nat)
  | header (kind : PayloadKind) (off : Nat)
  | body (off needed remaining : Nat)
  deriving DecidableEq, Repr

namespace PayloadFault

/-- The kind of a fault: the table runs past the end, or there is no unit to look at. -/
def kind : PayloadFault → FaultKind
  | outside .. => .offsetOutOfRange
  | header .. => .payloadOverrun
  | body .. => .payloadOverrun

/-- The particulars of a fault. -/
def detail : PayloadFault → String
  | outside off units => s!"offset {off} outside code of {units} units"
  | header kind off =>
    let word := kind.word
    s!"{word} header at {off} truncated"
  | body off needed remaining =>
    s!"payload at {off} needs {needed} units, only {remaining} remain"

/-- The particulars, followed by the text of the kind. -/
def message (f : PayloadFault) : String := f.detail ++ ": " ++ f.kind.text

/-- The unit that was looked at starts a table. -/
def atTable : PayloadFault → Bool
  | outside .. => false
  | header .. => true
  | body .. => true

end PayloadFault

/-- The extent that the header of a table of kind `kind` at `off` asks for, if the code holds
the fields it is computed from. -/
def Code.payloadExtent? (code : Code) (kind : PayloadKind) (off : Nat) : Option Nat :=
  match kind with
  | .packedSwitch => (code[off + 1]?).map fun n => packedSwitchExtent n.toNat
  | .sparseSwitch => (code[off + 1]?).map fun n => sparseSwitchExtent n.toNat
  | .arrayData =>
    match code[off + 1]?, Code.pair? code (off + 2) with
    | some width, some count => some (arrayDataExtent width.toNat count.toNat)
    | _, _ => none

/-- The extent of the table at `off`, or `none` if an ordinary instruction stands there. The
whole table has to lie inside the code. -/
def Code.measureAt (code : Code) (off : Nat) : Except PayloadFault (Option Nat) :=
  match code[off]? with
  | none => .error (.outside off code.size)
  | some unit =>
    match PayloadKind.ofUnit? unit with
    | none => .ok none
    | some kind =>
      match Code.payloadExtent? code kind off with
      | none => .error (.header kind off)
      | some extent =>
        if extent ≤ code.size - off then .ok (some extent)
        else .error (.body off extent (code.size - off))

/-- The extent of the table at an offset of any sign. -/
def Code.measure (code : Code) : Int → Except PayloadFault (Option Nat)
  | .ofNat off => Code.measureAt code off
  | .negSucc n => .error (.outside (.negSucc n) code.size)

end Dalvik
