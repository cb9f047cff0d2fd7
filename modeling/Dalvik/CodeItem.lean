import Dalvik.Bytes.Reader
import Dalvik.Method

/-!
# Code items

The binary form of a method body: a header of little-endian words, the code units, two bytes of
padding if there are try blocks and the number of units is odd, the try items, and an area of
handler lists. A try item names its list by the byte offset of the list in that area.
-/

namespace Dalvik

open Bytes (Reader ReadFault)

/-- A decoded method body. `size` is the number of bytes that it occupied. -/
structure CodeItem where
  registers : UInt16
  ins : UInt16
  outs : UInt16
  debugInfo : UInt32
  code : Code
  tries : List TryBlock
  handlerLists : List (List CatchHandler)
  size : Nat
  deriving DecidableEq, Repr

namespace CodeItem

/-- The method that owns this body. -/
def toMethod (c : CodeItem) (className name proto : String) : Method where
  className := className
  name := name
  proto := proto
  code := c.code
  tries := c.tries
  handlerLists := some c.handlerLists

/-! ## Faults -/

/-- The part of a code item that was being read. -/
inductive Place where
  | header
  | units
  | padding
  | tryItem (index : Nat)
  | listCount
  | handlerList (index : Nat)
  deriving DecidableEq, Repr

/-- The words in front of a fault at this place. -/
def Place.label? : Place → Option String
  | .header => none
  | .units => some "insns"
  | .padding => some "padding"
  | .tryItem index => some s!"try {index}"
  | .listCount => some "handler list size"
  | .handlerList index => some s!"handler {index}"

/-- Why bytes are not a code item. -/
inductive Fault where
  | read (place : Place) (fault : ReadFault)
  | handlerCount (list : Nat) (size : Int)
  | handlerOffset (tryIndex : Nat) (offset : Nat)
  | triesOrder
  deriving DecidableEq, Repr

/-- The classes of faults. -/
inductive FaultClass where
  | truncated
  | leb128
  | handlerOffset
  | triesOrder
  deriving DecidableEq, Repr

/-- The words for a class of faults. -/
def FaultClass.text : FaultClass → String
  | truncated => "code item truncated"
  | leb128 => "malformed leb128 value"
  | handlerOffset => "try handler_off does not point at a handler"
  | triesOrder => "try blocks are not sorted or overlap"

namespace Fault

/-- The class of a fault. -/
def toClass : Fault → FaultClass
  | read _ (.truncated ..) => .truncated
  | read _ (.leb128 _) => .leb128
  | handlerCount .. => .leb128
  | handlerOffset .. => .handlerOffset
  | triesOrder => .triesOrder

/-- The particulars of a fault, outermost first. -/
def details : Fault → List String
  | read place fault => place.label?.toList ++ [fault.detail]
  | handlerCount list size => [s!"handler {list}", s!"handler count {size}"]
  | handlerOffset tryIndex offset => [s!"try {tryIndex} handler_off {offset}"]
  | triesOrder => []

/-- The particulars and the words for the class, divided by colons. -/
def message (f : Fault) : String := String.intercalate ": " (f.details ++ [f.toClass.text])

end Fault

/-! ## Reading -/

/-- Reports the faults of `r` as faults at `place`. -/
def located {α : Type} (place : Place) (r : Reader ReadFault α) : Reader Fault α :=
  r.mapFault (.read place)

/-- A try item: start, number of units and the offset of its handler list. -/
def readTryItem (index : Nat) : Reader Fault (UInt32 × UInt16 × UInt16) :=
  located (.tryItem index) do
    let start ← Reader.u4
    let count ← Reader.u2
    let offset ← Reader.u2
    return (start, count, offset)

/-- A typed handler. -/
def readHandler (_ : Nat) : Reader ReadFault CatchHandler := do
  let typeIdx ← Reader.uleb128
  let addr ← Reader.uleb128
  return ⟨typeIdx, addr⟩

/-- The largest number of typed handlers in a list. -/
def maxHandlers : Nat := 65536

/-- A handler list: its signed size, that many typed handlers, and for a size that is not
positive the address that takes every exception. -/
def readHandlerList (index : Nat) : Reader Fault (List CatchHandler) := do
  let size ← located (.handlerList index) Reader.sleb128
  if size.natAbs > maxHandlers then
    throw (.handlerCount index size)
  let typed ← located (.handlerList index) (Reader.collect readHandler 0 size.natAbs #[])
  if size ≤ 0 then
    let addr ← located (.handlerList index) Reader.uleb128
    return (typed.push ⟨CatchHandler.noIndex, addr⟩).toList
  else
    return typed.toList

/-- A handler list together with its offset in the area that starts at `areaStart`. -/
def readListAt (areaStart index : Nat) : Reader Fault (Nat × List CatchHandler) := do
  let offset := (← get).pos - areaStart
  let handlers ← readHandlerList index
  return (offset, handlers)

/-- The try blocks of try items, each with the list that stands at its offset. -/
def resolveTries (lists : List (Nat × List CatchHandler)) :
    Nat → List (UInt32 × UInt16 × UInt16) → Array TryBlock → Except Fault (List TryBlock)
  | _, [], acc => .ok acc.toList
  | index, (start, count, offset) :: rest, acc =>
    match lists.lookup offset.toNat with
    | none => .error (.handlerOffset index offset.toNat)
    | some handlers => resolveTries lists (index + 1) rest (acc.push ⟨start, count, handlers⟩)

/-- The try items and handler lists that follow the code units. -/
def readTries (units tryCount : Nat) : Reader Fault (List TryBlock × List (List CatchHandler)) := do
  if units % 2 ≠ 0 then
    let _ ← located .padding Reader.u2
  let items ← Reader.collect readTryItem 0 tryCount #[]
  let areaStart := (← get).pos
  let listCount ← located .listCount Reader.uleb128
  let lists ← Reader.collect (readListAt areaStart) 0 listCount.toNat #[]
  let tries ← resolveTries lists.toList 0 items.toList #[]
  if TryBlock.sorted tries then
    return (tries, lists.toList.map (·.2))
  else
    throw .triesOrder

/-- A code item at the front of the remaining bytes. -/
def read : Reader Fault CodeItem := do
  let registers ← located .header Reader.u2
  let ins ← located .header Reader.u2
  let outs ← located .header Reader.u2
  let tryCount ← located .header Reader.u2
  let debugInfo ← located .header Reader.u4
  let units ← located .header Reader.u4
  located .units (Reader.need (units.toNat * 2))
  let code ← located .units (Reader.collect (fun _ => Reader.u2) 0 units.toNat #[])
  let (tries, handlerLists) ←
    if tryCount = 0 then pure ([], []) else readTries units.toNat tryCount.toNat
  let size := (← get).pos
  return { registers, ins, outs, debugInfo, code, tries, handlerLists, size }

/-- The code item at the start of `bytes`; bytes after it are not looked at. -/
def parse (bytes : List UInt8) : Except Fault CodeItem :=
  match read ⟨0, bytes⟩ with
  | .ok (item, _) => .ok item
  | .error fault => .error fault

end CodeItem

end Dalvik
