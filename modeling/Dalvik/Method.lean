import Dalvik.Payload

/-!
# Methods

A method body as the verifier sees it: names, code units, try blocks and the handler lists that
have to be checked.
-/

namespace Dalvik

/-! ## Exception handlers -/

/-- One entry of a handler list: an exception type and the address of its handler. -/
structure CatchHandler where
  typeIdx : UInt32
  addr : UInt32
  deriving DecidableEq, Repr

namespace CatchHandler

/-- The type index that stands for every exception. -/
def noIndex : UInt32 := 0xffffffff

/-- The handler takes every exception. -/
def isCatchAll (h : CatchHandler) : Bool := h.typeIdx == noIndex

end CatchHandler

/-- A protected range of code units with its handlers. -/
structure TryBlock where
  start : UInt32
  count : UInt16
  handlers : List CatchHandler
  deriving DecidableEq, Repr

namespace TryBlock

/-- The exclusive end of the range, in arithmetic without a bound. -/
def stop (t : TryBlock) : Nat := t.start.toNat + t.count.toNat

/-- Each block starts no earlier than the block before it. -/
def startsAscend : List TryBlock → Bool
  | a :: b :: rest => decide (a.start ≤ b.start) && startsAscend (b :: rest)
  | _ => true

/-- Some block starts before the end of the block before it. -/
def overlap : List TryBlock → Bool
  | a :: b :: rest => decide (b.start.toNat < a.stop) || overlap (b :: rest)
  | _ => false

/-- The blocks are in ascending order and do not overlap. -/
def sorted (tries : List TryBlock) : Bool := startsAscend tries && !overlap tries

end TryBlock

/-! ## Methods -/

/-- An already loaded method body. `handlerLists` holds every handler list of the code item,
also those that no try block refers to; without it the lists of the try blocks stand in. -/
structure Method where
  className : String
  name : String
  proto : String
  code : Code := #[]
  tries : List TryBlock := []
  handlerLists : Option (List (List CatchHandler)) := none
  deriving DecidableEq, Repr

namespace Method

/-- The handler lists whose addresses have to be checked. -/
def allHandlers (m : Method) : List (List CatchHandler) :=
  match m.handlerLists with
  | some lists => lists
  | none => m.tries.map (·.handlers)

/-- The try blocks are in ascending order and do not overlap. -/
def triesSorted (m : Method) : Bool := TryBlock.sorted m.tries

/-- The form of a method in diagnostics. -/
def text (m : Method) : String := m.className ++ "." ++ m.name ++ ":" ++ m.proto

/-- The form of a method that may be unknown. -/
def textOf : Option Method → String
  | some m => m.text
  | none => "<unknown method>"

end Method

/-! ## Type descriptors -/

/-- A class descriptor without its frame `L…;`, with dots for slashes; any other descriptor has
only its slashes replaced. -/
def dotted (descriptor : String) : String :=
  let chars := descriptor.toList
  let inner :=
    match chars with
    | 'L' :: rest => if rest.getLast? = some ';' then rest.dropLast else chars
    | _ => chars
  String.ofList (inner.map fun c => if c = '/' then '.' else c)

end Dalvik
