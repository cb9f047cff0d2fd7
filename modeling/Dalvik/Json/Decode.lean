import Dalvik.Digest
import Dalvik.Json.Document
import Dalvik.Json.Literal

/-!
# Reading records from JSON

A decoder says two things. One is the first fault of a document, in the order in which it is
written; a fault does not depend on anything outside of the value that it stands in. The other is
what a series of documents amounts to: a key can be repeated in an object, and then each value is
read onto what the ones before it gave. Keys are compared without regard to case and unknown keys
are ignored.
-/

namespace Dalvik.Json

/-- Why a text does not hold a record. -/
inductive DecodeFault where
  /-- The text is no JSON document. -/
  | malformed
  /-- Some value has the wrong type or is out of range. -/
  | mismatch
  /-- A digest cannot be read. -/
  | digest (fault : Digest.Fault)
  deriving DecidableEq, Repr

/-- The fault is one of JSON itself and not of what a digest looks like inside. -/
def DecodeFault.isJson : DecodeFault → Bool
  | digest (.length _) => false
  | _ => true

/-- The wording of a fault; the one for faults of JSON is a placeholder. -/
def DecodeFault.message (f : DecodeFault) : String :=
  match f with
  | digest fault => if f.isJson then "<json>" else fault.message
  | _ => "<json>"

/-- A way to read values from documents. -/
structure Decoder (α : Type) where
  /-- The first fault of a document. -/
  fault? : Document → Option DecodeFault
  /-- What a series of documents without faults amounts to. -/
  value : List Document → α

namespace Decoder

/-! ## Single values -/

/-- A value that is read as a whole: the last document counts, and `null` leaves the value alone.
Before the first document it is `zero`. -/
def scalar {α : Type} (zero : α) (read? : Document → Option α) : Decoder α where
  fault? d :=
    match d with
    | .null => none
    | _ => if (read? d).isSome then none else some .mismatch
  value ds := (ds.filterMap read?).getLast?.getD zero

/-- A text. -/
def text : Decoder String :=
  scalar "" fun d =>
    match d with
    | .string content => some (Literal.text content)
    | _ => none

/-- A truth value. -/
def bool : Decoder Bool :=
  scalar false fun d =>
    match d with
    | .bool b => some b
    | _ => none

/-- The integer that a document holds, from `lo` up to and without `hi`. -/
def readInt? (lo hi : Int) : Document → Option Int
  | .number literal => (Literal.integer? literal).filter fun n => lo ≤ n && n < hi
  | _ => none

/-- The natural number below `bound` that a document holds. A sign is not accepted, not even in
front of zero. -/
def readNat? (bound : Nat) : Document → Option Nat
  | .number (0x2d :: _) => none
  | d => (readInt? 0 bound d).map Int.toNat

/-- A signed integer of 64 bits. -/
def int64 : Decoder Int := scalar 0 (readInt? (-0x8000000000000000) 0x8000000000000000)

/-- An unsigned integer of 32 bits. -/
def uint32 : Decoder UInt32 := scalar 0 fun d => (readNat? 0x100000000 d).map Nat.toUInt32

/-- An unsigned integer of 16 bits. -/
def uint16 : Decoder UInt16 := scalar 0 fun d => (readNat? 0x10000 d).map Nat.toUInt16

/-- The digest that a document holds; only a string can hold one. -/
def readDigest : Document → Except Digest.Fault Digest
  | .string content => Digest.parseContent content
  | _ => .error .nonString

/-- A digest, for which `null` is a fault as well. -/
def digest : Decoder Digest where
  fault? d :=
    match readDigest d with
    | .ok _ => none
    | .error fault => some (.digest fault)
  value ds := (ds.filterMap fun d => (readDigest d).toOption).getLast?.getD Digest.zero

/-- A value that may be absent: what follows the last `null` counts. -/
def optional {α : Type} (item : Decoder α) : Decoder (Option α) where
  fault? d :=
    match d with
    | .null => none
    | _ => item.fault? d
  value ds :=
    match ds.reverse.takeWhile (fun d => !d.isNull) with
    | [] => none
    | recent => some (item.value recent.reverse)

/-! ## Arrays -/

/-- The slots of an array that is read several times: the documents that each slot has had since
the array was last absent or empty, and the number of slots that count now. -/
structure Slots where
  held : List (List Document) := []
  size : Nat := 0

/-- Adds an item to each of the first slots; slots beyond the items keep what they hold. -/
def Slots.layer (held : List (List Document)) (items : List Document) : List (List Document) :=
  List.zipWith (fun h d => h ++ [d]) held items
    ++ (items.drop held.length).map (fun d => [d]) ++ held.drop items.length

/-- The slots after one more document. -/
def Slots.read (s : Slots) : Document → Slots
  | .null => {}
  | .array [] => {}
  | .array items => ⟨layer s.held items, items.length⟩
  | _ => s

/-- An array. An array that is read again is read item by item onto the old one, also onto items
that a shorter array in between has put out of sight. -/
def list {α : Type} (item : Decoder α) : Decoder (List α) where
  fault? d :=
    match d with
    | .null => none
    | .array items => items.findSome? item.fault?
    | _ => some .mismatch
  value ds :=
    let slots := ds.foldl Slots.read {}
    (slots.held.take slots.size).map item.value

/-! ## Records -/

/-- A character in a form that is the same for both cases. The long s and the Kelvin sign fold
onto letters of ASCII. -/
def foldCase (c : Char) : Char :=
  if c.toNat = 0x17f then 's' else if c.toNat = 0x212a then 'k' else c.toLower

/-- A key in a form that is the same for both cases. -/
def foldKey (key : String) : List Char := key.toList.map foldCase

/-- The fields of a document under their folded keys. -/
def foldedFields : Document → List (List Char × Document)
  | .object fields => fields.map fun (key, d) => (foldKey (Literal.text key), d)
  | _ => []

/-- A way to read a record from fields under folded keys. -/
structure Fields (σ : Type) where
  /-- The first fault of a field. -/
  fault? : List Char → Document → Option DecodeFault
  /-- What a series of fields without faults amounts to. -/
  value : List (List Char × Document) → σ

/-- Reading goes field by field; each reader looks at its own fields only. -/
instance : Applicative Fields where
  pure a := ⟨fun _ _ => none, fun _ => a⟩
  seq f x :=
    ⟨fun key d => (f.fault? key d).or ((x ()).fault? key d),
      fun fields => f.value fields ((x ()).value fields)⟩

/-- The field with a key. -/
def field {α : Type} (key : String) (item : Decoder α) : Fields α :=
  let own := foldKey key
  { fault? := fun key d => if key = own then item.fault? d else none
    value := fun fields => item.value ((fields.filter fun f => f.1 = own).map (·.2)) }

/-- A record; `null` leaves it alone. -/
def record {σ : Type} (fields : Fields σ) : Decoder σ where
  fault? d :=
    match d with
    | .null => none
    | .object _ => (foldedFields d).findSome? fun f => fields.fault? f.1 f.2
    | _ => some .mismatch
  value ds := fields.value (ds.flatMap foldedFields)

/-! ## Whole texts -/

/-- The value that a whole text holds. -/
def run {α : Type} (decoder : Decoder α) (bytes : List UInt8) : Except DecodeFault α :=
  match Document.parse? bytes with
  | none => .error .malformed
  | some d =>
    match decoder.fault? d with
    | some fault => .error fault
    | none => .ok (decoder.value [d])

end Decoder

end Dalvik.Json
