import Dalvik.Json.Decode
import Dalvik.Json.Value
import Dalvik.Log.Record

/-!
# Verdicts and their store

A verdict is the outcome of a pre-analysis in the form in which it is kept. The store maps the
digest of some code to the JSON text of a verdict. Each verdict carries the version of the rules
it was made by, and a verdict of another version counts as absent.
-/

namespace Dalvik

open Log (Record)
open Json.Decoder (field record)
open Json.Value (textField)

/-! ## Verdicts -/

/-- The outcome of a pre-analysis as it is kept. -/
structure Verdict where
  version : Int := 0
  accepted : Bool := false
  code : String := ""
  message : String := ""
  insns : Int := 0
  newInstances : Int := 0
  deriving DecidableEq, Repr

namespace Verdict

/-- The version of the rules of the pre-analysis. -/
def currentVersion : Int := 1

/-- The JSON form of a verdict. -/
def toJson (v : Verdict) : Json.Value :=
  .object ([("version", .int v.version), ("accepted", .bool v.accepted)]
    ++ textField "code" v.code ++ textField "message" v.message
    ++ [("insns", .int v.insns), ("new_instances", .int v.newInstances)])

/-- The bytes under which a verdict is kept. -/
def encode (v : Verdict) : List UInt8 := Bytes.Utf8.encode v.toJson.compact

/-- Reads a verdict. -/
def decoder : Json.Decoder Verdict :=
  record (Verdict.mk <$> field "version" .int64 <*> field "accepted" .bool
    <*> field "code" .text <*> field "message" .text <*> field "insns" .int64
    <*> field "new_instances" .int64)

/-- The verdict that some bytes hold. -/
def decode (bytes : List UInt8) : Except Json.DecodeFault Verdict := decoder.run bytes

end Verdict

/-! ## The store -/

/-- Why an operation on a store fails. -/
inductive StoreFault where
  | closed
  | notFound
  | get (key : Digest)
  | put (key : Digest)
  | count
  | undecodable (key : Digest) (fault : Json.DecodeFault)
  deriving DecidableEq

namespace StoreFault

/-- The words for a closed store. -/
def closedText : String := "leveldb: closed"

/-- The wording of a fault. -/
def message : StoreFault → String
  | closed => closedText
  | notFound => "leveldb: not found"
  | get key => "Get " ++ key.text ++ ": " ++ closedText
  | put key => "Put " ++ key.text ++ ": " ++ closedText
  | count => "Count: " ++ closedText
  | undecodable key fault => "decode verdict " ++ key.text ++ ": " ++ fault.message

/-- The fault is one of JSON. -/
def isJson : StoreFault → Bool
  | undecodable _ fault => fault.isJson
  | _ => false

end StoreFault

/-- A store of bytes by digest. After it has been closed every operation fails. -/
structure VerdictStore where
  records : List (Digest × List UInt8) := []
  isOpen : Bool := true
  deriving DecidableEq

namespace VerdictStore

/-- The bytes under a key. -/
def bytes? (s : VerdictStore) (key : Digest) : Option (List UInt8) := s.records.lookup key

/-- The store without a key. -/
def without (s : VerdictStore) (key : Digest) : VerdictStore :=
  { s with records := s.records.filter fun r => r.1 ≠ key }

/-- Writes bytes under a key. -/
def putBytes (s : VerdictStore) (key : Digest) (bytes : List UInt8) :
    Except StoreFault VerdictStore :=
  if s.isOpen then .ok { s with records := (key, bytes) :: (s.without key).records }
  else .error .closed

/-- Reads the bytes under a key. -/
def getBytes (s : VerdictStore) (key : Digest) : Except StoreFault (List UInt8) :=
  if s.isOpen then
    match s.bytes? key with
    | some bytes => .ok bytes
    | none => .error .notFound
  else .error .closed

/-- Keeps a verdict, stamped with the current version. -/
def put (s : VerdictStore) (key : Digest) (v : Verdict) : Except StoreFault VerdictStore :=
  match s.putBytes key { v with version := Verdict.currentVersion }.encode with
  | .ok s' => .ok s'
  | .error _ => .error (.put key)

/-- The verdict of the current version under a key, and what is logged about the look-up. -/
def get (s : VerdictStore) (key : Digest) :
    Except StoreFault (Option Verdict) × List Record :=
  let note := fun level message fields =>
    [(⟨level, Log.cacheModule, message, ⟨"hash", .text key.short⟩ :: fields⟩ : Record)]
  match s.getBytes key with
  | .error .notFound => (.ok none, note Log.Level.trace "verdict miss" [])
  | .error _ => (.error (.get key), [])
  | .ok bytes =>
    match Verdict.decode bytes with
    | .error fault => (.error (.undecodable key fault), [])
    | .ok v =>
      if v.version ≠ Verdict.currentVersion then
        (.ok none, note Log.Level.debug "stale verdict" [⟨"version", .int v.version⟩])
      else (.ok (some v), note Log.Level.trace "verdict hit" [⟨"accepted", .bool v.accepted⟩])

/-- Forgets what is kept under a key. -/
def delete (s : VerdictStore) (key : Digest) : Except StoreFault VerdictStore :=
  if s.isOpen then .ok (s.without key) else .error .closed

/-- The number of keys, those of stale and unreadable verdicts included. -/
def count (s : VerdictStore) : Except StoreFault Nat :=
  if s.isOpen then .ok s.records.length else .error .count

/-- Closes the store. -/
def close (s : VerdictStore) : Except StoreFault VerdictStore :=
  if s.isOpen then .ok { s with isOpen := false } else .error .closed

end VerdictStore

end Dalvik
