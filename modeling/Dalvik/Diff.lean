import Dalvik.Diff.Compare
import Dalvik.Diff.Listing

/-!
# Differences between two JSON documents

Both documents have to be objects, or `null`, which counts as an object without fields but cannot
be listed.
-/

namespace Dalvik.Diff

/-- Why two documents cannot be compared or listed. -/
inductive Fault where
  | unreadable
  | unlistable
  deriving DecidableEq, Repr

/-- The wording of a fault. -/
def Fault.message : Fault → String
  | unreadable => "failed to compare reports: <json>"
  | unlistable =>
    "failed to format diff: expected map[string]interface\x7b\x7d or []interface\x7b\x7d, got <nil>"

/-- The fault is one of JSON. -/
def Fault.isJson : Fault → Bool
  | unreadable => true
  | unlistable => false

/-- The fields of the object that a text holds; none for `null`. -/
def fieldsOf (text : List UInt8) : Except Fault (Option (List (String × Value))) :=
  match (Json.Document.parse? text).bind Value.ofDocument? with
  | some (.object fields) => .ok (some fields)
  | some .null => .ok none
  | _ => .error .unreadable

/-- How a comparison ends: the listing, empty if there are no differences, or a fault; and whether
there are differences. -/
structure Outcome where
  result : Except Fault String
  differs : Bool

/-- Compares two texts. -/
def documents (left right : List UInt8) (colored : Bool) : Outcome :=
  match fieldsOf left, fieldsOf right with
  | .ok l, .ok r =>
    let deltas := objectDeltas (comparedFields (l.getD [])) (r.getD [])
    if deltas.isEmpty then ⟨.ok "", false⟩
    else
      match l with
      | some fields => ⟨.ok (listing colored fields deltas), true⟩
      | none => ⟨.error .unlistable, true⟩
  | .error f, _ => ⟨.error f, false⟩
  | _, .error f => ⟨.error f, false⟩

end Dalvik.Diff
