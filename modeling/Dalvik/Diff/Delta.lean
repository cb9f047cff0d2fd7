import Dalvik.Diff.Subsequence
import Dalvik.Diff.Value

/-!
# Deltas

The ways in which two JSON values differ, and how similar the two sides of a difference are. The
similarity is a double; sums and quotients are taken in the order in which they are written here.
-/

namespace Dalvik.Diff

/-- A place in an object or array. -/
inductive Position where
  | name (key : String)
  | index (i : Nat)
  deriving DecidableEq, Repr

/-- A difference between two objects or arrays. -/
inductive Delta where
  | added (place : Position) (value : Value)
  | deleted (place : Position) (value : Value)
  | moved (source target : Nat)
  | modified (place : Position) (old new : Value)
  | object (place : Position) (deltas : List Delta)
  | array (place : Position) (deltas : List Delta)

namespace Delta

/-- The place at which a difference is shown: that on the right, unless there is none. -/
def position : Delta → Position
  | added p _ => p
  | deleted p _ => p
  | moved _ target => .index target
  | modified p _ _ => p
  | object p _ => p
  | array p _ => p

/-- A ratio of at most one: its inverse if it is larger. -/
def properRatio (a b : Float) : Float :=
  let ratio := a / b
  if ratio > 1 then 1 / ratio else ratio

/-- A text as one unit per byte: the character at its first byte, nothing at the others. -/
def byteUnits (s : String) : List (Option Char) :=
  s.toList.flatMap fun c => some c :: List.replicate (c.utf8Size - 1) none

/-- How much of two texts is common. -/
def textSimilarity (l r : String) : Float :=
  let left := byteUnits l
  let right := byteUnits r
  let common := (Subsequence.length (· == ·) left right).toFloat
  (common / left.length.toFloat) * (common / right.length.toFloat)

/-- The similarity of two values at one place. -/
def modifiedSimilarity (old new : Value) : Float :=
  if old.sameType new then
    let base : Float := 0.3 + 0.3
    match old, new with
    | .text l, .text r => base + 0.4 * textSimilarity l r
    | .number a, .number b => base + 0.4 * properRatio a b
    | _, _ => base
  else 0.3

mutual

/-- The similarity of the two sides of a difference. -/
def similarity : Delta → Float
  | added .. => 0
  | deleted .. => 0
  | moved source target => 0.6 + 0.4 * properRatio source.toFloat target.toFloat
  | modified _ old new => modifiedSimilarity old new
  | object _ deltas => similaritySum 0 deltas / deltas.length.toFloat
  | array _ deltas => similaritySum 0 deltas / deltas.length.toFloat

/-- The sum of similarities, after `acc`. -/
def similaritySum (acc : Float) : List Delta → Float
  | [] => acc
  | d :: rest => similaritySum (acc + similarity d) rest

end

end Delta

end Dalvik.Diff
