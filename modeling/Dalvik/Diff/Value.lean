import Dalvik.Decimal.Shortest
import Dalvik.Json.Document
import Dalvik.Json.Literal

/-!
# JSON values for comparison

The meaning of a document: numbers are doubles, texts are decoded, and an object maps each key to
the last value it was given, in the order of the keys.
-/

namespace Dalvik.Diff

/-- A JSON value. The keys of an object ascend. -/
inductive Value where
  | null
  | bool (b : Bool)
  | number (f : Float)
  | text (s : String)
  | array (items : List Value)
  | object (fields : List (String × Value))

namespace Value

/-- The value has the same type as another one. -/
def sameType : Value → Value → Bool
  | null, null | bool _, bool _ | number _, number _ | text _, text _ | array _, array _
  | object _, object _ => true
  | _, _ => false

mutual

/-- The values are equal; the two zeros are. -/
def same : Value → Value → Bool
  | null, null => true
  | bool a, bool b => a == b
  | number a, number b => a == b
  | text a, text b => a == b
  | array a, array b => sameItems a b
  | object a, object b => sameFields a b
  | _, _ => false

/-- The lists are equal item by item. -/
def sameItems : List Value → List Value → Bool
  | [], [] => true
  | a :: as, b :: bs => same a b && sameItems as bs
  | _, _ => false

/-- The objects have the same keys with equal values. -/
def sameFields : List (String × Value) → List (String × Value) → Bool
  | [], [] => true
  | (j, a) :: as, (k, b) :: bs => j == k && same a b && sameFields as bs
  | _, _ => false

end

/-- The fields with one key set, in the order of the keys. -/
def insert (key : String) (v : Value) : List (String × Value) → List (String × Value)
  | [] => [(key, v)]
  | (k, w) :: rest =>
    if key = k then (key, v) :: rest
    else if key < k then (key, v) :: (k, w) :: rest
    else (k, w) :: insert key v rest

/-! ## From documents -/

/-- The digits of a number literal up to the first byte that is none, after those of `acc`. -/
def digitsOnto (acc : Nat) (count : Nat) : List UInt8 → Nat × Nat × List UInt8
  | [] => (acc, count, [])
  | b :: rest =>
    if Json.Token.isDigit b then digitsOnto (acc * 10 + (b.toNat - 0x30)) (count + 1) rest
    else (acc, count, b :: rest)

/-- The exponent at the end of a number literal. -/
def exponentOf : List UInt8 → Int
  | _ :: 0x2d :: rest => -((digitsOnto 0 0 rest).1 : Int)
  | _ :: 0x2b :: rest => (digitsOnto 0 0 rest).1
  | _ :: rest => (digitsOnto 0 0 rest).1
  | [] => 0

/-- The double that a number literal stands for, if there is one. -/
def double? (literal : List UInt8) : Option Float :=
  let (negative, unsigned) :=
    match literal with
    | 0x2d :: rest => (true, rest)
    | rest => (false, rest)
  let (whole, _, rest) := digitsOnto 0 0 unsigned
  match rest with
  | 0x2e :: fraction =>
    let (m, places, rest) := digitsOnto whole 0 fraction
    Decimal.nearest? negative m (exponentOf rest - places)
  | rest => Decimal.nearest? negative whole (exponentOf rest)

mutual

/-- The value of a document; none if some number is out of range. -/
def ofDocument? : Json.Document → Option Value
  | .null => some .null
  | .bool b => some (.bool b)
  | .number literal => (double? literal).map .number
  | .string content => some (.text (Json.Literal.text content))
  | .array items => (ofItems? items).map .array
  | .object fields => (ofFields? [] fields).map .object

/-- The values of the items of an array. -/
def ofItems? : List Json.Document → Option (List Value)
  | [] => some []
  | d :: rest => do
    let v ← ofDocument? d
    let vs ← ofItems? rest
    return v :: vs

/-- The fields of an object, added to those before. -/
def ofFields? (acc : List (String × Value)) :
    List (List UInt8 × Json.Document) → Option (List (String × Value))
  | [] => some acc
  | (key, d) :: rest => do
    let v ← ofDocument? d
    ofFields? (insert (Json.Literal.text key) v acc) rest

end

end Value

end Dalvik.Diff
