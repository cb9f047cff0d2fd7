import Dalvik.Json.Escape

/-!
# Writing JSON

Values to be written, on one line or with two spaces of indentation per level.
-/

namespace Dalvik.Json

/-- A value to be written. -/
inductive Value where
  | null
  | bool (b : Bool)
  | int (n : Int)
  | text (s : String)
  | array (items : List Value)
  | object (fields : List (String × Value))
  deriving Repr

namespace Value

/-! ## Fields that can be left out -/

/-- A text field that is left out when it is empty. -/
def textField (key s : String) : List (String × Value) :=
  if s.isEmpty then [] else [(key, .text s)]

/-- A truth value that is left out when it is false. -/
def flagField (key : String) (b : Bool) : List (String × Value) :=
  if b then [(key, .bool true)] else []

/-- A list that is left out when it is empty. -/
def listField {α : Type} (key : String) (items : List α) (toJson : α → Value) :
    List (String × Value) :=
  if items.isEmpty then [] else [(key, .array (items.map toJson))]

/-! ## Texts of values -/

/-- The literal of a text. -/
def literal (s : String) : String := Escapes.document.literal s

/-- The spaces in front of a line. -/
def indent (depth : Nat) : String := String.ofList (List.replicate (2 * depth) ' ')

mutual

/-- The value on one line. -/
def compact : Value → String
  | null => "null"
  | bool b => if b then "true" else "false"
  | int n => s!"{n}"
  | text s => literal s
  | array items => "[" ++ String.intercalate "," (compactItems items) ++ "]"
  | object fields => "\x7b" ++ String.intercalate "," (compactFields fields) ++ "\x7d"

/-- The items of an array on one line. -/
def compactItems : List Value → List String
  | [] => []
  | v :: rest => compact v :: compactItems rest

/-- The fields of an object on one line. -/
def compactFields : List (String × Value) → List String
  | [] => []
  | (key, v) :: rest => (literal key ++ ":" ++ compact v) :: compactFields rest

end

mutual

/-- The value with indentation; it starts at a line of the given depth. -/
def indentedAt (depth : Nat) : Value → String
  | null => "null"
  | bool b => if b then "true" else "false"
  | int n => s!"{n}"
  | text s => literal s
  | array [] => "[]"
  | array (v :: rest) =>
    "[\n" ++ String.intercalate ",\n" (indentedItems (depth + 1) (v :: rest)) ++ "\n"
      ++ indent depth ++ "]"
  | object [] => "\x7b\x7d"
  | object (f :: rest) =>
    "\x7b\n" ++ String.intercalate ",\n" (indentedFields (depth + 1) (f :: rest)) ++ "\n"
      ++ indent depth ++ "\x7d"

/-- The items of an array, each on lines of its own. -/
def indentedItems (depth : Nat) : List Value → List String
  | [] => []
  | v :: rest => (indent depth ++ indentedAt depth v) :: indentedItems depth rest

/-- The fields of an object, each on lines of its own. -/
def indentedFields (depth : Nat) : List (String × Value) → List String
  | [] => []
  | (key, v) :: rest =>
    (indent depth ++ literal key ++ ": " ++ indentedAt depth v) :: indentedFields depth rest

end

/-- The value as an indented document that ends with a line feed. -/
def document (v : Value) : String := indentedAt 0 v ++ "\n"

end Value

end Dalvik.Json
