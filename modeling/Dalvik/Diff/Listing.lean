import Dalvik.Diff.Delta

/-!
# Differences as text

The left document line by line, with the differences marked by `+` and `-` in the first column.
Every level counts its items down from the number of items on the left and writes a comma after an
item while the count stays positive.
-/

namespace Dalvik.Diff

/-- The mark in the first column of a line. -/
inductive Mark where
  | same
  | added
  | deleted
  deriving DecidableEq, Repr

/-- The character of a mark. -/
def Mark.text : Mark → String
  | same => " "
  | added => "+"
  | deleted => "-"

/-- The start of the colour of a mark. -/
def Mark.color? : Mark → Option String
  | same => none
  | added => some "\x1b[30;42m"
  | deleted => some "\x1b[30;41m"

/-- Numbers have exponents below `10 ^ -4` and from `10 ^ 6` on, written with two digits. -/
def numberLayout : Decimal.Layout := ⟨-4, 5, 2⟩

/-- A line: the mark, two spaces per level and the text. -/
def line (colored : Bool) (mark : Mark) (depth : Nat) (text : String) : String :=
  let body := mark.text ++ String.ofList (List.replicate (2 * depth) ' ') ++ text
  match if colored then mark.color? else none with
  | some color => color ++ body ++ "\x1b[0m\n"
  | none => body ++ "\n"

/-- The comma after an item that is not the last one. -/
def comma (more : Bool) : String := if more then "," else ""

/-- The key of a field. -/
def nameText (name : String) : String := "\"" ++ name ++ "\": "

/-- What stands in front of a value at a place. -/
def Position.text : Position → String
  | name key => nameText key
  | index i => toString i ++ ": "

mutual

/-- The lines of a value. -/
def valueLines (colored : Bool) (mark : Mark) (depth : Nat) (key : String) (more : Bool) :
    Value → List String
  | .null => [line colored mark depth (key ++ "null" ++ comma more)]
  | .bool b => [line colored mark depth (key ++ (if b then "true" else "false") ++ comma more)]
  | .number f => [line colored mark depth (key ++ numberLayout.text f ++ comma more)]
  | .text s => [line colored mark depth (key ++ "\"" ++ s ++ "\"" ++ comma more)]
  | .array items =>
    line colored mark depth (key ++ "[") :: itemLines colored mark (depth + 1) items
      ++ [line colored mark depth ("]" ++ comma more)]
  | .object fields =>
    line colored mark depth (key ++ "\x7b") :: fieldLines colored mark (depth + 1) fields
      ++ [line colored mark depth ("\x7d" ++ comma more)]

/-- The lines of the items of an array, which have no names. -/
def itemLines (colored : Bool) (mark : Mark) (depth : Nat) : List Value → List String
  | [] => []
  | v :: rest =>
    valueLines colored mark depth ": " (!rest.isEmpty) v ++ itemLines colored mark depth rest

/-- The lines of the fields of an object. -/
def fieldLines (colored : Bool) (mark : Mark) (depth : Nat) : List (String × Value) → List String
  | [] => []
  | (key, v) :: rest =>
    valueLines colored mark depth (nameText key) (!rest.isEmpty) v
      ++ fieldLines colored mark depth rest

end

/-- The lines of a level so far, and the number of items that are still to come. -/
structure Level where
  lines : List String
  left : Int

namespace Level

/-- The level with a value written as an item. -/
def put (l : Level) (colored : Bool) (mark : Mark) (depth : Nat) (p : Position) (v : Value) :
    Level :=
  let left := l.left - 1
  ⟨l.lines ++ valueLines colored mark depth p.text (0 < left) v, left⟩

/-- The level with a deeper one written as an item between two brackets. -/
def enclose (l : Level) (colored : Bool) (depth : Nat) (p : Position) (opening closing : String)
    (inner : List String) : Level :=
  let left := l.left - 1
  ⟨l.lines ++ line colored .same depth (p.text ++ opening) :: inner
    ++ [line colored .same depth (closing ++ comma (0 < left))], left⟩

end Level

/-- The items of an object with their places. -/
def fieldItems (fields : List (String × Value)) : List (Position × Value) :=
  fields.map fun (key, v) => (.name key, v)

/-- The items of an array with their places. -/
def arrayItems (items : List Value) : List (Position × Value) :=
  items.zipIdx.map fun (v, i) => (.index i, v)

/-- An added item that no item on the left stands in for. -/
def isBeyond (count : Nat) : Position → Bool
  | .name _ => true
  | .index i => count ≤ i

/-- What a difference does with an item at a depth, a place and with a value on the left: the level
afterwards, and whether further differences at the same place count. -/
abbrev Edit := Nat → Position → Value → Level → Level × Bool

/-- A level after the differences at one place, up to the first one that ends the item. -/
def applyEdits (depth : Nat) (p : Position) (v : Value) (l : Level) : List Edit → Level
  | [] => l
  | edit :: rest =>
    match edit depth p v l with
    | (l, true) => applyEdits depth p v l rest
    | (l, false) => l

/-- A level after one item on the left, with all differences at its place. -/
def putItem (colored : Bool) (depth : Nat) (edits : List (Delta × Edit)) (l : Level)
    (item : Position × Value) : Level :=
  match edits.filter fun (d, _) => d.position = item.1 with
  | [] => l.put colored .same depth item.1 item.2
  | here => applyEdits depth item.1 item.2 l (here.map (·.2))

/-- A level after what a difference adds beyond the items on the left. -/
def putBeyond (colored : Bool) (depth count : Nat) (l : Level) : Delta → Level
  | .added p v => if isBeyond count p then l.put colored .added depth p v else l
  | _ => l

/-- The lines of a level: every item with all differences at its place, then what was added
beyond. -/
def levelLines (colored : Bool) (depth : Nat) (items : List (Position × Value))
    (edits : List (Delta × Edit)) : List String :=
  let shown := items.foldl (putItem colored depth edits) ⟨[], items.length⟩
  ((edits.map (·.1)).foldl (putBeyond colored depth items.length) shown).lines

mutual

/-- The edit that shows a difference. A moved item, and a difference inside a value of another
kind, ends its item. -/
def edit (colored : Bool) : Delta → Edit
  | .object _ deltas =>
    let inner := edits colored deltas
    fun depth p v l =>
      match v with
      | .object fields =>
        (l.enclose colored depth p "\x7b" "\x7d"
          (levelLines colored (depth + 1) (fieldItems fields) inner), true)
      | _ => (l, false)
  | .array _ deltas =>
    let inner := edits colored deltas
    fun depth p v l =>
      match v with
      | .array values =>
        (l.enclose colored depth p "[" "]"
          (levelLines colored (depth + 1) (arrayItems values) inner), true)
      | _ => (l, false)
  | .added _ new => fun depth p _ l =>
    let shown := l.put colored .added depth p new
    ({ shown with left := shown.left + 1 }, true)
  | .modified _ old new => fun depth p _ l =>
    let before := l.put colored .deleted depth p old
    ({ before with left := l.left }.put colored .added depth p new, true)
  | .deleted _ old => fun depth p _ l => (l.put colored .deleted depth p old, true)
  | .moved .. => fun _ _ _ l => (l, false)

/-- The differences with the edits that show them. -/
def edits (colored : Bool) : List Delta → List (Delta × Edit)
  | [] => []
  | d :: rest => (d, edit colored d) :: edits colored rest

end

/-- The listing of an object with its differences. -/
def listing (colored : Bool) (fields : List (String × Value)) (deltas : List Delta) : String :=
  String.join (line colored .same 0 "\x7b" :: levelLines colored 1 (fieldItems fields) (edits colored deltas)
    ++ [line colored .same 0 "\x7d"])

end Dalvik.Diff
