/-!
# Longest common subsequences

The lengths for all pairs of front parts of two lists, and the pairs of positions of one longest
common subsequence. The pairs are traced from the end: equal last items are paired; otherwise the
last item of the left list is dropped if that loses nothing against dropping the one of the right
list.
-/

namespace Dalvik.Diff.Subsequence

variable {α : Type}

/-- The lengths for one more item `a` on the left. `row` holds the lengths without it, from the
front part of the right list that ends before `bs`; `last` is the new length for that part. -/
def extendRow (same : α → α → Bool) (a : α) : List α → List Nat → Nat → List Nat
  | b :: bs, diagonal :: up :: row, last =>
    let here := max (diagonal + if same a b then 1 else 0) (max up last)
    here :: extendRow same a bs (up :: row) here
  | _, _, _ => []

/-- The lengths for one more item on the left, against every front part of the right list. -/
def nextRow (same : α → α → Bool) (right : List α) (row : List Nat) (a : α) : List Nat :=
  0 :: extendRow same a right row 0

/-- The row for the empty left list. -/
def firstRow (right : List α) : List Nat := List.replicate (right.length + 1) 0

/-- The length of a longest common subsequence. -/
def length (same : α → α → Bool) (left right : List α) : Nat :=
  (left.foldl (nextRow same right) (firstRow right)).getLastD 0

/-- All rows, for ever longer front parts of the left list. -/
def table (same : α → α → Bool) (left right : List α) : Array (Array Nat) :=
  (left.foldl (fun (rows, row) a =>
    let row := nextRow same right row a
    (rows.push row.toArray, row)) (#[(firstRow right).toArray], firstRow right)).1

/-- The entry of a table. -/
def entry (t : Array (Array Nat)) (x y : Nat) : Nat := ((t[x]?).bind (·[y]?)).getD 0

/-- Traces pairs from the front parts of lengths `x` and `y`, in front of `acc`. -/
def trace (same : α → α → Bool) (left right : Array α) (t : Array (Array Nat)) :
    Nat → Nat → List (Nat × Nat) → List (Nat × Nat)
  | x + 1, y + 1, acc =>
    let equal :=
      match left[x]?, right[y]? with
      | some a, some b => same a b
      | _, _ => false
    if equal then trace same left right t x y ((x, y) :: acc)
    else if entry t (x + 1) y ≤ entry t x (y + 1) then trace same left right t x (y + 1) acc
    else trace same left right t (x + 1) y acc
  | _, _, acc => acc
termination_by x y => x + y

/-- The pairs of positions of a longest common subsequence, in order. -/
def pairs (same : α → α → Bool) (left right : List α) : List (Nat × Nat) :=
  trace same left.toArray right.toArray (table same left right) left.length right.length []

end Dalvik.Diff.Subsequence
