/-!
# Edit distance

The least number of insertions, deletions and replacements of single items that turn one list
into another. The distances to all front parts of the second list are kept as a row, which is
brought up to date item by item of the first list.
-/

namespace Dalvik.Text.Distance

variable {α : Type} [DecidableEq α]

/-- The distances after one more item `a` of the first list. `row` holds those before it, from the
front part of the second list that ends before `bs`; `last` is the new distance to that part. -/
def extendRow (a : α) : List α → List Nat → Nat → List Nat
  | b :: bs, diagonal :: up :: row, last =>
    let here := if a = b then diagonal else min (min up last) diagonal + 1
    here :: extendRow a bs (up :: row) here
  | _, _, _ => []

/-- The row after one more item of the first list. -/
def nextRow (target : List α) (row : List Nat) (a : α) : List Nat :=
  let first := row.headD 0 + 1
  first :: extendRow a target row first

/-- The edit distance of two lists. -/
def between (source target : List α) : Nat :=
  (source.foldl (nextRow target) (List.range (target.length + 1))).getLastD 0

end Dalvik.Text.Distance
