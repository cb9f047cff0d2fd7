import Dalvik.Diff.Delta

/-!
# Comparing JSON values

Objects are compared key by key. Arrays are compared along a longest common subsequence: items
outside it that are equal have moved, and the others are matched within the gaps between common
items so that the similarity is largest; what then remains has been deleted or added.
-/

namespace Dalvik.Diff

/-- A comparison with a fixed value on the left: the difference from the value on the right, at a
given place, if there is one. -/
abbrev Comparison := Position → Value → Option Delta

/-- An item on the left with the comparison that starts from it. -/
structure LeftItem where
  value : Value
  compare : Comparison

/-- An item outside the common subsequence: its index and the number of common items before it. -/
structure Loose (α : Type) where
  index : Nat
  gap : Nat
  item : α

/-- The items from index `i` on that are not among the common indices; `gap` common items came
before. -/
def loose {α : Type} (i gap : Nat) : List α → List Nat → List (Loose α)
  | [], _ => []
  | a :: rest, [] => ⟨i, gap, a⟩ :: loose (i + 1) gap rest []
  | a :: rest, c :: common =>
    if c = i then loose (i + 1) (gap + 1) rest common
    else ⟨i, gap, a⟩ :: loose (i + 1) gap rest (c :: common)

/-! ## Moved items -/

/-- The first loose item that equals `v`, and the others. -/
def takeEqual (v : Value) : List (Loose Value) → Option (Loose Value × List (Loose Value))
  | [] => none
  | r :: rest =>
    if v.same r.item then some (r, rest)
    else (takeEqual v rest).map fun (found, others) => (found, r :: others)

/-- Pairs loose items on the left with equal ones on the right; what is not paired remains. -/
def takeMoves : List (Loose LeftItem) → List (Loose Value) →
    List Delta × List (Loose LeftItem) × List (Loose Value)
  | [], rights => ([], [], rights)
  | l :: lefts, rights =>
    match takeEqual l.item.value rights with
    | some (r, others) =>
      let (moves, restLeft, restRight) := takeMoves lefts others
      (.moved l.index r.index :: moves, restLeft, restRight)
    | none =>
      let (moves, restLeft, restRight) := takeMoves lefts rights
      (moves, l :: restLeft, restRight)

/-! ## Matching within a gap -/

/-- The larger of two scores; the first one unless it is below the second. -/
def larger (a b : Float) : Float := if a < b then b else a

/-- The best scores for one item on the left against every rear part of the right list, from the
scores without that item. -/
def scoreRow : List Float → List Float → List Float
  | s :: sims, down :: diagonal :: next =>
    let rest := scoreRow sims (diagonal :: next)
    larger (larger down (rest.headD 0)) (s + diagonal) :: rest
  | _, _ => [0]

/-- The table of the best scores of rear parts. -/
def scores (width : Nat) (sims : List (List Float)) : List (List Float) :=
  sims.foldr (fun row below => scoreRow row (below.headD []) :: below)
    [List.replicate (width + 1) 0]

/-- What a matching consists of. -/
structure Matching where
  deltas : Array Delta := #[]
  freeLeft : Array (Loose LeftItem) := #[]
  freeRight : Array (Loose Value) := #[]

/-- The items with the positions `x`, …, `size - 1`, each taken from the place before it. -/
def leftover {α : Type} (items : Array α) (x : Nat) : List α :=
  ((List.range items.size).filter (x ≤ ·)).filterMap fun i => if i = 0 then none else items[i - 1]?

/-- Walks through the table of scores from position `x` on the left and `y` on the right: an item
is left free if that loses nothing and enough items remain, otherwise the two items are matched. -/
def matchFrom (lefts : Array (Loose LeftItem)) (rights : Array (Loose Value))
    (deltas : Array (Array (Option Delta))) (score : Array (Array Float)) (spare : Nat)
    (x y : Nat) (m : Matching) : Matching :=
  if h : x < lefts.size ∧ y < rights.size then
    have hx := h.1
    have hy := h.2
    let best := fun (i j : Nat) => ((score[i]?).bind (·[j]?)).getD 0
    if x + 1 + spare < lefts.size + y ∧ best x y == best (x + 1) y then
      matchFrom lefts rights deltas score spare (x + 1) y
        { m with freeLeft := m.freeLeft.push lefts[x] }
    else if y + 1 + spare < rights.size + x ∧ best x y == best x (y + 1) then
      matchFrom lefts rights deltas score spare x (y + 1)
        { m with freeRight := m.freeRight.push rights[y] }
    else
      let delta := (((deltas[x]?).bind (·[y]?)).join).toArray
      matchFrom lefts rights deltas score spare (x + 1) (y + 1)
        { m with deltas := m.deltas ++ delta }
  else
    { m with
      freeLeft := m.freeLeft ++ leftover lefts x
      freeRight := m.freeRight ++ leftover rights y }
termination_by (lefts.size - x) + (rights.size - y)

/-- Matches the loose items of a gap. -/
def matchGap (lefts : List (Loose LeftItem)) (rights : List (Loose Value)) : Matching :=
  let deltas := lefts.map fun l =>
    rights.map fun r => l.item.compare (.index r.index) r.item
  let sims := deltas.map fun row => row.map fun d => (d.map Delta.similarity).getD 0
  matchFrom lefts.toArray rights.toArray (deltas.map List.toArray).toArray
    ((scores rights.length sims).map List.toArray).toArray
    (min lefts.length rights.length - 1) 0 0 {}

/-- The differences within a gap. -/
def gapDeltas (lefts : List (Loose LeftItem)) (rights : List (Loose Value)) : List Delta :=
  let m : Matching :=
    if lefts.isEmpty ∨ rights.isEmpty then ⟨#[], lefts.toArray, rights.toArray⟩
    else matchGap lefts rights
  m.deltas.toList
    ++ m.freeLeft.toList.map (fun l => .deleted (.index l.index) l.item.value)
    ++ m.freeRight.toList.map (fun r => .added (.index r.index) r.item)

/-- The differences between two arrays. -/
def arrayDeltas (lefts : List LeftItem) (rights : List Value) : List Delta :=
  let common := Subsequence.pairs Value.same (lefts.map (·.value)) rights
  let looseLeft := loose 0 0 lefts (common.map (·.1))
  let looseRight := loose 0 0 rights (common.map (·.2))
  let (moves, restLeft, restRight) := takeMoves looseLeft looseRight
  moves ++ (List.range (common.length + 1)).flatMap fun gap =>
    gapDeltas (restLeft.filter (·.gap = gap)) (restRight.filter (·.gap = gap))

/-! ## Objects and values -/

/-- The differences between two objects. -/
def objectDeltas (lefts : List (String × LeftItem)) (rights : List (String × Value)) :
    List Delta :=
  let kept := lefts.filterMap fun (key, l) =>
    match rights.lookup key with
    | some r => l.compare (.name key) r
    | none => some (.deleted (.name key) l.value)
  let added := rights.filterMap fun (key, r) =>
    if lefts.any (·.1 == key) then none else some (.added (.name key) r)
  kept ++ added

/-- The difference that consists of the differences below, if there are any. -/
def nested? (make : List Delta → Delta) (deltas : List Delta) : Option Delta :=
  if deltas.isEmpty then none else some (make deltas)

mutual

/-- The comparison that starts from a value. -/
def compareWith : Value → Comparison
  | .object fields =>
    let items := comparedFields fields
    fun p right =>
      match right with
      | .object rights => nested? (.object p) (objectDeltas items rights)
      | _ => some (.modified p (.object fields) right)
  | .array values =>
    let items := comparedItems values
    fun p right =>
      match right with
      | .array rights => nested? (.array p) (arrayDeltas items rights)
      | _ => some (.modified p (.array values) right)
  | left => fun p right => if left.same right then none else some (.modified p left right)

/-- The items of an array with their comparisons. -/
def comparedItems : List Value → List LeftItem
  | [] => []
  | v :: rest => ⟨v, compareWith v⟩ :: comparedItems rest

/-- The fields of an object with their comparisons. -/
def comparedFields : List (String × Value) → List (String × LeftItem)
  | [] => []
  | (key, v) :: rest => (key, ⟨v, compareWith v⟩) :: comparedFields rest

end

end Dalvik.Diff
