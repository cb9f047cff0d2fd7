import Dalvik.Check.Basic

/-!
# Switch and array tables

Switch and fill-array instructions refer to a payload table by a signed offset of 32 bits. The
table has to lie inside the code at an even address, with the right signature, and to be one of
the payload tables that the width scan found. The keys of a sparse switch ascend, and every case
goes to an instruction. The targets of a switch are marked only after all of them were found good.
-/

namespace Dalvik.Check

/-- The address that the instruction at `off` refers to, or `none` if its units are cut off. -/
def tableRef (code : Code) (off : Nat) : Check (Option Int) :=
  if code.size < off + 3 then .ok none
  else (signedPair code (off + 1)).map fun rel => some (off + rel)

/-! ## Switches -/

/-- The shape of a switch table: signature, units of the header, and for a given number of entries
the extent and where in the table the targets start. -/
structure SwitchShape where
  kind : PayloadKind
  header : Nat
  extent : Nat → Nat
  targets : Nat → Nat

/-- The table of a packed switch has no keys beyond the first one. -/
def packedShape : SwitchShape where
  kind := .packedSwitch
  header := 4
  extent := packedSwitchExtent
  targets := fun _ => 4

/-- The table of a sparse switch lists its keys behind the header, then its targets. -/
def sparseShape : SwitchShape where
  kind := .sparseSwitch
  header := 2
  extent := sparseSwitchExtent
  targets := fun entries => 2 + entries * 2

/-- The shape that belongs to a switch instruction. -/
def switchShape? (op : Opcode) : Option SwitchShape :=
  if op = .packedSwitch then some packedShape
  else if op = .sparseSwitch then some sparseShape
  else none

/-- The `n` keys from `i` on are above `last` and ascend. -/
def ascendingKeys (code : Code) (off : Int) (i : Nat) (last : Int) : Nat → Check Unit
  | 0 => .ok ()
  | n + 1 =>
    match signedPair code i with
    | .error h => .error h
    | .ok key =>
      if key ≤ last then refuseAt off (.switchKeys last key)
      else ascendingKeys code off (i + 2) key n

/-- The keys of a table with `entries` entries ascend strictly. -/
def sparseKeys (code : Code) (off : Int) (start entries : Nat) : Check Unit :=
  match entries with
  | 0 | 1 => .ok ()
  | n + 1 =>
    match signedPair code start with
    | .error h => .error h
    | .ok first => ascendingKeys code off (start + 2) first n

/-- The address that case `index` of the switch at `off` goes to, where `i` holds its offset. -/
def caseTarget (m : Method) (t : FlagTable) (off : Int) (index i : Nat) : Check Nat := do
  let rel ← signedPair m.code i
  let target := off + rel
  if !fitsOffset target then refuseAt off (.switchOverflow off rel)
  else if target < 0 ∨ (m.code.size : Int) ≤ target ∨ !t.isOpcode target then
    refuseAt off (.switchTarget rel target off index)
  else return target.toNat

/-- The addresses of `n` cases from case `index` on, added to `acc`. -/
def caseTargets (m : Method) (t : FlagTable) (off : Int) (index i : Nat) :
    Nat → Array Nat → Check (Array Nat)
  | 0, acc => .ok acc
  | n + 1, acc =>
    match caseTarget m t off index i with
    | .error h => .error h
    | .ok target => caseTargets m t off (index + 1) (i + 2) n (acc.push target)

/-- The start and the number of entries of the table of the switch at `off`, after all checks on
the table as a whole. -/
def switchTable (m : Method) (t : FlagTable) (off : Int) (shape : SwitchShape) (tableStart : Int) :
    Check (Nat × Nat) := do
  let units := m.code.size
  let rel := tableStart - off
  if tableStart < 0 ∨ (units : Int) < tableStart + shape.header then
    refuseAt off (.switchStart off rel units)
  let start := tableStart.toNat
  if start % 2 ≠ 0 then refuseAt off (.switchUnaligned off rel)
  let found ← unit m.code start
  if found ≠ shape.kind.signature then
    refuseAt off (.switchSignature found shape.kind.signature)
  let entries := (← unit m.code (start + 1)).toNat
  let extent := shape.extent entries
  if units < start + extent then refuseAt off (.switchEnd off rel (start + extent) units)
  let recorded := (← word t start).width
  if recorded = 0 ∨ recorded ≠ extent then refuseAt off (.switchTable start extent recorded)
  return (start, entries)

/-- The addresses that the switch at `off` goes to, if all of them are legal. -/
def switchTargets (m : Method) (t : FlagTable) (off : Int) : Check (List Nat) := do
  covered m t
  instructionAt t .switchCheck off
  let op := Opcode.ofUnit (← unit m.code off.toNat)
  match switchShape? op with
  | none => refuseAt off .notSwitch
  | some shape =>
    match ← tableRef m.code off.toNat with
    | none => refuseAt off .switchCut
    | some tableStart =>
      let (start, entries) ← switchTable m t off shape tableStart
      if shape.kind = .sparseSwitch then
        sparseKeys m.code off (start + shape.header) entries
      let targets ← caseTargets m t off 0 (start + shape.targets entries) entries #[]
      return targets.toList

/-- Checks the switch at `off` and marks its targets: either all of them or none. -/
def switch (m : Method) (off : Int) (t : FlagTable) : Check Unit × FlagTable :=
  match switchTargets m t off with
  | .error h => (.error h, t)
  | .ok targets => markAll t .branchTarget targets

/-! ## Array data -/

/-- The table of the fill-array instruction at `off`. -/
def arrayTable (m : Method) (t : FlagTable) (off tableStart : Int) : Check Unit := do
  let units := m.code.size
  let rel := tableStart - off
  if tableStart < 0 ∨ (units : Int) < tableStart + 4 then
    refuseAt off (.arrayStart off rel units)
  let start := tableStart.toNat
  if start % 2 ≠ 0 then refuseAt off (.arrayUnaligned off rel)
  let found ← unit m.code start
  if found ≠ PayloadKind.arrayData.signature then refuseAt off (.arraySignature found)
  let elementWidth ← unit m.code (start + 1)
  let low ← unit m.code (start + 2)
  let high ← unit m.code (start + 3)
  let extent := arrayDataExtent elementWidth.toNat (joinUnits low high).toNat
  if units < start + extent then refuseAt off (.arrayEnd off rel (start + extent) units)
  let recorded := (← word t start).width
  if recorded = 0 ∨ recorded ≠ extent then refuseAt off (.arrayTable start extent recorded)

/-- Checks the fill-array instruction at `off`. -/
def arrayData (m : Method) (t : FlagTable) (off : Int) : Check Unit := do
  covered m t
  instructionAt t .arrayCheck off
  let op := Opcode.ofUnit (← unit m.code off.toNat)
  if op ≠ .fillArrayData then refuseAt off .notFillArray
  match ← tableRef m.code off.toNat with
  | none => refuseAt off .arrayCut
  | some tableStart => arrayTable m t off tableStart

end Dalvik.Check
