import Dalvik.Check.Basic

/-!
# Try blocks

Every try block has to cover whole instructions inside the code, and every handler has to start
at an instruction. The units of a block are marked as soon as the block is found good.
-/

namespace Dalvik.Check

/-- The bounds of the try block with the given index. -/
def tryBounds (m : Method) (t : FlagTable) (index : Nat) (b : TryBlock) : Check Unit :=
  let start := b.start.toNat
  let units := m.code.size
  if b.stop ≤ start ∨ units ≤ start ∨ units < b.stop then
    refuse (.tryBounds index start b.stop units)
  else if !t.isOpcode start then refuseAt start (.tryStart start)
  else if b.stop ≠ units ∧ !t.isOpcode b.stop then refuseAt b.stop (.tryEnd b.stop)
  else .ok ()

/-- Checks the blocks in order and marks the units of each good one. -/
def markTries (m : Method) : Nat → List TryBlock → FlagTable → Check Unit × FlagTable
  | _, [], t => (.ok (), t)
  | index, b :: rest, t =>
    match tryBounds m t index b with
    | .error h => (.error h, t)
    | .ok () =>
      if b.stop ≤ t.size then
        markTries m (index + 1) rest (t.markRange .inTry b.start.toNat b.count.toNat)
      else (.error .outOfRange, t)

/-- A handler starts at an instruction. -/
def handler (m : Method) (t : FlagTable) (h : CatchHandler) : Check Unit :=
  let addr := h.addr.toNat
  if m.code.size ≤ addr ∨ !t.isOpcode addr then refuse (.handlerAddress addr) else .ok ()

/-- All handlers of a list start at instructions. -/
def handlers (m : Method) (t : FlagTable) : List CatchHandler → Check Unit
  | [] => .ok ()
  | h :: rest =>
    match handler m t h with
    | .error e => .error e
    | .ok () => handlers m t rest

/-- Marks the units inside try blocks and checks every handler. -/
def tries (m : Method) (t : FlagTable) : Check Unit × FlagTable :=
  match covered m t with
  | .error h => (.error h, t)
  | .ok () =>
    match markTries m 0 m.tries t with
    | (.error h, t') => (.error h, t')
    | (.ok (), t') => (handlers m t' m.allHandlers.flatten, t')

end Dalvik.Check
