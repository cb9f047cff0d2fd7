import Dalvik.Payload

/-!
# Flag tables

One 32-bit word per code unit, shared between the passes. Bits 0 to 15 hold the width of the
instruction that starts at the unit (zero if none does); single bits hold marks. The width and
every mark are fields of their own: writing one leaves all others alone.
-/

namespace Dalvik

/-! ## Words -/

/-- The marks of a flag word. The last two belong to the dataflow analysis. -/
inductive Mark where
  | inTry
  | branchTarget
  | gcPoint
  | visited
  | changed
  deriving DecidableEq, Repr

/-- The bit that holds a mark. -/
def Mark.bit : Mark → Nat
  | inTry => 16
  | branchTarget => 17
  | gcPoint => 18
  | visited => 30
  | changed => 31

/-- The word that holds nothing but a mark. -/
def Mark.mask (m : Mark) : BitVec 32 := 1#32 <<< m.bit

/-- The flags of one code unit. -/
structure FlagWord where
  bits : BitVec 32
  deriving DecidableEq, Repr

namespace FlagWord

/-- The word without any flag. -/
def zero : FlagWord := ⟨0#32⟩

/-- The bits of the width field. -/
def widthMask : BitVec 32 := 0x0000ffff#32

/-- The bits that a width scan starts from zero: the width, `inTry` and `branchTarget`. -/
def scanMask : BitVec 32 := widthMask ||| Mark.inTry.mask ||| Mark.branchTarget.mask

/-- The largest width that the width field can hold. -/
def maxWidth : Nat := 0xffff

/-- The width of the instruction that starts here, or zero. -/
def width (w : FlagWord) : Nat := (w.bits &&& widthMask).toNat

/-- An instruction starts here. -/
def isOpcode (w : FlagWord) : Bool := w.width != 0

/-- The word carries the mark. -/
def has (w : FlagWord) (m : Mark) : Bool := w.bits &&& m.mask != 0#32

/-- The word with the mark set or cleared. -/
def put (w : FlagWord) (m : Mark) (on : Bool) : FlagWord :=
  if on then ⟨w.bits ||| m.mask⟩ else ⟨w.bits &&& ~~~m.mask⟩

/-- The word with another width, taken modulo 2^16. -/
def setWidth (w : FlagWord) (width : Int) : FlagWord :=
  ⟨(w.bits &&& ~~~widthMask) ||| (BitVec.ofInt 32 width &&& widthMask)⟩

/-- The word without the bits that a width scan writes. -/
def reset (w : FlagWord) : FlagWord := ⟨w.bits &&& ~~~scanMask⟩

end FlagWord

/-! ## Tables -/

/-- One flag word per code unit. -/
structure FlagTable where
  words : Array FlagWord
  deriving DecidableEq, Repr

namespace FlagTable

/-- A table of `n` words without flags. -/
def blank (n : Nat) : FlagTable := ⟨Array.replicate n .zero⟩

/-- The number of words. -/
def size (t : FlagTable) : Nat := t.words.size

/-- The table has one word for every unit of the code. -/
def covers (t : FlagTable) (code : Code) : Bool := t.size == code.size

/-- The word at an offset of any sign. -/
def word? (t : FlagTable) : Int → Option FlagWord
  | .ofNat i => t.words[i]?
  | .negSucc _ => none

/-- An instruction starts at `off`; never true outside the table. -/
def isOpcode (t : FlagTable) (off : Int) : Bool := (t.word? off).any (·.isOpcode)

/-- The table with `f` applied to the word at `i`; unchanged if it has none there. -/
def modify (t : FlagTable) (i : Nat) (f : FlagWord → FlagWord) : FlagTable := ⟨t.words.modify i f⟩

/-- The table with `f` applied to the word at `off`, if the table has one there. -/
def update? (t : FlagTable) (off : Int) (f : FlagWord → FlagWord) : Option FlagTable :=
  match off with
  | .ofNat i => if i < t.size then some (t.modify i f) else none
  | .negSucc _ => none

/-- The table with a mark set at `i`. -/
def mark (t : FlagTable) (m : Mark) (i : Nat) : FlagTable := t.modify i (·.put m true)

/-- The table with a mark set at the `n` units from `i` on. -/
def markRange (t : FlagTable) (m : Mark) (i : Nat) : Nat → FlagTable
  | 0 => t
  | n + 1 => markRange (t.mark m i) m (i + 1) n

/-- The table without the bits that a width scan writes. -/
def reset (t : FlagTable) : FlagTable := ⟨t.words.map FlagWord.reset⟩

/-- The address after the instruction at `off`. -/
def next? (t : FlagTable) (off : Int) : Option Int :=
  (t.word? off).map fun w => off + w.width

end FlagTable

end Dalvik
