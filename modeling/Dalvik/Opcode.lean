/-!
# The instruction set

The low byte of the first code unit of an instruction is its opcode. An opcode fixes the name,
the format (and so the number of code units) and the ways in which control can leave the
instruction. `Opcode.table` lists all 256 values in order; values that no instruction uses have
the format `unused`, whose width is zero.
-/

namespace Dalvik

/-! ## Formats -/

/-- Instruction formats. The first digit of a format's label is its width in code units. -/
inductive Format where
  | unused
  | f10x | f12x | f11n | f11x | f10t
  | f20t | f22x | f21t | f21s | f21h | f21c | f23x | f22b | f22t | f22s | f22c
  | f32x | f30t | f31t | f31i | f31c | f35c | f3rc
  | f51l
  deriving DecidableEq, Repr

namespace Format

/-- All formats in the order of their numbers. -/
def all : List Format :=
  [unused, f10x, f12x, f11n, f11x, f10t, f20t, f22x, f21t, f21s, f21h, f21c, f23x, f22b, f22t,
    f22s, f22c, f32x, f30t, f31t, f31i, f31c, f35c, f3rc, f51l]

/-- The format with a given number. -/
def ofNumber? (n : Nat) : Option Format := all[n]?

/-- The identifier of a format. -/
def label : Format → String
  | unused => "--"
  | f10x => "10x" | f12x => "12x" | f11n => "11n" | f11x => "11x" | f10t => "10t"
  | f20t => "20t" | f22x => "22x" | f21t => "21t" | f21s => "21s" | f21h => "21h"
  | f21c => "21c" | f23x => "23x" | f22b => "22b" | f22t => "22t" | f22s => "22s"
  | f22c => "22c" | f32x => "32x" | f30t => "30t" | f31t => "31t" | f31i => "31i"
  | f31c => "31c" | f35c => "35c" | f3rc => "3rc" | f51l => "51l"

/-- The number of code units of an instruction in this format; zero for `unused`. -/
def width : Format → Nat
  | unused => 0
  | f10x | f12x | f11n | f11x | f10t => 1
  | f20t | f22x | f21t | f21s | f21h | f21c | f23x | f22b | f22t | f22s | f22c => 2
  | f32x | f30t | f31t | f31i | f31c | f35c | f3rc => 3
  | f51l => 5

/-- Label and width of the format with number `n`; a number without format has label `??`. -/
def describe (n : Nat) : String × Nat :=
  match ofNumber? n with
  | some f => (f.label, f.width)
  | none => ("??", 0)

end Format

/-! ## Control flow -/

/-- The ways in which control can leave an instruction. -/
structure Flow where
  branches : Bool := false
  continues : Bool := false
  switches : Bool := false
  throws : Bool := false
  returns : Bool := false
  invokes : Bool := false
  deriving DecidableEq, Repr

namespace Flow

/-- Falls through to the next instruction. -/
def next : Flow := { continues := true }

/-- Falls through or throws. -/
def nextOrThrow : Flow := { continues := true, throws := true }

/-- Leaves the method. -/
def leave : Flow := { returns := true }

/-- Can leave the straight line: a point at which a collection may have to run. -/
def leavesLine (f : Flow) : Bool := f.branches || f.switches || f.throws || f.returns

/-- The capabilities as a bit set, in the order of the fields. -/
def bits (f : Flow) : Nat :=
  f.branches.toNat + 2 * f.continues.toNat + 4 * f.switches.toNat + 8 * f.throws.toNat
    + 16 * f.returns.toNat + 32 * f.invokes.toNat

end Flow

/-! ## The table -/

/-- What the instruction set says about one opcode. -/
structure OpcodeInfo where
  name : String
  format : Format
  flow : Flow
  deriving DecidableEq, Repr

namespace OpcodeInfo

/-- The entry of a value that no instruction uses. -/
def unused : OpcodeInfo := ⟨"unused", .unused, {}⟩

/-- Consecutive opcodes that differ in their names only. -/
def run (format : Format) (flow : Flow) (names : List String) : List OpcodeInfo :=
  names.map fun name => ⟨name, format, flow⟩

end OpcodeInfo

/-- An opcode: the low byte of the first code unit of an instruction. -/
structure Opcode where
  value : UInt8
  deriving DecidableEq, Repr

namespace Opcode

open OpcodeInfo (run)

/-- Moves, returns, constants and object instructions, `0x00` to `0x27`. -/
def plain : List OpcodeInfo :=
  [⟨"nop", .f10x, .next⟩,
    ⟨"move", .f12x, .next⟩, ⟨"move/from16", .f22x, .next⟩, ⟨"move/16", .f32x, .next⟩,
    ⟨"move-wide", .f12x, .next⟩, ⟨"move-wide/from16", .f22x, .next⟩,
    ⟨"move-wide/16", .f32x, .next⟩,
    ⟨"move-object", .f12x, .next⟩, ⟨"move-object/from16", .f22x, .next⟩,
    ⟨"move-object/16", .f32x, .next⟩]
  ++ run .f11x .next ["move-result", "move-result-wide", "move-result-object", "move-exception"]
  ++ [⟨"return-void", .f10x, .leave⟩]
  ++ run .f11x .leave ["return", "return-wide", "return-object"]
  ++ [⟨"const/4", .f11n, .next⟩, ⟨"const/16", .f21s, .next⟩, ⟨"const", .f31i, .next⟩,
    ⟨"const/high16", .f21h, .next⟩, ⟨"const-wide/16", .f21s, .next⟩,
    ⟨"const-wide/32", .f31i, .next⟩, ⟨"const-wide", .f51l, .next⟩,
    ⟨"const-wide/high16", .f21h, .next⟩,
    ⟨"const-string", .f21c, .nextOrThrow⟩, ⟨"const-string/jumbo", .f31c, .nextOrThrow⟩,
    ⟨"const-class", .f21c, .nextOrThrow⟩,
    ⟨"monitor-enter", .f11x, .nextOrThrow⟩, ⟨"monitor-exit", .f11x, .nextOrThrow⟩,
    ⟨"check-cast", .f21c, .nextOrThrow⟩, ⟨"instance-of", .f22c, .nextOrThrow⟩,
    ⟨"array-length", .f12x, .nextOrThrow⟩, ⟨"new-instance", .f21c, .nextOrThrow⟩,
    ⟨"new-array", .f22c, .nextOrThrow⟩, ⟨"filled-new-array", .f35c, .nextOrThrow⟩,
    ⟨"filled-new-array/range", .f3rc, .nextOrThrow⟩, ⟨"fill-array-data", .f31t, .nextOrThrow⟩,
    ⟨"throw", .f11x, { throws := true }⟩]

/-- Gotos, switches, comparisons and conditional branches, `0x28` to `0x3d`. -/
def transfers : List OpcodeInfo :=
  [⟨"goto", .f10t, { branches := true }⟩, ⟨"goto/16", .f20t, { branches := true }⟩,
    ⟨"goto/32", .f30t, { branches := true }⟩]
  ++ run .f31t { switches := true, continues := true } ["packed-switch", "sparse-switch"]
  ++ run .f23x .next ["cmpl-float", "cmpg-float", "cmpl-double", "cmpg-double", "cmp-long"]
  ++ run .f22t { branches := true, continues := true }
    ["if-eq", "if-ne", "if-lt", "if-ge", "if-gt", "if-le"]
  ++ run .f21t { branches := true, continues := true }
    ["if-eqz", "if-nez", "if-ltz", "if-gez", "if-gtz", "if-lez"]

/-- The element kinds that field and array accesses distinguish. -/
def kinds : List String := ["", "-wide", "-object", "-boolean", "-byte", "-char", "-short"]

/-- Reads, then writes, of every element kind. -/
def accesses (format : Format) (read write : String) : List OpcodeInfo :=
  run format .nextOrThrow (kinds.map (read ++ ·) ++ kinds.map (write ++ ·))

/-- The five ways to call a method. -/
def calls : List String :=
  ["invoke-virtual", "invoke-super", "invoke-direct", "invoke-static", "invoke-interface"]

/-- Negations and conversions, `0x7b` to `0x8f`. -/
def unary : List String :=
  ["neg-int", "not-int", "neg-long", "not-long", "neg-float", "neg-double",
    "int-to-long", "int-to-float", "int-to-double", "long-to-int", "long-to-float",
    "long-to-double", "float-to-int", "float-to-long", "float-to-double",
    "double-to-int", "double-to-long", "double-to-float", "int-to-byte",
    "int-to-char", "int-to-short"]

/-- An arithmetic instruction; integer division and remainder throw on a zero divisor. -/
def arithmetic (format : Format) (ending : String) (operation : String) : OpcodeInfo :=
  let divides := ["div-int", "rem-int", "div-long", "rem-long"].contains operation
  ⟨operation ++ ending, format, if divides then .nextOrThrow else .next⟩

/-- The binary operations in the order of their opcodes. -/
def binary : List String :=
  ["add-int", "sub-int", "mul-int", "div-int", "rem-int", "and-int", "or-int",
    "xor-int", "shl-int", "shr-int", "ushr-int", "add-long", "sub-long", "mul-long",
    "div-long", "rem-long", "and-long", "or-long", "xor-long", "shl-long", "shr-long",
    "ushr-long", "add-float", "sub-float", "mul-float", "div-float", "rem-float",
    "add-double", "sub-double", "mul-double", "div-double", "rem-double"]

/-- Operations with a literal of 16 bits; `rsub-int` has no other form and keeps its bare name. -/
def literal16 : List OpcodeInfo :=
  [arithmetic .f22s "/lit16" "add-int", arithmetic .f22s "" "rsub-int"]
  ++ ["mul-int", "div-int", "rem-int", "and-int", "or-int", "xor-int"].map
    (arithmetic .f22s "/lit16")

/-- Operations with a literal of 8 bits. -/
def literal8 : List OpcodeInfo :=
  ["add-int", "rsub-int", "mul-int", "div-int", "rem-int", "and-int", "or-int", "xor-int",
    "shl-int", "shr-int", "ushr-int"].map (arithmetic .f22b "/lit8")

/-- The entries of all 256 opcodes, in order. -/
def table : List OpcodeInfo :=
  plain ++ transfers
  ++ List.replicate 6 .unused
  ++ accesses .f23x "aget" "aput" ++ accesses .f22c "iget" "iput" ++ accesses .f21c "sget" "sput"
  ++ run .f35c { continues := true, throws := true, invokes := true } calls
  ++ [.unused]
  ++ run .f3rc { continues := true, throws := true, invokes := true } (calls.map (· ++ "/range"))
  ++ List.replicate 2 .unused
  ++ run .f12x .next unary
  ++ binary.map (arithmetic .f23x "") ++ binary.map (arithmetic .f12x "/2addr")
  ++ literal16 ++ literal8
  ++ List.replicate 29 .unused

/-- The table has an entry for every value of a byte. -/
theorem length_table : table.length = 256 := by decide +kernel

/-- The table as an array, for access by value. -/
def entries : Array OpcodeInfo := table.toArray

theorem size_entries : entries.size = 256 := by
  rw [entries, List.size_toArray, length_table]

theorem value_lt_size (op : Opcode) : op.value.toNat < entries.size := by
  rw [size_entries]
  exact op.value.toNat_lt

/-- What the instruction set says about `op`. -/
def info (op : Opcode) : OpcodeInfo :=
  have := op.value_lt_size
  entries[op.value.toNat]

/-- The name of `op`, or `unused`. -/
def name (op : Opcode) : String := op.info.name

/-- The format of `op`. -/
def format (op : Opcode) : Format := op.info.format

/-- How control can leave `op`. -/
def flow (op : Opcode) : Flow := op.info.flow

/-- The fixed width of `op` in code units, zero if the value is unused. -/
def width (op : Opcode) : Nat := op.format.width

/-- The value belongs to an instruction. -/
def isAssigned (op : Opcode) : Bool := op.format != .unused

/-! ## The opcodes that the checks single out -/

/-- The opcode `nop`, which payload tables extend. -/
def nop : Opcode := ⟨0x00⟩
/-- The opcode `new-instance`. -/
def newInstance : Opcode := ⟨0x22⟩
/-- The opcode `fill-array-data`. -/
def fillArrayData : Opcode := ⟨0x26⟩
/-- The opcode `goto`, with an offset of 8 bits. -/
def goto8 : Opcode := ⟨0x28⟩
/-- The opcode `goto/16`. -/
def goto16 : Opcode := ⟨0x29⟩
/-- The opcode `goto/32`. -/
def goto32 : Opcode := ⟨0x2a⟩
/-- The opcode `packed-switch`. -/
def packedSwitch : Opcode := ⟨0x2b⟩
/-- The opcode `sparse-switch`. -/
def sparseSwitch : Opcode := ⟨0x2c⟩

/-- The opcode in the first code unit of an instruction. -/
def ofUnit (unit : UInt16) : Opcode := ⟨unit.toUInt8⟩

/-- Allocates an object that is not initialized yet. -/
def isAllocation (op : Opcode) : Bool := op == newInstance

/-- A `goto` or `if` instruction, which has one target. -/
def isBranch (op : Opcode) : Bool := op.flow.branches

/-- A packed or sparse switch. -/
def isSwitch (op : Opcode) : Bool := op == packedSwitch || op == sparseSwitch

end Opcode

end Dalvik
