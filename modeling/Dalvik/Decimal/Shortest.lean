import Dalvik.Decimal.Nearest

/-!
# The shortest decimal of a double

The fewest digits that read back as the double, and of those the digits nearest to it. For each
number of digits the two neighbours of the double on that decimal grid are tried, in exact
arithmetic.
-/

namespace Dalvik.Decimal

/-- A positive double: `significand · 2 ^ exponent`. -/
structure Binary where
  significand : Nat
  exponent : Int

/-- The magnitude of a finite double. -/
def Binary.ofBits (bits : UInt64) : Binary :=
  let fraction : Nat := bits.toNat % leadingOne
  let field : Nat := bits.toNat / leadingOne % 2048
  if field = 0 then ⟨fraction, -1074⟩ else ⟨fraction + leadingOne, (field : Int) - 1075⟩

/-- A decimal: the digits, of which the first stands in front of the point, and the exponent. -/
structure Digits where
  digits : List Nat
  exponent : Int
  deriving DecidableEq, Repr

namespace Binary

/-- The factors by which a power of `base` multiplies and divides. -/
def powers (base : Nat) (e : Int) : Nat × Nat :=
  if 0 ≤ e then (Nat.pow base e.toNat, 1) else (1, Nat.pow base (-e).toNat)

/-- The bounds of the reals that round to this double, in quarters of its unit. -/
def bounds (b : Binary) : Nat × Nat :=
  let m := 4 * b.significand
  let gap := if b.significand = leadingOne ∧ -1074 < b.exponent then 1 else 2
  (m - gap, m + 2)

/-- The decimal `d · 10 ^ u` rounds to this double. -/
def readsBack (b : Binary) (d : Nat) (u : Int) : Bool :=
  let (lo, hi) := b.bounds
  let (a, c) := powers 2 (b.exponent - 2)
  let (p, q) := powers 10 u
  let x := d * p * c
  let low := lo * a * q
  let high := hi * a * q
  if b.significand % 2 = 0 then low ≤ x && x ≤ high else low < x && x < high

/-- The exponent of the first decimal digit. -/
def leading (b : Binary) : Int :=
  let (a, c) := powers 2 b.exponent
  let num := b.significand * a
  if c ≤ num then (digitCount (num / c) : Int) - 1
  else
    match (List.range 400).find? fun k => c ≤ num * Nat.pow 10 (k + 1) with
    | some k => -((k : Int) + 1)
    | none => 0

/-- The neighbour with `n` digits that reads back, if one does; of two the nearer one. -/
def withDigits? (b : Binary) (top : Int) (n : Nat) : Option (Nat × Int) :=
  let u := top - n + 1
  let (a, c) := powers 2 b.exponent
  let (p, q) := powers 10 u
  let num := b.significand * a * q
  let den := c * p
  let below := num / den
  let nearer := roundDiv num den
  if b.readsBack nearer u then some (nearer, u)
  else if b.readsBack below u then some (below, u)
  else if b.readsBack (below + 1) u then some (below + 1, u)
  else none

/-- The digits of a number without zeros at the end. -/
def trimmed (d : Nat) : List Nat :=
  let digits := (Nat.toDigits 10 d).map fun c => c.toNat - '0'.toNat
  (digits.reverse.dropWhile (· = 0)).reverse

/-- The shortest decimal of a positive double. -/
def shortest (b : Binary) : Digits :=
  let top := b.leading
  match (List.range 17).findSome? fun n => b.withDigits? top (n + 1) with
  | some (d, u) => ⟨trimmed d, u + digitCount d - 1⟩
  | none => ⟨[0], 0⟩

end Binary

/-! ## Layouts -/

/-- How a decimal is laid out: the exponents that are written positionally, and the least number
of digits of a written exponent. -/
structure Layout where
  lowest : Int
  highest : Int
  exponentDigits : Nat

/-- The characters of some digits. -/
def digitText (digits : List Nat) : String := String.ofList (digits.map Nat.digitChar)

/-- A decimal with an exponent. -/
def Layout.scientific (l : Layout) (d : Digits) : String :=
  let mantissa :=
    match d.digits with
    | [] => "0"
    | [first] => digitText [first]
    | first :: rest => digitText [first] ++ "." ++ digitText rest
  let numeral := toString d.exponent.natAbs
  let zeros := String.ofList (List.replicate (l.exponentDigits - numeral.length) '0')
  mantissa ++ "e" ++ (if d.exponent < 0 then "-" else "+") ++ zeros ++ numeral

/-- A decimal without an exponent. -/
def positional (d : Digits) : String :=
  if d.exponent < 0 then
    "0." ++ String.ofList (List.replicate (d.exponent.natAbs - 1) '0') ++ digitText d.digits
  else
    let whole := d.exponent.toNat + 1
    let front := digitText (d.digits.take whole)
      ++ String.ofList (List.replicate (whole - d.digits.length) '0')
    let back := d.digits.drop whole
    if back.isEmpty then front else front ++ "." ++ digitText back

/-- The text of a finite double. -/
def Layout.text (l : Layout) (f : Float) : String :=
  let bits := f.toBits
  let sign := if 0x8000000000000000 ≤ bits.toNat then "-" else ""
  let b := Binary.ofBits bits
  if b.significand = 0 then sign ++ "0"
  else
    let d := b.shortest
    sign ++ (if l.lowest ≤ d.exponent ∧ d.exponent ≤ l.highest then positional d
      else l.scientific d)

end Dalvik.Decimal
