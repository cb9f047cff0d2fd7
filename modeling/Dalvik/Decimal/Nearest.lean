/-!
# The double nearest to a decimal

A decimal `m · 10 ^ e` is rounded to the nearest double in exact arithmetic; of two doubles that
are equally near, the one with the even significand is taken. A decimal beyond the largest double
has no nearest one.
-/

namespace Dalvik.Decimal

/-- The number of decimal digits of `n`. -/
def digitCount (n : Nat) : Nat := (Nat.toDigits 10 n).length

/-- The quotient `num / den` rounded to the nearest integer, a half to the even neighbour. -/
def roundDiv (num den : Nat) : Nat :=
  let q := num / den
  let r := num % den
  if den < 2 * r ∨ (2 * r = den ∧ q % 2 = 1) then q + 1 else q

/-- The value of the leading one of 53 binary digits. -/
def leadingOne : Nat := 0x10000000000000

/-- The bits of a double are its significand `q` and the exponent `k` of its unit in the last
place; `none` if the exponent is too large. -/
def pack? (q : Nat) (k : Int) : Option UInt64 :=
  if q < leadingOne then some q.toUInt64
  else if 971 < k then none
  else some ((k + 1075).toNat * leadingOne + (q - leadingOne)).toUInt64

/-- The quotient `num / den`, rounded on the grid with unit `2 ^ k`. -/
def scaledRound (num den : Nat) (k : Int) : Nat :=
  if 0 ≤ k then roundDiv num (den * Nat.pow 2 k.toNat)
  else roundDiv (num * Nat.pow 2 (-k).toNat) den

/-- The exponent of the unit of doubles near `num / den`: the quotient has 53 binary digits on
that grid, unless the unit is the least one. -/
def unitExponent (num den : Nat) : Int :=
  let guess : Int := (num.log2 : Int) - den.log2 - 52
  -- the guess can be one too large
  let below : Bool :=
    if 0 ≤ guess then num < den * Nat.pow 2 guess.toNat * leadingOne
    else num * Nat.pow 2 (-guess).toNat < den * leadingOne
  max (if below then guess - 1 else guess) (-1074)

/-- The bits of the double nearest to `num / den`. -/
def nearestBits? (num den : Nat) : Option UInt64 :=
  let k := unitExponent num den
  let q := scaledRound num den k
  if q = 2 * leadingOne then pack? leadingOne (k + 1) else pack? q k

/-- The double nearest to `m · 10 ^ e`, with a sign. -/
def nearest? (negative : Bool) (m : Nat) (e : Int) : Option Float :=
  let size : Int := digitCount m + e
  let magnitude : Option UInt64 :=
    if m = 0 ∨ size < -330 then some 0
    else if 310 < size then none
    else if 0 ≤ e then nearestBits? (m * Nat.pow 10 e.toNat) 1
    else nearestBits? m (Nat.pow 10 (-e).toNat)
  magnitude.map fun bits => Float.ofBits (if negative then bits ||| 0x8000000000000000 else bits)

end Dalvik.Decimal
