/-!
# Integer literals

A sign, a base and digits. The base is given by `0b`, `0o` or `0x`, or by a leading zero for base
eight, and is ten otherwise. Single underscores may stand between digits and after a base. The
value has to fit into 64 bits with a sign.
-/

namespace Dalvik.Text.Integer

/-- Why a text is no integer. -/
inductive Fault where
  | malformed
  | outOfRange
  deriving DecidableEq, Repr

/-- The wording of a fault. -/
def Fault.message : Fault → String
  | malformed => "invalid syntax"
  | outOfRange => "value out of range"

/-- The value of a digit, letters of either case going on after nine. -/
def digit? (c : Char) : Option Nat :=
  if c.isDigit then some (c.toNat - '0'.toNat)
  else if c.isAlpha then some (c.toLower.toNat - 'a'.toNat + 10)
  else none

/-- The base that a character after a zero stands for. -/
def baseOf? (c : Char) : Option Nat :=
  match c.toLower with
  | 'b' => some 2
  | 'o' => some 8
  | 'x' => some 16
  | _ => none

/-- The base of a literal without sign, whether it is written out, and the digits. -/
def splitBase : List Char → Nat × Bool × List Char
  | '0' :: c :: d :: rest =>
    match baseOf? c with
    | some base => (base, true, d :: rest)
    | none => (8, false, c :: d :: rest)
  | '0' :: rest => (8, false, rest)
  | s => (10, false, s)

/-- The number that digits spell after those of `n`, underscores left out. A number of more than
64 bits is found before a character that is no digit. -/
def value (base n : Nat) : List Char → Except Fault Nat
  | [] => .ok n
  | c :: rest =>
    if c = '_' then value base n rest
    else
      match digit? c with
      | none => .error .malformed
      | some d =>
        if base ≤ d then .error .malformed
        else if 0x10000000000000000 ≤ n * base + d then .error .outOfRange
        else value base (n * base + d) rest

/-- Every underscore stands between digits; `afterDigit` tells what came before. -/
def isSeparated (afterDigit : Bool) : List Char → Bool
  | [] => true
  | c :: rest =>
    if c = '_' then afterDigit && !rest.isEmpty && isSeparated false rest
    else isSeparated true rest

/-- The number that a literal without sign spells. -/
def magnitude (s : List Char) : Except Fault Nat :=
  if s.isEmpty then .error .malformed
  else do
    let (base, written, digits) := splitBase s
    let n ← value base 0 digits
    if isSeparated written (if written then digits else s) then return n else throw .malformed

/-- The integer that a literal spells. -/
def parse (s : String) : Except Fault Int := do
  let (negative, unsigned) :=
    match s.toList with
    | '+' :: rest => (false, rest)
    | '-' :: rest => (true, rest)
    | rest => (false, rest)
  let n ← magnitude unsigned
  if negative then
    if 0x8000000000000000 < n then throw .outOfRange else return -(n : Int)
  else
    if 0x8000000000000000 ≤ n then throw .outOfRange else return n

end Dalvik.Text.Integer
