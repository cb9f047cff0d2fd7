import Dalvik.Bytes.Utf8

/-!
# JSON tokens

The lexical part of JSON over bytes. A token of a number or a string keeps the bytes of the
literal as they stand (for a string those between the quotes), so that nothing is lost before
somebody asks for a value. The lexer is a machine that takes one byte at a time.
-/

namespace Dalvik.Json

/-- A lexical unit. -/
inductive Token where
  | openObject
  | closeObject
  | openArray
  | closeArray
  | colon
  | comma
  | null
  | bool (b : Bool)
  | number (literal : List UInt8)
  | string (content : List UInt8)
  deriving DecidableEq, Repr

namespace Token

/-! ## Bytes -/

/-- White space between tokens. -/
def isSpace (b : UInt8) : Bool := b == 0x20 || b == 0x09 || b == 0x0a || b == 0x0d

/-- A decimal digit. -/
def isDigit (b : UInt8) : Bool := 0x30 ≤ b && b ≤ 0x39

/-- A hexadecimal digit. -/
def isHexDigit (b : UInt8) : Bool :=
  isDigit b || (0x61 ≤ b && b ≤ 0x66) || (0x41 ≤ b && b ≤ 0x46)

/-- A byte that occurs in numbers. -/
def isNumeric (b : UInt8) : Bool :=
  isDigit b || b == 0x2d || b == 0x2b || b == 0x2e || b == 0x65 || b == 0x45

/-- A small letter, of which the words `null`, `true` and `false` consist. -/
def isLetter (b : UInt8) : Bool := 0x61 ≤ b && b ≤ 0x7a

/-! ## Numbers -/

/-- The part of a number literal that has been read. -/
inductive NumberPart where
  | start | minus | zero | whole | point | fraction | mark | sign | exponent

/-- The part after one more byte. -/
def NumberPart.next? (p : NumberPart) (b : UInt8) : Option NumberPart :=
  let afterWhole : Option NumberPart :=
    if b == 0x2e then some point else if b == 0x65 || b == 0x45 then some mark else none
  match p with
  | start =>
    if b == 0x2d then some minus else if b == 0x30 then some zero
    else if isDigit b then some whole else none
  | minus => if b == 0x30 then some zero else if isDigit b then some whole else none
  | zero => afterWhole
  | whole => if isDigit b then some whole else afterWhole
  | point => if isDigit b then some fraction else none
  | fraction =>
    if isDigit b then some fraction else if b == 0x65 || b == 0x45 then some mark else none
  | mark =>
    if b == 0x2d || b == 0x2b then some sign else if isDigit b then some exponent else none
  | sign => if isDigit b then some exponent else none
  | exponent => if isDigit b then some exponent else none

/-- A literal may end after this part. -/
def NumberPart.final : NumberPart → Bool
  | zero | whole | fraction | exponent => true
  | _ => false

/-- The bytes are a number, from a given part on. -/
def isNumberFrom : NumberPart → List UInt8 → Bool
  | p, [] => p.final
  | p, b :: rest =>
    match p.next? b with
    | some q => isNumberFrom q rest
    | none => false

/-- The bytes are a number: an optional sign, digits without needless zeros, an optional fraction
and an optional exponent. -/
def isNumber (literal : List UInt8) : Bool := isNumberFrom .start literal

/-! ## Words -/

/-- The token of a word. -/
def ofWord? (word : List UInt8) : Option Token :=
  if word = [0x6e, 0x75, 0x6c, 0x6c] then some .null
  else if word = [0x74, 0x72, 0x75, 0x65] then some (.bool true)
  else if word = [0x66, 0x61, 0x6c, 0x73, 0x65] then some (.bool false)
  else none

/-- The token of a single byte. -/
def ofMark? (b : UInt8) : Option Token :=
  if b == 0x7b then some openObject
  else if b == 0x7d then some closeObject
  else if b == 0x5b then some openArray
  else if b == 0x5d then some closeArray
  else if b == 0x3a then some colon
  else if b == 0x2c then some comma
  else none

/-! ## The lexer -/

/-- Where the lexer is inside a string: between characters, after a backslash, or with some
digits of an escape still to come. -/
inductive StringPart where
  | plain
  | escape
  | digits (left : Nat)

/-- What the lexer is in the middle of; partial literals are in reverse. -/
inductive Mode where
  | between
  | inNumber (rev : List UInt8)
  | inWord (rev : List UInt8)
  | inString (part : StringPart) (rev : List UInt8)

/-- A byte that may follow a backslash, the mark of an escape by number apart. -/
def isEscape (b : UInt8) : Bool :=
  b == 0x22 || b == 0x5c || b == 0x2f || b == 0x62 || b == 0x66 || b == 0x6e || b == 0x72
    || b == 0x74

/-- The part of a string after one more byte, which does not end the string. -/
def StringPart.next? (p : StringPart) (b : UInt8) : Option StringPart :=
  match p with
  | plain => if b < 0x20 then none else if b == 0x5c then some escape else some plain
  | escape => if b == 0x75 then some (digits 4) else if isEscape b then some plain else none
  | digits left =>
    if isHexDigit b then some (if left ≤ 1 then plain else digits (left - 1)) else none

/-- What a byte between tokens starts: a mode, and the tokens that are complete. -/
def begin? (tokens : Array Token) (b : UInt8) : Option (Mode × Array Token) :=
  if isSpace b then some (.between, tokens)
  else if b == 0x22 then some (.inString .plain [], tokens)
  else if isNumeric b then some (.inNumber [b], tokens)
  else if isLetter b then some (.inWord [b], tokens)
  else (ofMark? b).map fun t => (.between, tokens.push t)

/-- The tokens, with the number or word that has just ended. -/
def finish? (tokens : Array Token) : Mode → Option (Array Token)
  | .between => some tokens
  | .inNumber rev =>
    let literal := rev.reverse
    if isNumber literal then some (tokens.push (.number literal)) else none
  | .inWord rev => (ofWord? rev.reverse).map tokens.push
  | .inString .. => none

/-- One step of the lexer. -/
def step? (mode : Mode) (tokens : Array Token) (b : UInt8) : Option (Mode × Array Token) :=
  match mode with
  | .between => begin? tokens b
  | .inNumber rev =>
    if isNumeric b then some (.inNumber (b :: rev), tokens)
    else do begin? (← finish? tokens mode) b
  | .inWord rev =>
    if isLetter b then some (.inWord (b :: rev), tokens)
    else do begin? (← finish? tokens mode) b
  | .inString .plain rev =>
    if b == 0x22 then some (.between, tokens.push (.string rev.reverse))
    else (StringPart.next? .plain b).map fun p => (.inString p (b :: rev), tokens)
  | .inString part rev => (part.next? b).map fun p => (.inString p (b :: rev), tokens)

/-- Runs the lexer over the remaining bytes. -/
def lexFrom (mode : Mode) (tokens : Array Token) : List UInt8 → Option (Array Token)
  | [] => finish? tokens mode
  | b :: rest =>
    match step? mode tokens b with
    | none => none
    | some (mode', tokens') => lexFrom mode' tokens' rest

/-- The tokens of a text. -/
def lex? (bytes : List UInt8) : Option (List Token) := (lexFrom .between #[] bytes).map (·.toList)

end Token

end Dalvik.Json
