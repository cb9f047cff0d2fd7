import Dalvik.Json.Token

/-!
# JSON documents

A document as it is written: objects are lists of fields in their order, with repetitions, and
literals are kept as bytes. The parser is a machine with a stack of the arrays and objects that
are still open; it takes one token at a time.
-/

namespace Dalvik.Json

/-- A JSON value as it is written. -/
inductive Document where
  | null
  | bool (b : Bool)
  | number (literal : List UInt8)
  | string (content : List UInt8)
  | array (items : List Document)
  | object (fields : List (List UInt8 × Document))
  deriving Repr

namespace Document

/-- The document is `null`. -/
def isNull : Document → Bool
  | null => true
  | _ => false

/-- An array or object that is still open; what it holds so far is in reverse. -/
inductive Frame where
  | array (rev : List Document)
  | object (rev : List (List UInt8 × Document)) (key : List UInt8)

/-- What the parser expects next. -/
inductive Expect where
  /-- A value. -/
  | value
  /-- A value, or the end of the array that has just been opened. -/
  | valueOrEnd
  /-- A key, or the end of the object that has just been opened. -/
  | keyOrEnd (rev : List (List UInt8 × Document))
  /-- A key. -/
  | key (rev : List (List UInt8 × Document))
  /-- The colon after a key. -/
  | colon (rev : List (List UInt8 × Document)) (key : List UInt8)
  /-- What may follow the value that has just ended. -/
  | after (v : Document)

/-- The largest number of arrays and objects that are open at a time. -/
def maxDepth : Nat := 10000

/-- The state of the parser: the expectation, the open frames and their number. -/
structure State where
  expect : Expect
  stack : List Frame
  depth : Nat

/-- The state after an array or object has been opened. -/
def enter? (s : State) (expect : Expect) (stack : List Frame) : Option State :=
  if s.depth < maxDepth then some ⟨expect, stack, s.depth + 1⟩ else none

/-- The state after the first token of a value. -/
def beginValue? (s : State) (t : Token) : Option State :=
  match t with
  | .null => some { s with expect := .after .null }
  | .bool b => some { s with expect := .after (.bool b) }
  | .number literal => some { s with expect := .after (.number literal) }
  | .string content => some { s with expect := .after (.string content) }
  | .openArray => enter? s .valueOrEnd (.array [] :: s.stack)
  | .openObject => enter? s (.keyOrEnd []) s.stack
  | _ => none

/-- The state after a value that is an item of the innermost frame, and the token after it. -/
def continueAfter? (s : State) (v : Document) (t : Token) : Option State :=
  match s.stack, t with
  | .array rev :: stack, .comma => some { s with expect := .value, stack := .array (v :: rev) :: stack }
  | .array rev :: stack, .closeArray =>
    some ⟨.after (.array (v :: rev).reverse), stack, s.depth - 1⟩
  | .object rev key :: stack, .comma => some { s with expect := .key ((key, v) :: rev), stack }
  | .object rev key :: stack, .closeObject =>
    some ⟨.after (.object ((key, v) :: rev).reverse), stack, s.depth - 1⟩
  | _, _ => none

/-- One step of the parser. -/
def step? (s : State) (t : Token) : Option State :=
  match s.expect with
  | .value => beginValue? s t
  | .valueOrEnd =>
    match s.stack, t with
    | .array _ :: stack, .closeArray => some ⟨.after (.array []), stack, s.depth - 1⟩
    | _, _ => beginValue? s t
  | .keyOrEnd rev =>
    match t with
    | .closeObject => some ⟨.after (.object []), s.stack, s.depth - 1⟩
    | .string key => some { s with expect := .colon rev key }
    | _ => none
  | .key rev =>
    match t with
    | .string key => some { s with expect := .colon rev key }
    | _ => none
  | .colon rev key =>
    match t with
    | .colon => some { s with expect := .value, stack := .object rev key :: s.stack }
    | _ => none
  | .after v => continueAfter? s v t

/-- Runs the parser over the remaining tokens. -/
def parseFrom (s : State) : List Token → Option Document
  | [] =>
    match s.expect, s.stack with
    | .after v, [] => some v
    | _, _ => none
  | t :: rest =>
    match step? s t with
    | none => none
    | some s' => parseFrom s' rest

/-- The document that a text holds, with nothing but white space around it. -/
def parse? (bytes : List UInt8) : Option Document := do
  parseFrom ⟨.value, [], 0⟩ (← Token.lex? bytes)

end Document

end Dalvik.Json
