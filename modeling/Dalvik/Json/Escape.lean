import Dalvik.Text.Number

/-!
# JSON string literals

Quotes, backslashes, control characters and the two line separators are always escaped. Writers
differ in which control characters have a short escape and in whether the characters that have a
meaning in markup are escaped as well.
-/

namespace Dalvik.Json

/-- What a writer of string literals decides. -/
structure Escapes where
  /-- `<`, `>` and `&` are escaped. -/
  markup : Bool
  /-- Backspace and form feed have short escapes. -/
  shortFeeds : Bool

/-- Literals in documents. -/
def Escapes.document : Escapes := ⟨true, true⟩

/-- Literals in log lines. -/
def Escapes.logLine : Escapes := ⟨false, false⟩

/-- The characters that stand for `c` inside a literal. -/
def Escapes.char (e : Escapes) (c : Char) : List Char :=
  match c with
  | '"' => ['\\', '"']
  | '\\' => ['\\', '\\']
  | '\n' => ['\\', 'n']
  | '\r' => ['\\', 'r']
  | '\t' => ['\\', 't']
  | _ =>
    let n := c.toNat
    if n == 8 && e.shortFeeds then ['\\', 'b']
    else if n == 12 && e.shortFeeds then ['\\', 'f']
    else if n < 0x20 || n == 0x2028 || n == 0x2029
        || (e.markup && (c == '<' || c == '>' || c == '&')) then
      '\\' :: 'u' :: (Text.hexField 4 n).toList
    else [c]

/-- The literal of a text. -/
def Escapes.literal (e : Escapes) (s : String) : String :=
  "\"" ++ String.ofList (s.toList.flatMap e.char) ++ "\""

end Dalvik.Json
