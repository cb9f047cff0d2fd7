import Dalvik.Text.Number
import Dalvik.Text.Printable

/-!
# Quoted texts

A text between double quotes on one line: quotes and backslashes are escaped, and what does not
print is written as an escape sequence.
-/

namespace Dalvik.Text

/-- The characters that stand for `c` between quotes. -/
def quoteChar (c : Char) : String :=
  match c with
  | '"' => "\\\""
  | '\\' => "\\\\"
  | _ =>
    if isPrintable c then c.toString
    else
      match c.toNat with
      | 7 => "\\a"
      | 8 => "\\b"
      | 9 => "\\t"
      | 10 => "\\n"
      | 11 => "\\v"
      | 12 => "\\f"
      | 13 => "\\r"
      | n =>
        if n < 0x20 || n == 0x7f then "\\x" ++ hexField 2 n
        else if n < 0x10000 then "\\u" ++ hexField 4 n
        else "\\U" ++ hexField 8 n

/-- The text between quotes. -/
def quote (s : String) : String := "\"" ++ String.join (s.toList.map quoteChar) ++ "\""

/-- A character between single quotes; a double quote needs no escape there. -/
def quoteSingle (c : Char) : String :=
  let body :=
    match c.toNat with
    | 0x22 => "\""
    | 0x27 => "\\'"
    | _ => quoteChar c
  "'" ++ body ++ "'"

end Dalvik.Text
