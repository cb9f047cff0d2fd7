import Dalvik.Json.Escape
import Dalvik.Log.Record
import Dalvik.Text.Blank
import Dalvik.Text.Quoted

/-!
# Log lines

Records as lines: `key=value` pairs divided by spaces, or one JSON object. A field without key
and value is left out.
-/

namespace Dalvik.Log

/-- The fields of a record in the order of a line, the module first. -/
def Record.lineFields (r : Record) : List Field :=
  (if r.module.isEmpty then [] else [⟨"module", .text r.module⟩])
    ++ r.fields.filter fun f => !(f.key.isEmpty && f.value == .null)

/-! ## Text lines -/

/-- The character forces a text into quotes. -/
def forcesQuotes (c : Char) : Bool :=
  if c.toNat < 0x80 then c == ' ' || c == '=' || c == '"' || c.toNat < 0x20
  else c.toNat == 0xfffd || Text.isBlank c || !Text.isPrintable c

/-- A text as it stands, or between quotes where it could be misread. -/
def plainOrQuoted (s : String) : String :=
  if s.isEmpty || s.toList.any forcesQuotes then Text.quote s else s

/-- A value in a text line. -/
def Value.inLine : Value → String
  | text s => plainOrQuoted s
  | int n => s!"{n}"
  | bool b => if b then "true" else "false"
  | null => "<nil>"
  | elapsed => "X"

/-- A field in a text line. -/
def Field.text (f : Field) : String := plainOrQuoted f.key ++ "=" ++ f.value.inLine

/-- The text line of a record. -/
def Record.textLine (r : Record) : String :=
  let fields := (⟨"level", .text r.level.label⟩ : Field) :: ⟨"msg", .text r.message⟩ :: r.lineFields
  String.intercalate " " (fields.map Field.text) ++ "\n"

/-! ## JSON lines -/

/-- A value in a JSON line. -/
def Value.json : Value → String
  | text s => Json.Escapes.logLine.literal s
  | int n => s!"{n}"
  | bool b => if b then "true" else "false"
  | null => "null"
  | elapsed => "0"

/-- A field in a JSON line. -/
def Field.json (f : Field) : String := Json.Escapes.logLine.literal f.key ++ ":" ++ f.value.json

/-- The JSON line of a record. -/
def Record.jsonLine (r : Record) : String :=
  let fields :=
    (⟨"level", .text r.level.standardName⟩ : Field) :: ⟨"msg", .text r.message⟩ :: r.lineFields
  "\x7b" ++ String.intercalate "," (fields.map Field.json) ++ "\x7d\n"

end Dalvik.Log
