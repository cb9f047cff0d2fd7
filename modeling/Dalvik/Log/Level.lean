/-!
# Log levels

A level is a number; larger is more severe. Four levels have standard names, and a level between
them is named by the one below it and the distance. Six levels have a label of five characters.
-/

namespace Dalvik.Log

/-- A severity. -/
abbrev Level := Int

namespace Level

/-- Everything: the least level of 64 bits. -/
def max : Level := -0x8000000000000000
/-- Steps of the passes. -/
def trace : Level := -8
/-- Results of whole operations. -/
def debug : Level := -4
/-- News. -/
def info : Level := 0
/-- Rejections. -/
def warn : Level := 4
/-- Failures. -/
def error : Level := 8
/-- The end. -/
def crit : Level := 12

/-- A base name and the distance from it, which is written only if it is not zero. -/
def relative (base : String) (distance : Int) : String :=
  if distance = 0 then base
  else if 0 < distance then base ++ s!"+{distance}"
  else base ++ s!"{distance}"

/-- The name of a level, relative to the standard level below it. -/
def standardName (l : Level) : String :=
  if l < info then relative "DEBUG" (l - debug)
  else if l < warn then relative "INFO" (l - info)
  else if l < error then relative "WARN" (l - warn)
  else relative "ERROR" (l - error)

/-- The label of a level in text lines. -/
def label (l : Level) : String :=
  if l = trace then "TRACE"
  else if l = debug then "DEBUG"
  else if l = info then "INFO "
  else if l = warn then "WARN "
  else if l = error then "ERROR"
  else if l = crit then "CRIT "
  else l.standardName

/-- The capital letter of a character, as far as capitals in ASCII are concerned: besides the
small letters of ASCII, the dotless i and the long s have one. -/
def capital (c : Char) : Char :=
  if c.toNat = 0x131 then 'I'
  else if c.toNat = 0x17f then 'S'
  else c.toUpper

/-- The level with a given name in letters of either case. -/
def parse? (name : String) : Option Level :=
  match name.map capital with
  | "MAX" | "MAXVERBOSITY" => some max
  | "TRACE" => some trace
  | "DEBUG" => some debug
  | "INFO" => some info
  | "WARN" | "WARNING" => some warn
  | "ERROR" => some error
  | "CRIT" | "CRITICAL" => some crit
  | _ => none

end Level

end Dalvik.Log
