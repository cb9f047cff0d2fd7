import Dalvik.Log.Line

/-!
# Loggers

A logger writes the records at or above its least level in its style. In front of it stand module
switches: trace and debug records of a module pass only while the module is enabled.
-/

namespace Dalvik.Log

/-- How a logger writes a record. -/
inductive Style where
  | text
  | json
  | discard
  deriving DecidableEq, Repr

/-- A style and the least level that is written. -/
structure Logger where
  style : Style
  least : Level
  deriving DecidableEq, Repr

namespace Logger

/-- The logger that writes nothing. -/
def silent : Logger := ⟨.discard, Level.info⟩

/-- What the logger writes for a record. -/
def write (l : Logger) (r : Record) : String :=
  match l.style with
  | .discard => ""
  | .text => if l.least ≤ r.level then r.textLine else ""
  | .json => if l.least ≤ r.level then r.jsonLine else ""

/-- Why a logger cannot be set up. -/
inductive SetupFault where
  | level (name : String)
  | format (name : String)
  deriving DecidableEq, Repr

/-- The wording of a fault. -/
def SetupFault.message : SetupFault → String
  | level name => "invalid level: " ++ name
  | format name => "invalid log format: " ++ name

/-- The level with a given name. -/
def parseLevel (name : String) : Except SetupFault Level :=
  match Level.parse? name with
  | some l => .ok l
  | none => .error (.level name)

/-- The logger for a level and a format, both by name; an empty format means text. -/
def setup (level format : String) : Except SetupFault Logger := do
  let least ← parseLevel level
  match format with
  | "" | "text" => return ⟨.text, least⟩
  | "json" => return ⟨.json, least⟩
  | _ => throw (.format format)

end Logger

/-! ## Module switches -/

/-- The modules known so far, each enabled or not. -/
structure Switches where
  entries : List (String × Bool)
  deriving DecidableEq, Repr

namespace Switches

/-- The four modules of the program, all disabled. -/
def start : Switches :=
  ⟨[(verifyModule, false), (scanModule, false), (cacheModule, false), (commandModule, false)]⟩

/-- Every known module. -/
def known (s : Switches) : List String := s.entries.map (·.1)

/-- The module is known and enabled. -/
def enabled (s : Switches) (module : String) : Bool :=
  (s.entries.lookup module).getD false

/-- Enables or disables a module, which becomes known by that. -/
def set (s : Switches) (module : String) (on : Bool) : Switches :=
  if s.known.contains module then
    ⟨s.entries.map fun e => if e.1 = module then (module, on) else e⟩
  else ⟨s.entries ++ [(module, on)]⟩

/-- Enables what one item of a list names: nothing, all known modules or one module. -/
def enableItem (s : Switches) (item : String) : Switches :=
  match Text.trim item with
  | "" => s
  | "all" => ⟨s.entries.map fun e => (e.1, true)⟩
  | module => s.set module true

/-- The parts of a text between commas. -/
def items : List Char → List (List Char)
  | [] => [[]]
  | c :: rest =>
    if c = ',' then [] :: items rest
    else
      match items rest with
      | [] => [[c]]
      | first :: others => (c :: first) :: others

/-- Enables the modules of a list divided by commas. -/
def enableList (s : Switches) (list : String) : Switches :=
  ((items list.toList).map String.ofList).foldl enableItem s

/-- The record passes the switches. -/
def admits (s : Switches) (r : Record) : Bool :=
  s.enabled r.module || !(r.level = Level.trace || r.level = Level.debug)

end Switches

/-- What the logger writes for records that come through the switches. -/
def render (logger : Logger) (switches : Switches) (records : List Record) : String :=
  String.join ((records.filter switches.admits).map logger.write)

end Dalvik.Log
