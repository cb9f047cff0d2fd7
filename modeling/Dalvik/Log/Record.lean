import Dalvik.Log.Level

/-!
# Log records

A record has a level, the module it comes from, a message and named values.
-/

namespace Dalvik.Log

/-- A value in a record. -/
inductive Value where
  | text (s : String)
  | int (n : Int)
  | bool (b : Bool)
  | null
  /-- A measured time, which no reader depends on. -/
  | elapsed
  deriving DecidableEq, Repr

/-- A named value. -/
structure Field where
  key : String
  value : Value
  deriving DecidableEq, Repr

/-- A log record. -/
structure Record where
  level : Level
  module : String
  message : String
  fields : List Field := []
  deriving DecidableEq, Repr

/-! ## Fields from loose arguments -/

/-- The key of a value that stands where a key is expected. -/
def badKey : String := "!BADKEY"

/-- Pairs every text with the value after it. A value that is no text, and a text at the very
end, has no key of its own. -/
def Field.pairUp : List Value → List Field
  | [] => []
  | .text key :: value :: rest => ⟨key, value⟩ :: pairUp rest
  | value :: rest => ⟨badKey, value⟩ :: pairUp rest

/-- Fields of loose arguments; an odd number of them is made even by a null, and said so. -/
def Field.ofArguments (args : List Value) : List Field :=
  if args.length % 2 = 0 then pairUp args
  else
    pairUp (args ++ [.null, .text "LOG_ERROR",
      .text "normalized odd number of arguments by adding nil"])

/-! ## Modules -/

/-- Verification failures and trouble with class resolution. -/
def verifyModule : String := "vfy_mod"
/-- Progress of the passes. -/
def scanModule : String := "scan_mod"
/-- The verdict store. -/
def cacheModule : String := "cache_mod"
/-- The command line. -/
def commandModule : String := "cli_mod"

end Dalvik.Log
