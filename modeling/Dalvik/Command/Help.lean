import Dalvik.Command.Request

/-!
# Help

What is printed when help or the version is asked for.
-/

namespace Dalvik.Command

/-- What a command is for, in one line. -/
def Name.summary : Name → String
  | scan => "Pre-analyze a single code_item"
  | batch => "Pre-analyze every method listed in a manifest"
  | diff => "Compare two batch reports"

/-- The words that a command takes. -/
def Name.words : Name → String
  | scan => ""
  | batch => " MANIFEST.json"
  | diff => " A.json B.json"

/-- The lines that list flags. -/
def flagLines {σ : Type} (flags : List (Flag σ)) : String :=
  String.join (flags.map fun f => "  " ++ f.label ++ "\n")

/-- The flags of a command. -/
def Name.flagLines : Name → String
  | scan => Command.flagLines scanFlags
  | batch => Command.flagLines batchFlags
  | diff => Command.flagLines diffFlags

/-- The help on a command. -/
def Name.help (name : Name) : String :=
  name.summary ++ "\n\nUsage:\n  " ++ program ++ " " ++ name.text ++ name.words
    ++ " [flags]\n\nFlags:\n" ++ name.flagLines
    ++ "\nGlobal Flags:\n" ++ Command.flagLines (commonFlags Unit)

/-- The help on the program, or on one command. -/
def helpText : Option Name → String
  | some name => name.help
  | none =>
    "Dalvik bytecode control-flow pre-analysis\n\nUsage:\n  " ++ program
      ++ " [command]\n\nAvailable Commands:\n"
      ++ String.join (Name.all.map fun name =>
        "  " ++ Text.padRight 12 name.text ++ name.summary ++ "\n")
      ++ "\nFlags:\n" ++ Command.flagLines (commonFlags Unit) ++ Command.flagLines versionFlags

/-- The version line. -/
def versionText : String := program ++ " version dev (commit none, built unknown)\n"

end Dalvik.Command
