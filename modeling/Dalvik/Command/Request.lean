import Dalvik.Bytes.Utf8
import Dalvik.Command.Flag
import Dalvik.Text.Distance
import Dalvik.Text.Small

/-!
# Requests

What a command line asks for. The first word that no flag takes as its value names the command;
in front of it every flag without `=` is taken to have a value. The command's own flags and the
global ones can then stand anywhere, and the number of the remaining words is checked last.
-/

namespace Dalvik.Command

/-- The name of the program. -/
def program : String := "dexscan"

/-- The commands. -/
inductive Name where
  | scan
  | batch
  | diff
  deriving DecidableEq, Repr

namespace Name

/-- Every command, in the order in which they are suggested. -/
def all : List Name := [scan, batch, diff]

/-- The word for a command. -/
def text : Name → String
  | scan => "scan"
  | batch => "batch"
  | diff => "diff"

/-- The command that a word stands for. -/
def ofText? (word : String) : Option Name := all.find? (·.text = word)

/-- The largest distance of a mistyped word. -/
def nearness : Nat := 2

/-- A word could be meant as a command: few letters differ or it is the beginning, the case of
letters apart. -/
def resembles (word : String) (name : Name) : Bool :=
  let typed := String.ofList (word.toList.map Text.small)
  Text.Distance.between (Bytes.Utf8.encode typed) (Bytes.Utf8.encode name.text) ≤ nearness
    || typed.toList.isPrefixOf name.text.toList

/-- The commands that a word could be meant as. -/
def suggestions (word : String) : List Name := all.filter (resembles word)

end Name

/-! ## Settings -/

/-- The settings that every command has. -/
structure Globals where
  logLevel : String := "warn"
  logFormat : String := "text"
  /-- The log modules to enable, divided by commas. -/
  debug : String := ""
  /-- Where traces are sent; nowhere if it is empty. -/
  endpoint : String := ""
  deriving DecidableEq, Repr

/-- The settings of `scan`: one method, given by digits or by a file. -/
structure ScanOptions where
  hex : String := ""
  file : String := ""
  className : String := "LUnknown;"
  method : String := "unknown"
  proto : String := "()V"
  json : Bool := false
  tree : Bool := false
  gcPoints : Bool := true
  cache : String := ""
  optimizing : Bool := false
  deriving DecidableEq, Repr

/-- The settings of `batch`: the methods of a manifest. -/
structure BatchOptions where
  workers : Int := 1
  gcPoints : Bool := true
  optimizing : Bool := false
  cache : String := ""
  json : Bool := false
  deriving DecidableEq, Repr

/-- The settings of `diff`: two reports. -/
structure DiffOptions where
  color : Bool := true
  deriving DecidableEq, Repr

/-- Settings of a command together with those that every command line has. -/
structure Settings (σ : Type) where
  own : σ
  globals : Globals := {}
  help : Bool := false

/-- A flag of the command itself. -/
def Flag.own {σ : Type} (f : Flag σ) : Flag (Settings σ) :=
  { name := f.name, letter := f.letter, isSwitch := f.isSwitch
    assign := fun s value => (f.assign s.own value).map fun own => { s with own := own } }

/-- The flags that every command has. -/
def commonFlags (σ : Type) : List (Flag (Settings σ)) :=
  [.text "log-level" fun s v => { s with globals := { s.globals with logLevel := v } },
    .text "log-format" fun s v => { s with globals := { s.globals with logFormat := v } },
    .text "debug" fun s v => { s with globals := { s.globals with debug := v } },
    .text "otlp-endpoint" fun s v => { s with globals := { s.globals with endpoint := v } },
    .switch "help" (fun s b => { s with help := b }) (some 'h')]

/-- The flags of `scan`. -/
def scanFlags : List (Flag ScanOptions) :=
  [.text "hex" fun o v => { o with hex := v },
    .text "file" fun o v => { o with file := v },
    .text "class" fun o v => { o with className := v },
    .text "method" fun o v => { o with method := v },
    .text "proto" fun o v => { o with proto := v },
    .switch "json" fun o b => { o with json := b },
    .switch "tree" fun o b => { o with tree := b },
    .switch "gc-points" fun o b => { o with gcPoints := b },
    .text "cache" fun o v => { o with cache := v },
    .switch "optimizing" fun o b => { o with optimizing := b }]

/-- The flags of `batch`. -/
def batchFlags : List (Flag BatchOptions) :=
  [.integer "workers" fun o n => { o with workers := n },
    .switch "gc-points" fun o b => { o with gcPoints := b },
    .switch "optimizing" fun o b => { o with optimizing := b },
    .text "cache" fun o v => { o with cache := v },
    .switch "json" fun o b => { o with json := b }]

/-- The flags of `diff`. -/
def diffFlags : List (Flag DiffOptions) :=
  [.switch "color" fun o b => { o with color := b }]

/-- The flag of a command line without a command: whether the version is asked for. -/
def versionFlags : List (Flag Bool) := [.switch "version" (fun _ b => b) (some 'v')]

/-! ## Requests -/

/-- Why a command line asks for nothing. -/
inductive UsageFault where
  | flag (fault : FlagFault)
  | unknownCommand (word : String)
  /-- A command that takes no words was given one. -/
  | unexpectedWord (word : String) (command : Name)
  | wordCount (expected received : Nat)
  deriving DecidableEq, Repr

/-- The question whether some commands were meant. -/
def didYouMean (names : List Name) : String :=
  if names.isEmpty then ""
  else
    "\n\nDid you mean this?\n" ++ String.join (names.map fun name => "\t" ++ name.text ++ "\n")

/-- The wording of a fault. -/
def UsageFault.message : UsageFault → String
  | flag fault => fault.message
  | unknownCommand word =>
    "unknown command " ++ Text.quote word ++ " for " ++ Text.quote program
      ++ didYouMean (Name.suggestions word)
  | unexpectedWord word command =>
    "unknown command " ++ Text.quote word ++ " for "
      ++ Text.quote (program ++ " " ++ command.text)
  | wordCount expected received => s!"accepts {expected} arg(s), received {received}"

/-- What is asked for. -/
inductive Request where
  | help (command : Option Name)
  | version
  | scan (globals : Globals) (options : ScanOptions)
  | batch (globals : Globals) (options : BatchOptions) (manifest : String)
  | diff (globals : Globals) (options : DiffOptions) (left right : String)
  deriving DecidableEq, Repr

namespace Request

/-- The argument is a flag that takes the next argument, as far as can be told without knowing the
flags. -/
def takesNext (argument : String) : Bool :=
  match argument.toList with
  | '-' :: rest => (rest.head? = some '-' || argument.utf8ByteSize = 2) && !rest.contains '='
  | _ => false

/-- The first word of a command line that is not the value of a flag, and the line without it. -/
def splitWord : List String → Option (String × List String)
  | [] => none
  | argument :: rest =>
    if argument = "--" then none
    else if takesNext argument then
      match rest with
      | value :: next :: more =>
        (splitWord (next :: more)).map fun (word, line) => (word, argument :: value :: line)
      | _ => none
    else if argument.isEmpty ∨ argument.toList.head? = some '-' then
      (splitWord rest).map fun (word, line) => (word, argument :: line)
    else some (argument, rest)

/-- The settings and the words of the line of a command, or a call for help. -/
def settings {σ : Type} (command : Name) (flags : List (Flag σ)) (own : σ) (line : List String)
    (finish : Settings σ → List String → Except UsageFault Request) : Except UsageFault Request :=
  match Flag.read (commonFlags σ ++ flags.map Flag.own) ⟨own, {}, false⟩ line with
  | .error fault => .error (.flag fault)
  | .ok (s, words) => if s.help then .ok (.help (some command)) else finish s words

/-- The request of a line from which the command has been taken. -/
def ofCommand (command : Name) (line : List String) : Except UsageFault Request :=
  match command with
  | .scan => settings command scanFlags {} line fun s words =>
    match words with
    | [] => .ok (.scan s.globals s.own)
    | word :: _ => .error (.unexpectedWord word command)
  | .batch => settings command batchFlags {} line fun s words =>
    match words with
    | [manifest] => .ok (.batch s.globals s.own manifest)
    | _ => .error (.wordCount 1 words.length)
  | .diff => settings command diffFlags {} line fun s words =>
    match words with
    | [left, right] => .ok (.diff s.globals s.own left right)
    | _ => .error (.wordCount 2 words.length)

/-- The request of a line without a command. -/
def ofFlags (line : List String) : Except UsageFault Request :=
  match Flag.read (commonFlags Bool ++ versionFlags.map Flag.own) ⟨false, {}, false⟩ line with
  | .error fault => .error (.flag fault)
  | .ok (s, _) => .ok (if !s.help && s.own then .version else .help none)

/-- The word that asks for help. -/
def helpWord : String := "help"

/-- What a command line asks for. -/
def parse (line : List String) : Except UsageFault Request :=
  match splitWord line with
  | none => ofFlags line
  | some (word, rest) =>
    match Name.ofText? word with
    | some command => ofCommand command rest
    | none =>
      if word = helpWord then .ok (.help ((splitWord rest).bind fun topic => Name.ofText? topic.1))
      else .error (.unknownCommand word)

end Request

end Dalvik.Command
