import Dalvik.Text.Integer
import Dalvik.Text.Quoted

/-!
# Flags

A flag updates settings from a text. Flags and words of a command line may be mixed; `--` makes
everything after it words. A long flag `--name` has its value after `=` or, unless it is a switch,
as the next argument. Short flags are switches and can be written as a group after one dash.
-/

namespace Dalvik.Command

/-! ## Faults -/

/-- Why a text is no value of a flag. -/
inductive ValueFault where
  | bool (value : String)
  | integer (value : String) (fault : Text.Integer.Fault)
  deriving DecidableEq, Repr

/-- The wording of a fault. -/
def ValueFault.message : ValueFault → String
  | bool value => "strconv.ParseBool: parsing " ++ Text.quote value ++ ": invalid syntax"
  | integer value fault =>
    "strconv.ParseInt: parsing " ++ Text.quote value ++ ": " ++ fault.message

/-- Why flags cannot be read. -/
inductive FlagFault where
  /-- A long flag has no name. -/
  | badSyntax (argument : String)
  | unknown (name : String)
  /-- No short flag starts with this byte; the rest of the group goes with it. -/
  | unknownShort (byte : UInt8) (group : String)
  | missingValue (argument : String)
  | invalidValue (value flag : String) (fault : ValueFault)
  deriving DecidableEq, Repr

/-- The wording of a fault. -/
def FlagFault.message : FlagFault → String
  | badSyntax argument => "bad flag syntax: " ++ argument
  | unknown name => "unknown flag: --" ++ name
  | unknownShort byte group =>
    "unknown shorthand flag: " ++ Text.quoteSingle (Char.ofNat byte.toNat) ++ " in -" ++ group
  | missingValue argument => "flag needs an argument: " ++ argument
  | invalidValue value flag fault =>
    "invalid argument " ++ Text.quote value ++ " for " ++ Text.quote flag ++ " flag: "
      ++ fault.message

/-! ## Flags -/

/-- A flag of settings `σ`. A switch can stand without a value, and only switches have a letter. -/
structure Flag (σ : Type) where
  name : String
  letter : Option Char := none
  isSwitch : Bool
  assign : σ → String → Except ValueFault σ

namespace Flag

variable {σ : Type}

/-- The truth value of a text. -/
def truth? (value : String) : Option Bool :=
  match value with
  | "1" | "t" | "T" | "true" | "TRUE" | "True" => some true
  | "0" | "f" | "F" | "false" | "FALSE" | "False" => some false
  | _ => none

/-- A flag that takes any text. -/
def text (name : String) (put : σ → String → σ) : Flag σ where
  name := name
  isSwitch := false
  assign s value := .ok (put s value)

/-- A flag that is on or off. -/
def switch (name : String) (put : σ → Bool → σ) (letter : Option Char := none) : Flag σ where
  name := name
  letter := letter
  isSwitch := true
  assign s value :=
    match truth? value with
    | some b => .ok (put s b)
    | none => .error (.bool value)

/-- A flag that takes an integer. -/
def integer (name : String) (put : σ → Int → σ) : Flag σ where
  name := name
  isSwitch := false
  assign s value :=
    match Text.Integer.parse value with
    | .ok n => .ok (put s n)
    | .error fault => .error (.integer value fault)

/-- The name of a flag in messages. -/
def label (f : Flag σ) : String :=
  match f.letter with
  | some c => "-" ++ c.toString ++ ", --" ++ f.name
  | none => "--" ++ f.name

/-- The settings with a value given to a flag. -/
def set (f : Flag σ) (s : σ) (value : String) : Except FlagFault σ :=
  match f.assign s value with
  | .ok s' => .ok s'
  | .error fault => .error (.invalidValue value f.label fault)

/-! ## Command lines -/

/-- What stands for the value of a switch without one. -/
def on : String := "true"

/-- The text in front of the first `=` and, if there is one, the text behind it. -/
def splitValue : List Char → List Char × Option (List Char)
  | [] => ([], none)
  | c :: rest =>
    if c = '=' then ([], some rest)
    else
      match splitValue rest with
      | (name, value) => (c :: name, value)

/-- Groups that start like this are meant for another reader and are passed over. -/
def foreignGroup : List Char := "test.".toList

/-- The first byte of a character. -/
def firstByte (c : Char) : UInt8 := (c.toString.toUTF8.toList).headD 0

/-- Reads a group of short flags. -/
def readGroup (flags : List (Flag σ)) (s : σ) : List Char → Except FlagFault σ
  | [] => .ok s
  | c :: rest =>
    if foreignGroup.isPrefixOf (c :: rest) then .ok s
    else
      match flags.find? (·.letter = some c), rest with
      | none, _ => .error (.unknownShort (firstByte c) (String.ofList (c :: rest)))
      | some f, '=' :: v :: value => f.set s (String.ofList (v :: value))
      | some f, _ => do readGroup flags (← f.set s on) rest

/-- Reads a command line: the settings after all flags, and the words in order. -/
def read (flags : List (Flag σ)) (s : σ) : List String → Except FlagFault (σ × List String)
  | [] => .ok (s, [])
  | argument :: rest =>
    match argument.toList with
    | ['-', '-'] => .ok (s, rest)
    | '-' :: '-' :: c :: name =>
      if c = '-' ∨ c = '=' then .error (.badSyntax argument)
      else
        let (name, value) := splitValue (c :: name)
        let name := String.ofList name
        match flags.find? (·.name = name) with
        | none => .error (.unknown name)
        | some f =>
          match value with
          | some v => do read flags (← f.set s (String.ofList v)) rest
          | none =>
            if f.isSwitch then do read flags (← f.set s on) rest
            else
              match rest with
              | v :: more => do read flags (← f.set s v) more
              | [] => .error (.missingValue argument)
    | '-' :: c :: group => do read flags (← readGroup flags s (c :: group)) rest
    | _ => do
      let (s', words) ← read flags s rest
      return (s', argument :: words)

end Flag

end Dalvik.Command
