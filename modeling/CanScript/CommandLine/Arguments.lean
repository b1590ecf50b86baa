import CanScript.Number.Digits
import CanScript.Text.Blank

/-! # Arguments

    A command is a word followed by options and at most one operand.  An option has a long name, and
    some have a short one; its value stands after an equals sign, in the next argument, or right
    behind a short name. -/

namespace CanScript.CommandLine

/-- How the events of a run are written. -/
inductive Format where
  | text
  | json
  deriving DecidableEq, Repr

/-- What a run is to do. -/
structure RunOptions where
  script? : Option String := none
  ports : List String := []
  replay? : Option String := none
  replayPort? : Option String := none
  loopback : Bool := false
  duration? : Option Nat := none
  errorLog? : Option String := none
  frames : Bool := false
  format : Format := .text
  deriving Repr

/-- What the program is asked to do. -/
inductive Command where
  | check (script? : Option String)
  | run (options : RunOptions)
  | convert (trace? name? : Option String) (toOutput : Bool)
  deriving Repr

/-- An option that a command knows. -/
structure OptionForm where
  name : String
  short? : Option Char := none
  takesValue : Bool := true

def commonForms : List OptionForm :=
  [⟨"log-file", none, true⟩]

def runForms : List OptionForm :=
  [⟨"port", some 'p', true⟩, ⟨"replay", none, true⟩, ⟨"replay-port", none, true⟩,
    ⟨"loopback", none, false⟩, ⟨"duration", some 'd', true⟩, ⟨"error-log", none, true⟩,
    ⟨"frames", none, false⟩, ⟨"format", some 'f', true⟩] ++ commonForms

def convertForms : List OptionForm :=
  [⟨"name", some 'n', true⟩, ⟨"stdout", none, false⟩] ++ commonForms

/-- What stands on a command line: options with their values, and operands. -/
structure Arguments where
  options : List (String × String) := []
  operands : List String := []

namespace Arguments

def addOption (a : Arguments) (name value : String) : Arguments :=
  { a with options := (name, value) :: a.options }

def addOperand (a : Arguments) (text : String) : Arguments :=
  { a with operands := text :: a.operands }

/-- An argument as far as options are concerned: the option that it names, and the value that it
    carries. -/
inductive Word where
  | operand
  | ending
  | option (form : OptionForm) (value? : Option String)
  | unknown

def attached? : List Char → Option String
  | [] => none
  | '=' :: rest => some (String.ofList rest)
  | rest => some (String.ofList rest)

/-- Takes an argument apart. -/
def classify (forms : List OptionForm) (arg : List Char) : Word :=
  match arg with
  | ['-', '-'] => .ending
  | '-' :: '-' :: long =>
    let (name, value?) :=
      match Text.splitAt? ['='] long with
      | some (name, value) => (name, some (String.ofList value))
      | none => (long, none)
    match forms.find? fun form => form.name == String.ofList name with
    | some form => .option form value?
    | none => .unknown
  | '-' :: c :: rest =>
    match forms.find? fun form => form.short? == some c with
    | some form => .option form (attached? rest)
    | none => .unknown
  | _ => .operand

def isValue (arg : String) : Bool :=
  match arg.toList with
  | '-' :: _ :: _ => false
  | _ => true

/-- Reads arguments with the options that are known. -/
def read? (forms : List OptionForm) : List String → Option Arguments
  | [] => some {}
  | arg :: rest =>
    match classify forms arg.toList with
    | .operand => (read? forms rest).map (·.addOperand arg)
    | .ending => some { operands := rest }
    | .unknown => none
    | .option form (some value) =>
      if form.takesValue then (read? forms rest).map (·.addOption form.name value) else none
    | .option form none =>
      if form.takesValue then
        match rest with
        | [] => none
        | value :: more =>
          if isValue value then (read? forms more).map (·.addOption form.name value) else none
      else (read? forms rest).map (·.addOption form.name "")

def values (a : Arguments) (name : String) : List String :=
  (a.options.filter fun p => p.1 == name).map (·.2)

def value? (a : Arguments) (name : String) : Option (Option String) :=
  match a.values name with
  | [] => some none
  | [value] => some (some value)
  | _ => none

def flag? (a : Arguments) (name : String) : Option Bool :=
  (a.value? name).map (·.isSome)

def operand? (a : Arguments) : Option (Option String) :=
  match a.operands with
  | [] => some none
  | [text] => some (some text)
  | _ => none

end Arguments

def readFormat? : Option String → Option Format
  | none => some .text
  | some "text" => some .text
  | some "json" => some .json
  | some _ => none

def readDuration? : Option String → Option (Option Nat)
  | none => some none
  | some text => (Number.readNat? 10 Number.maxWord64 text.toList).map some

/-- Reads the arguments of a run. -/
def readRun? (args : List String) : Option RunOptions := do
  let a ← Arguments.read? runForms args
  let script? ← a.operand?
  let replay? ← a.value? "replay"
  let replayPort? ← a.value? "replay-port"
  let loopback ← a.flag? "loopback"
  let duration? ← readDuration? (← a.value? "duration")
  let errorLog? ← a.value? "error-log"
  let frames ← a.flag? "frames"
  let format ← readFormat? (← a.value? "format")
  return ⟨script?, a.values "port", replay?, replayPort?, loopback, duration?, errorLog?, frames,
    format⟩

def Command.ofWords? (name : String) (args : List String) : Option Command :=
  match name with
  | "check" => do
    let a ← Arguments.read? commonForms args
    return .check (← a.operand?)
  | "run" => (readRun? args).map .run
  | "convert" => do
    let a ← Arguments.read? convertForms args
    return .convert (← a.operand?) (← a.value? "name") (← a.flag? "stdout")
  | _ => none

/-- Reads a command; options of every command may stand before its name. -/
def Command.ofArguments? : List String → Option Command
  | [] => none
  | arg :: rest =>
    match Arguments.classify commonForms arg.toList with
    | .operand => Command.ofWords? arg rest
    | .option _ (some _) => Command.ofArguments? rest
    | .option _ none =>
      match rest with
      | [] => none
      | _ :: more => Command.ofArguments? more
    | _ => none

end CanScript.CommandLine
