import CanScript.Json.Read

/-! # Configuration

    Limits of a run, and the ports to use when none are named.  The file that keeps them is JSON: a
    part that is missing has its default, members with other names are passed over, and a part may
    be given as an array of its members in order. -/

namespace CanScript

/-- The limits of a run. -/
structure RunConfig where
  /-- How deep calls of functions may be nested. -/
  maxCallDepth : Nat := 128
  /-- How many statements a task executes before others get a turn. -/
  yieldEvery : Nat := 32
  /-- How many errors are kept; later ones are counted. -/
  maxErrorLog : Nat := 10000
  /-- How many printed texts are kept. -/
  maxOutputLog : Nat := 1000
  /-- How many arriving frames are kept for a run. -/
  frameBuffer : Nat := 256
  deriving DecidableEq, Repr

/-- The configuration of the program. -/
structure Config where
  executor : RunConfig := {}
  defaultPorts : List String := []
  deriving DecidableEq, Repr

namespace Config

def readCount? : Json → Option Nat
  | .numeral digits =>
    if digits.toList.all Char.isDigit then Number.readNat? 10 Number.maxWord64 digits.toList
    else none
  | _ => none

def readTexts? : Json → Option (List String)
  | .array items =>
    items.mapM fun item =>
      match item with
      | .string text => some text
      | _ => none
  | _ => none

def member? (members : List (String × Json)) (name : String) : Option (Option Json) :=
  match members.filter fun p => p.1 == name with
  | [] => some none
  | [p] => some (some p.2)
  | _ => none

def parts? (names : List String) : Json → Option (List (Option Json))
  | .object members => names.mapM (member? members)
  | .array items =>
    if names.length < items.length then none
    else some (items.map some ++ List.replicate (names.length - items.length) none)
  | _ => none

def orDefault? {α : Type} (read? : Json → Option α) (default : α) : Option Json → Option α
  | some value => read? value
  | none => some default

def limitNames : List String :=
  ["max_call_depth", "yield_every", "max_error_log", "max_output_log", "frame_buffer"]

/-- Reads the limits of a run. -/
def readLimits? (value : Json) : Option RunConfig := do
  let d : RunConfig := {}
  match ← parts? limitNames value with
  | [depth, every, errors, output, frames] =>
    let depth ← orDefault? readCount? d.maxCallDepth depth
    let every ← orDefault? readCount? d.yieldEvery every
    let errors ← orDefault? readCount? d.maxErrorLog errors
    let output ← orDefault? readCount? d.maxOutputLog output
    let frames ← orDefault? readCount? d.frameBuffer frames
    some ⟨depth, every, errors, output, frames⟩
  | _ => none

def ofJson? (value : Json) : Option Config := do
  match ← parts? ["executor", "default_ports"] value with
  | [executor, ports] =>
    let executor ← orDefault? readLimits? {} executor
    let ports ← orDefault? readTexts? [] ports
    some ⟨executor, ports⟩
  | _ => none

def read? (text : String) : Option Config :=
  (Json.read? text).bind ofJson?

def limitsJson (c : RunConfig) : Json :=
  .object [
    ("max_call_depth", .nat c.maxCallDepth),
    ("yield_every", .nat c.yieldEvery),
    ("max_error_log", .nat c.maxErrorLog),
    ("max_output_log", .nat c.maxOutputLog),
    ("frame_buffer", .nat c.frameBuffer)]

def toJson (c : Config) : Json :=
  .object (("executor", limitsJson c.executor)
    :: if c.defaultPorts.isEmpty then []
       else [("default_ports", .array (c.defaultPorts.map .string))])

def write (c : Config) : String :=
  c.toJson.pretty

end Config

end CanScript
