import CanScript.CommandLine.Failure

/-! # Consoles

    What the command line needs from outside, in whatever monad it is provided: files, the input,
    the two outputs, and the passing of time. -/

namespace CanScript.CommandLine

/-- The outside of the command line. -/
structure Console (m : Type → Type) where
  /-- The text of a file. -/
  readFile : String → m (Except FileError String)
  /-- The text of the input. -/
  readInput : m (Except FileError String)
  /-- The text of the configuration file, if there is one. -/
  configuration : m (Option String)
  /-- Opens a file to add lines to, and creates it if need be. -/
  openLog : String → m (Except FileError Unit)
  /-- Adds a line to a file. -/
  addLine : String → String → m Unit
  /-- Saves a script under a name; the answer is where. -/
  saveScript : String → String → m (Except FileError String)
  /-- Writes a text to the output. -/
  write : String → m Unit
  /-- Writes a line to the error output. -/
  complain : String → m Unit
  /-- Waits for a moment, in milliseconds from the start. -/
  waitUntil : Nat → m Unit
  /-- Waits without end. -/
  waitForever : m Unit
  /-- How a run is named in records. -/
  runName : RunId → String
  /-- The time of day for records. -/
  timestamp : m String

def fileName? (path : String) : Option String :=
  let parts := (path.splitOn "/").filter fun part => part != "" && part != "."
  parts.getLast?.filter (· != "..")

def fileStem (name : String) : String :=
  let ending := name.toList.reverse.takeWhile (· != '.')
  let stem := (name.toList.reverse.drop (ending.length + 1)).reverse
  if stem.isEmpty then name else String.ofList stem

end CanScript.CommandLine
