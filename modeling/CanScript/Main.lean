import CanScript.CommandLine
import CanScript.CommandLine.Stamp
import Std.Time.DateTime.Timestamp

/-! # The program

    The command line on a console that reads and writes real files and lets real time pass. -/

namespace CanScript.CommandLine

def FileError.ofSystem : IO.Error → FileError
  | .noFileOrDirectory _ _ _ => .notFound
  | .inappropriateType _ code details =>
    if code == 21 then .isDirectory
    else if code == 20 then .notDirectory
    else .other s!"{details} (os error {code})"
  | e => .other (toString e)

def guarded {α : Type} (action : IO α) : IO (Except FileError α) := do
  try
    let a ← action
    return .ok a
  catch e => return .error (.ofSystem e)

/-- Sleeps for a number of milliseconds, in portions that the system takes. -/
partial def sleepFor (millis : Nat) : IO Unit := do
  let portion := min millis 1000000000
  IO.sleep (UInt32.ofNat portion)
  if portion < millis then sleepFor (millis - portion)

/-- Sleeps without end. -/
partial def sleepForever : IO Unit := do
  sleepFor 1000000000
  sleepForever

def programDirectory (home : String) : String :=
  home ++ "/.txscript"

def tryCreate (path : String) : IO Unit := do
  try IO.FS.createDirAll path
  catch _ => pure ()

def readConfiguration (home : String) : IO (Option String) := do
  tryCreate (programDirectory home)
  match ← guarded (IO.FS.readFile (programDirectory home ++ "/config.json")) with
  | .ok text => return some text
  | .error _ => return none

def saveScriptFile (home name text : String) : IO (Except FileError String) := do
  let directory := programDirectory home ++ "/scripts"
  tryCreate directory
  let path := directory ++ "/" ++ name ++ ".txs"
  match ← guarded (IO.FS.writeFile path text) with
  | .ok _ => return .ok path
  | .error e => return .error e

def appendText (path text : String) : IO Unit := do
  let handle ← IO.FS.Handle.mk path .append
  handle.putStr text

/-- The console of the system, given the home directory, the name of the run and the time when the
    program started. -/
def systemConsole (home runName : String) (startedAt : Nat) : Console IO where
  readFile path := guarded (IO.FS.readFile path)
  readInput := guarded do (← IO.getStdin).readToEnd
  configuration := readConfiguration home
  openLog path := guarded (appendText path "")
  addLine path line := do
    let _ ← guarded (appendText path (line ++ "\n"))
  saveScript name text := saveScriptFile home name text
  write text := do
    IO.print text
    (← IO.getStdout).flush
  complain line := IO.eprintln line
  waitUntil t := do
    let now ← IO.monoMsNow
    sleepFor (startedAt + t - now)
  waitForever := sleepForever
  runName := fun _ => runName
  timestamp := do
    let now ← Std.Time.Timestamp.now
    return timeText now.toNanosecondsSinceUnixEpoch.val.toNat

end CanScript.CommandLine

def main (args : List String) : IO UInt32 := do
  let home := (← IO.getEnv "HOME").getD "."
  let random ← IO.rand 0 (CanScript.Number.pow2 128 - 1)
  let startedAt ← IO.monoMsNow
  let console := CanScript.CommandLine.systemConsole home
    (CanScript.CommandLine.runNameText random) startedAt
  let code ← CanScript.CommandLine.execute console args
  return UInt32.ofNat code
