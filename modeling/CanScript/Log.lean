import CanScript.Channel
import CanScript.Diagnostic

/-! # The log of a run

    Errors are kept in order up to a limit and counted beyond it; of printed texts the last ones are
    kept.  Everything is also announced as an event, and errors may be recorded for a file. -/

namespace CanScript

/-- The number of a run. -/
abbrev RunId := Nat

/-- What a session is doing. -/
inductive ExecutionState where
  | idle
  | running
  | paused
  | stopped
  | error
  deriving DecidableEq, Repr

def ExecutionState.word : ExecutionState → String
  | idle => "IDLE"
  | running => "RUNNING"
  | paused => "PAUSED"
  | stopped => "STOPPED"
  | error => "ERROR"

/-- What observers are told, with the run that it belongs to. -/
inductive Event where
  | state (run : Option RunId) (state : ExecutionState)
  | error (run : Option RunId) (error : Diagnostic)
  | output (run : Option RunId) (text : String)
  deriving DecidableEq, Repr

def runJson (runName : RunId → String) (run : Option RunId) : Json :=
  .ofOption (run.map fun id => .string (runName id))

def Event.toJson (runName : RunId → String) : Event → Json
  | state run s =>
    .object [("StateChanged", .object [
      ("run_id", runJson runName run), ("state", .string s.word)])]
  | error run d =>
    .object [("Error", .object [("run_id", runJson runName run), ("error", d.toJson)])]
  | output run text =>
    .object [("Output", .object [("run_id", runJson runName run), ("text", .string text)])]

/-- One line of an error file. -/
structure ErrorRecord where
  run : Option RunId
  error : Diagnostic
  deriving DecidableEq, Repr

def ErrorRecord.line (r : ErrorRecord) (runName : RunId → String) (time : String) : String :=
  (Json.object [
    ("run_id", runJson runName r.run),
    ("timestamp", .string time),
    ("error", r.error.toJson)]).compact

/-- The logs of a run and the stream of events. -/
structure Log where
  maxErrors : Nat
  maxOutput : Nat
  errors : Array Diagnostic := #[]
  dropped : Nat := 0
  output : Array String := #[]
  events : Channel Event := .ofCapacity 100
  /-- Whether errors go to a file as well. -/
  persists : Bool := false
  records : Array ErrorRecord := #[]

namespace Log

def ofLimits (maxErrors maxOutput : Nat) : Log :=
  { maxErrors, maxOutput := max maxOutput 1 }

def reset (l : Log) : Log :=
  { l with errors := #[], output := #[], dropped := 0 }

def announce (l : Log) (e : Event) : Log :=
  { l with events := l.events.send e }

def keepError (l : Log) (d : Diagnostic) : Log :=
  if l.errors.size < l.maxErrors then { l with errors := l.errors.push d }
  else { l with dropped := l.dropped + 1 }

def fileError (l : Log) (run : Option RunId) (d : Diagnostic) : Log :=
  if l.persists then { l with records := l.records.push ⟨run, d⟩ } else l

def recordError (l : Log) (run : Option RunId) (d : Diagnostic) : Log :=
  ((l.keepError d).fileError run d).announce (.error run d)

def recordErrors (l : Log) (run : Option RunId) (ds : List Diagnostic) : Log :=
  ds.foldl (fun l d => l.recordError run d) l

def keepOutput (l : Log) (text : String) : Log :=
  let kept := if l.output.size < l.maxOutput then l.output else l.output.extract 1 l.output.size
  { l with output := kept.push text }

def recordOutput (l : Log) (run : Option RunId) (text : String) : Log :=
  (l.keepOutput text).announce (.output run text)

def recordState (l : Log) (run : Option RunId) (s : ExecutionState) : Log :=
  l.announce (.state run s)

def persist (l : Log) : Log :=
  { l with persists := true }

def errorCount (l : Log) : Nat :=
  l.errors.size + l.dropped

def summary (l : Log) : String :=
  s!"RunLog \x7b errors: \"<RwLock<Vec<ScriptError>>>\", dropped: {l.dropped}, "
    ++ "output: \"<RwLock<VecDeque<String>>>\", event_tx: \"<broadcast::Sender>\", "
    ++ "writer: \"<Mutex<Option<BufWriter<File>>>>\" \x7d"

end Log

end CanScript
