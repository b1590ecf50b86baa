import CanScript.CommandLine.Console
import CanScript.CommandLine.Playback

/-! # The command line

    Checks a script, runs it against a bus in memory, or writes a trace as a script.  All of it is
    done through a console, so it can be rehearsed in memory. -/

namespace CanScript.CommandLine

variable {m : Type → Type} [Monad m]

def readSource (c : Console m) (path? : Option String) : m (Except FileError String) :=
  match path? with
  | some path => c.readFile path
  | none => c.readInput

def programSummary (p : Program) : String :=
  s!"OK: {p.statements.length} statement(s), {p.functions.length} function(s), "
    ++ s!"{p.receiveHandlers.length} receive handler(s), "
    ++ s!"{p.intervalHandlers.length} interval handler(s)\n"

/-- Checks a script. -/
def check (c : Console m) (script? : Option String) : m (Option Failure) := do
  match ← readSource c script? with
  | .error e => return some (.file e)
  | .ok source =>
    match Program.ofSource source with
    | (program, []) =>
      c.write (programSummary program)
      return none
    | (_, errors) =>
      errors.forM fun d => c.complain d.text
      return some (.script errors.length)

def showEvent (c : Console m) (format : Format) (e : Event) : m Unit :=
  match format, e with
  | .json, e => c.write ((e.toJson c.runName).compact ++ "\n")
  | .text, .output _ text => c.write (text ++ "\n")
  | .text, .error _ d => c.complain d.text
  | .text, .state .. => pure ()

def fileRecord (c : Console m) (path : String) (r : ErrorRecord) : m Unit := do
  let time ← c.timestamp
  c.addLine path (r.line c.runName time)

def showNews (c : Console m) (o : RunOptions) (p : Playback) : m Unit := do
  p.newEvents.forM (showEvent c o.format)
  match o.errorLog? with
  | some path => p.newRecords.forM (fileRecord c path)
  | none => pure ()

def showFrames (c : Console m) (o : RunOptions) (s : Session) : m Unit :=
  if o.frames then s.bench.bus.sent.toList.forM fun f => c.write (f.text ++ "\n") else pure ()

def conclude (c : Console m) (o : RunOptions) (p : Playback) : m (Option Failure) := do
  let p := p.stop
  showNews c o p
  showFrames c o p.session
  let errors := p.session.bench.log.errorCount
  return if 0 < errors then some (.run errors) else none

/-- Plays a session to its end, in at most a number of steps. -/
def play (c : Console m) (o : RunOptions) : Nat → Playback → m (Option Failure)
  | 0, p => conclude c o p
  | n + 1, p => do
    let p := p.settle
    showNews c o p
    let p := p.markShown
    match p.next with
    | .over => conclude c o p
    | .frameDue => play c o n p.injectNext
    | .moment t =>
      c.waitUntil t
      play c o n (p.moveTo t)
    | .never =>
      c.waitForever
      conclude c o p

def playLimit : Nat :=
  1000000000

def choosePorts (o : RunOptions) (config : Config) : List String :=
  if !o.ports.isEmpty then o.ports
  else if !config.defaultPorts.isEmpty then config.defaultPorts
  else ["can0"]

def openSession (o : RunOptions) (config : Config) : Session :=
  let bus := (Bus.ofCapacity config.executor.frameBuffer).setLoopback o.loopback
  let s := Session.ofLimits config.executor bus
  if o.errorLog?.isSome then s.persist else s

def startAndPlay (c : Console m) (o : RunOptions) (config : Config) (source : String)
    (frames : List Frame) : m (Option Failure) :=
  match (openSession o config).start source (choosePorts o config) with
  | (s, .ok _) =>
    play c o playLimit
      { session := s, frames, port? := o.replayPort?, limit? := o.duration? }
  | (s, .error e) => do
    showNews c o { session := s }
    showFrames c o s
    return some (.ofRefusal e)

def readReplay (c : Console m) (path? : Option String) : m (Except Failure (List Frame)) := do
  match path? with
  | none => return .ok []
  | some path =>
    match ← c.readFile path with
    | .error e => return .error (.file e)
    | .ok text => return (Trace.read text).mapError .trace

def openErrorLog (c : Console m) (path? : Option String) : m (Except FileError Unit) :=
  match path? with
  | none => pure (.ok ())
  | some path => c.openLog path

/-- Runs a script. -/
def run (c : Console m) (o : RunOptions) : m (Option Failure) := do
  match ← readSource c o.script? with
  | .error e => return some (.file e)
  | .ok source =>
    let config := ((← c.configuration).bind Config.read?).getD {}
    match ← readReplay c o.replay? with
    | .error e => return some e
    | .ok frames =>
      match ← openErrorLog c o.errorLog? with
      | .error e => return some (.file e)
      | .ok _ => startAndPlay c o config source frames

def scriptName (trace? name? : Option String) : String :=
  name?.getD (((trace?.bind fileName?).map fileStem).getD "converted")

/-- Writes a trace as a script. -/
def convert (c : Console m) (trace? name? : Option String) (toOutput : Bool) :
    m (Option Failure) := do
  match ← readSource c trace? with
  | .error e => return some (.file e)
  | .ok text =>
    match convertTrace text with
    | .error e => return some e
    | .ok script =>
      if toOutput then
        c.write script
        return none
      else
        match ← c.saveScript (scriptName trace? name?) script with
        | .error e => return some (.file e)
        | .ok path =>
          c.complain s!"Saved to {path}"
          return none

def Command.perform (c : Console m) : Command → m (Option Failure)
  | .check script? => CommandLine.check c script?
  | .run options => CommandLine.run c options
  | .convert trace? name? toOutput => CommandLine.convert c trace? name? toOutput

def execute (c : Console m) (args : List String) : m Nat := do
  let failure? ←
    match Command.ofArguments? args with
    | some command => command.perform c
    | none => pure (some .usage)
  match failure? with
  | none => return 0
  | some failure =>
    c.complain s!"Error: {failure.message}"
    return failure.exitCode

end CanScript.CommandLine
