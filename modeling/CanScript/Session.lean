import CanScript.Bench.Schedule
import CanScript.Program.Parse
import CanScript.Trace

/-! # Sessions

    A session is a bench under the control of a host: it starts, pauses, resumes and stops runs, one
    at a time, lets time pass, and puts frames on the bus.  What a host asks for is checked against
    the state first, and a refused call changes nothing. -/

namespace CanScript

/-- A host's view of the bench. -/
abbrev Session := Machine

/-- Why a call of the host is refused. -/
inductive SessionError where
  | alreadyRunning
  | invalidScript (errors : Nat)
  | invalidTransition (action : String) (state : ExecutionState)
  | noPorts
  deriving DecidableEq, Repr

def SessionError.message : SessionError → String
  | alreadyRunning => "A script is already running"
  | invalidScript errors => s!"Script has {errors} error(s) and cannot be started"
  | invalidTransition action state => s!"Cannot {action} while {state.word}"
  | noPorts => "At least one target port is required"

namespace Session

def ofLimits (limits : RunConfig) (bus : Bus) (writeTime : Nat := 0) : Session :=
  ⟨.ofLimits limits bus writeTime, []⟩

def update (s : Session) (f : Bench → Bench) : Session :=
  { s with bench := f s.bench }

def leavePorts (b : Bench) : Bench :=
  let readers := (b.run.map (·.readers)).getD []
  { b with bus := readers.foldl (fun bus (port, r) => bus.unsubscribe port r) b.bus }

def drain (s : Session) : Session :=
  let b := leavePorts s.settle.bench
  ⟨{ b with turn := none, claims := [], spawned := [], run := none }, []⟩

def retire (s : Session) : Session :=
  if s.bench.run.isSome then (s.update Bench.cancel).drain else s

def addTasks (s : Session) (processes : List (Process Unit)) : Session :=
  let first := s.bench.nextTask
  let added := processes.zipIdx.map fun (p, i) => ⟨first + i, p⟩
  { bench := { s.bench with nextTask := first + added.length }
    tasks := s.tasks ++ added }

def addForwarder (s : Session) (port : String) : Session :=
  let (bus, r) := s.bench.bus.subscribe port
  let s := s.update fun b => { b with
    bus
    run := b.run.map fun run => { run with readers := run.readers ++ [(port, r)] } }
  s.addTasks [forwarder port r]

def addDispatcher (s : Session) (setting : Setting) : Session :=
  if setting.program.receiveHandlers.isEmpty then s
  else
    let (hub, r) := s.bench.hub.subscribe
    (s.update fun b => { b with hub }).addTasks [dispatcher setting r]

def intervalTasks (setting : Setting) : List (Process Unit) :=
  setting.program.intervalHandlers.zipIdx.map fun (h, i) => intervalTask setting i h

/-- Starts a run on a bench without one. -/
def launch (s : Session) (program : Program) (ports : List String) : Session × RunId :=
  let id := s.bench.runs + 1
  let setting : Setting := ⟨program, ports, s.bench.limits⟩
  let s := s.update fun b => { b with
    runs := id
    globals := []
    hub := .ofCapacity (max b.limits.frameBuffer 1) }
  let s := s.update fun b => b.setState (some id) .running
  let s := s.update fun b => { b with run := some ⟨id, setting, b.now, [], false⟩ }
  let s := ports.foldl addForwarder s
  let s := s.addDispatcher setting
  (s.addTasks (intervalTasks setting ++ [mainTask setting]), id)

def startRefusal? (s : Session) (ports : List String) : Option SessionError :=
  if s.bench.state.isActive then some .alreadyRunning
  else if ports.isEmpty then some .noPorts
  else none

def startProgram (s : Session) (program : Program) (ports : List String) :
    Session × Except SessionError RunId :=
  match s.startRefusal? ports with
  | some e => (s, .error e)
  | none =>
    let s := s.retire.update fun b => { b with log := b.log.reset }
    let (s, id) := s.launch program ports
    (s, .ok id)

/-- Reads a script and starts it on some ports.  A script with errors is not started; they go to the
    log. -/
def start (s : Session) (source : String) (ports : List String) :
    Session × Except SessionError RunId :=
  match s.startRefusal? ports with
  | some e => (s, .error e)
  | none =>
    let s := s.retire.update fun b => { b with log := b.log.reset }
    match Program.ofSource source with
    | (program, []) =>
      let (s, id) := s.launch program ports
      (s, .ok id)
    | (_, errors) =>
      let s := s.update fun b => { b with log := b.log.recordErrors none errors }
      (s.update fun b => b.setState none .error, .error (.invalidScript errors.length))

def pause (s : Session) : Session × Except SessionError Unit :=
  if s.bench.state = .running then
    (s.update fun b => b.setState b.runId? .paused, .ok ())
  else (s, .error (.invalidTransition "pause" s.bench.state))

def resume (s : Session) : Session × Except SessionError Unit :=
  if s.bench.state = .paused then
    (s.update fun b => b.setState b.runId? .running, .ok ())
  else (s, .error (.invalidTransition "resume" s.bench.state))

def stop (s : Session) : Session :=
  let id := s.bench.runId?
  let s :=
    if s.bench.run.isSome then
      let s := s.update Bench.cancel
      let s := if s.bench.state.isActive then s.update fun b => b.setState id .stopped else s
      s.drain
    else s
  s.update fun b => b.setState id .idle

def inject (s : Session) (f : Frame) : Session × Nat :=
  let (bus, n) := s.bench.bus.inject s.bench.now f
  (s.update fun b => { b with bus }, n)

def injectAll (s : Session) : List Frame → Session × List Nat
  | [] => (s, [])
  | f :: rest =>
    let (s, n) := s.inject f
    let (s, ns) := injectAll s rest
    (s, n :: ns)

/-- Puts recorded frames on the bus with the time between them that they were recorded with,
    `previous` being the time of the last one.  The answer is how many there were until the end or
    until the moment `limit?`, whichever came first. -/
def replayAfter (s : Session) (port? : Option String) (limit? : Option Nat) (previous : Nat) :
    List Frame → Session × Nat
  | [] => (s, 0)
  | f :: rest =>
    let gap := f.timestamp - previous
    let due := s.bench.now + gap
    let stopAt? := limit?.filter fun limit => 0 < gap && limit ≤ due
    match stopAt? with
    | some limit => (s.advance (limit - s.bench.now), 0)
    | none =>
      let s : Session := if 0 < gap then s.advance gap else s
      let (s, _) := s.inject { f with port := port?.getD f.port, timestamp := 0 }
      let (s, n) := replayAfter s port? limit? f.timestamp rest
      (s, n + 1)

def replay (s : Session) (frames : List Frame) (port? : Option String)
    (cancelAfter? : Option Nat) : Session × Nat :=
  s.replayAfter port? (cancelAfter?.map (s.bench.now + ·)) 0 frames

def setFailing (s : Session) (port : String) (on : Bool) : Session :=
  s.update fun b => { b with bus := b.bus.setFailing port on }

def setLoopback (s : Session) (on : Bool) : Session :=
  s.update fun b => { b with bus := b.bus.setLoopback on }

def persist (s : Session) : Session :=
  s.update fun b => { b with log := b.log.persist }

def observe (s : Session) : Session × ReaderId :=
  let (events, r) := s.bench.log.events.subscribe
  (s.update fun b => { b with log := { b.log with events } }, r)

def newEvents (s : Session) (r : ReaderId) : Session × List (Received Event) :=
  let (got, events) := s.bench.log.events.drain r
  (s.update fun b => { b with log := { b.log with events } }, got)

def stateName : ExecutionState → String
  | .idle => "Idle"
  | .running => "Running"
  | .paused => "Paused"
  | .stopped => "Stopped"
  | .error => "Error"

def limitsSummary (c : RunConfig) : String :=
  s!"ExecutorConfig \x7b max_call_depth: {c.maxCallDepth}, yield_every: {c.yieldEvery}, "
    ++ s!"max_error_log: {c.maxErrorLog}, max_output_log: {c.maxOutputLog}, "
    ++ s!"frame_buffer: {c.frameBuffer} \x7d"

def summary (s : Session) : String :=
  s!"ScriptExecutor \x7b state: {stateName s.bench.state}, "
    ++ s!"config: {limitsSummary s.bench.limits}, writer: {Bus.writerSummary}, "
    ++ s!"log: {s.bench.log.summary} \x7d"

end Session

end CanScript
