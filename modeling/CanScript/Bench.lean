import CanScript.Bus
import CanScript.Config
import CanScript.Log
import CanScript.Task.Eval

/-! # The bench

    What the tasks of a run share, and what outlives a run: the clock, the bus, the logs, the state
    of the session, and the global variables with the turn that guards them. -/

namespace CanScript

/-- The number of a task. -/
abbrev TaskId := Nat

/-- A run, from its start until the next one or until it is stopped. -/
structure Run where
  id : RunId
  setting : Setting
  startedAt : Nat
  /-- The readers that the run has on its ports. -/
  readers : List (String × ReaderId) := []
  cancelled : Bool := false

/-- The shared state of all tasks. -/
structure Bench where
  limits : RunConfig
  bus : Bus
  log : Log
  /-- The milliseconds that a write takes. -/
  writeTime : Nat := 0
  now : Nat := 0
  state : ExecutionState := .idle
  run : Option Run := none
  /-- How many runs there were. -/
  runs : Nat := 0
  /-- The variables of the current or the last run. -/
  globals : Bindings := []
  /-- The task that has the turn. -/
  turn : Option TaskId := none
  /-- Where the frames of all ports of the run come together. -/
  hub : Channel Frame := .ofCapacity 1
  /-- For each port the tasks that claim it, the one that uses it first. -/
  claims : List (String × List TaskId) := []
  /-- Activations that have yet to become tasks. -/
  spawned : List Activation := []
  nextTask : TaskId := 0
  seed : Nat := 1

def ExecutionState.isActive : ExecutionState → Bool
  | running => true
  | paused => true
  | _ => false

namespace Bench

def ofLimits (limits : RunConfig) (bus : Bus) (writeTime : Nat) : Bench :=
  { limits, bus, writeTime, log := .ofLimits limits.maxErrorLog limits.maxOutputLog }

def isCancelled (b : Bench) : Bool :=
  b.run.all (·.cancelled)

def isPaused (b : Bench) : Bool :=
  b.state == .paused

def standing (b : Bench) : Standing :=
  if b.isCancelled then .stopped else if b.isPaused then .paused else .running

def runId? (b : Bench) : Option RunId :=
  b.run.map (·.id)

def setState (b : Bench) (run : Option RunId) (s : ExecutionState) : Bench :=
  if b.state = s then b else { b with state := s, log := b.log.recordState run s }

def cancel (b : Bench) : Bench :=
  { b with run := b.run.map fun r => { r with cancelled := true } }

def finish (b : Bench) : Bench :=
  let b := b.cancel
  if b.state.isActive then b.setState b.runId? .stopped else b

def report (b : Bench) (d : Diagnostic) : Bench :=
  { b with log := b.log.recordError b.runId? d }

def claimsOn (b : Bench) (port : String) : List TaskId :=
  (b.claims.lookup port).getD []

def setClaims (b : Bench) (port : String) (tasks : List TaskId) : Bench :=
  { b with claims := (port, tasks) :: b.claims.filter fun p => p.1 != port }

def addClaim (b : Bench) (port : String) (t : TaskId) : Bench :=
  let tasks := b.claimsOn port
  if tasks.contains t then b else b.setClaims port (tasks ++ [t])

def dropClaim (b : Bench) (port : String) (t : TaskId) : Bench :=
  b.setClaims port ((b.claimsOn port).filter (· != t))

def nextRandom (b : Bench) : Nat × Bench :=
  let seed := (b.seed * 6364136223846793005 + 1442695040888963407) % Number.pow2 64
  ((seed ^^^ (seed >>> 32)) % Number.pow2 64, { b with seed })

end Bench

end CanScript
