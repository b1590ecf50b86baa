import CanScript.Config
import CanScript.Program
import CanScript.Task.Fault
import CanScript.Task.Process

/-! # Executions within a task

    A task keeps local scopes and counters of its own, and shares the global variables with other
    tasks.  It holds the turn while it works with them, and gives it up where it waits, while the
    run is paused, and after a number of statements.  So a statement that does not wait is never
    interrupted by another task. -/

namespace CanScript

/-- What the tasks of a run have in common. -/
structure Setting where
  program : Program
  ports : List String
  limits : RunConfig

/-- What a task keeps for itself. -/
structure Local where
  scopes : Scopes := .empty
  callDepth : Nat := 0
  sinceYield : Nat := 0

/-- Why an execution ended early. -/
inductive Interrupt where
  | error (d : Diagnostic)
  | stopped
  deriving DecidableEq, Repr

/-- How a statement ended. -/
inductive Flow where
  | normal
  | leave
  | again
  | giveBack (value : Value)

/-- An execution within a task. -/
abbrev Eval := ExceptT Interrupt (StateT Local Process)

/-- What an execution ends with: a value or the reason why there is none, and the own state of the
    task. -/
abbrev Exit (α : Type) := Except Interrupt α × Local

namespace Eval

variable {α β σ : Type}

def start (x : Eval α) (l : Local) : Process (Except Interrupt α × Local) :=
  x l

def ask (op : Request) : Eval op.Reply :=
  fun l => .act op fun r => .pure (.ok r, l)

def fail (pos : Pos) (f : Fault) : Eval α :=
  throw (.error (f.toDiagnostic pos))

def ofResult (pos : Pos) : Value.Result α → Eval α
  | .ok a => pure a
  | .error f => fail pos (.value f)

def orStopped (going : Bool) : Eval Unit :=
  if going then pure () else throw .stopped

def attempt (x : Eval α) : Eval (Except Diagnostic α) := fun l => do
  match ← x.start l with
  | (.ok a, l) => pure (.ok (.ok a), l)
  | (.error (.error d), l) => pure (.ok (.error d), l)
  | (.error .stopped, l) => pure (.error .stopped, l)

def loop (body : σ → Eval (σ ⊕ β)) (s : σ) : Eval β := fun l =>
  Process.loop
    (fun (p : σ × Local) => do
      match ← (body p.1).start p.2 with
      | (.ok (.inl s), l) => pure (.inl (s, l))
      | (.ok (.inr b), l) => pure (.inr (.ok b, l))
      | (.error e, l) => pure (.inr (.error e, l)))
    (s, l)

def inScope (parent : Option ScopeId) (body : ScopeId → Eval α) : Eval α := fun l => do
  let id := l.scopes.nextId
  let (result, l) ← (body id).start { l with scopes := l.scopes.openScope parent }
  pure (result, { l with scopes := l.scopes.close id })

def deeper (body : Eval α) : Eval α := fun l => do
  let (result, l) ← body.start { l with callDepth := l.callDepth + 1 }
  pure (result, { l with callDepth := l.callDepth - 1 })

def clock : Eval Nat :=
  ask .clock

def acquire : Eval Unit := do
  orStopped (← ask .acquire)

def release : Eval Unit :=
  ask .release

def globals : Eval Bindings := do
  match ← ask .globals with
  | some globals => pure globals
  | none => throw .stopped

def setGlobals (bs : Bindings) : Eval Unit := do
  orStopped (← ask (.setGlobals bs))

def lookup? (scope : Option ScopeId) (name : String) : Eval (Option Value) := do
  let globals ← globals
  return (← get).scopes.lookup? scope name globals

def store (scopes : Scopes) (bs : Bindings) : Eval Unit := do
  modify fun l => { l with scopes }
  setGlobals bs

def define (scope : Option ScopeId) (name : String) (v : Value) : Eval Unit := do
  let globals ← globals
  let (scopes, globals) := (← get).scopes.define scope name v globals
  store scopes globals

def assign (scope : Option ScopeId) (name : String) (v : Value) : Eval Unit := do
  let globals ← globals
  let scopes := (← get).scopes
  match scopes.assign? scope name v globals with
  | some (scopes, globals) => store scopes globals
  | none => store scopes (globals.insert name v)

def frameFields (f : Frame) : List (String × Value) :=
  [("id", .int (Int64.ofNat f.id)), ("data", .bytes f.data), ("ext", .bool f.extended),
    ("dlc", .int (Int64.ofNat f.dlc)), ("port", .text f.port),
    ("timestamp", .int (Int64.ofNat (min f.timestamp Number.maxInt64.toNat)))]

def bindFrame (scope : Option ScopeId) (f : Frame) : Eval Unit :=
  (frameFields f).forM fun (name, v) => define scope name v

def countStatement (yieldEvery : Nat) : Eval Bool := fun l =>
  let n := l.sinceYield + 1
  if max yieldEvery 1 ≤ n then pure (.ok true, { l with sinceYield := 0 })
  else pure (.ok false, { l with sinceYield := n })

/-- What comes before every statement and every further round of a loop: the run may have been
    stopped or paused, and other tasks may be due. -/
def checkpoint (yieldEvery : Nat) : Eval Unit := do
  match ← ask .standing with
  | .stopped => throw .stopped
  | .paused =>
    release
    orStopped (← ask .awaitRunning)
  | .running => pure ()
  if ← countStatement yieldEvery then
    release
    ask .yield
  acquire

end Eval

end CanScript
