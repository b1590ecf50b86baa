import CanScript.Bench.Perform
import CanScript.Task.Role

/-! # The schedule

    Tasks go on one after another, each until it has to wait or lets others go first.  When no task
    can go on the clock moves to the next moment that a task waits for.  A schedule is cut off after
    a number of steps, which only a script that never waits can use up. -/

namespace CanScript

/-- A task: its number and what it still has to do. -/
structure Task where
  id : TaskId
  rest : Process Unit

/-- The bench with the tasks at work on it. -/
structure Machine where
  bench : Bench
  tasks : List Task := []

/-- What came of letting a task go on. -/
structure Slice where
  bench : Bench
  /-- What the task still has to do, if it has not ended. -/
  rest : Option (Process Unit)
  /-- Whether the task did anything. -/
  moved : Bool

def runTask (t : TaskId) : Nat → Bool → Bench → Process Unit → Slice
  | 0, moved, b, p => ⟨b, some p, moved⟩
  | _ + 1, _, b, .pure _ => ⟨b, none, true⟩
  | n + 1, _, b, .iter body s next => runTask t n true b (Process.unfold body s next)
  | n + 1, moved, b, .act op next =>
    match b.perform t op with
    | .done b reply => runTask t n true b (next reply)
    | .yielded b reply => ⟨b, some (next reply), true⟩
    | .wait b => ⟨b, some (.act op next), moved⟩

def stepLimit : Nat :=
  1000000000

def passLimit : Nat :=
  1000000000

namespace Machine

def startTasks (m : Machine) : Machine :=
  match m.bench.run with
  | none => { m with bench := { m.bench with spawned := [] } }
  | some run =>
    let first := m.bench.nextTask
    let added := m.bench.spawned.zipIdx.map fun (a, i) =>
      ⟨first + i, activationTask run.setting a⟩
    { bench := { m.bench with spawned := [], nextTask := first + added.length }
      tasks := m.tasks ++ added }

def passOver (b : Bench) (moved : Bool) (kept : List Task) : List Task → Machine × Bool
  | [] => (⟨b, kept.reverse⟩, moved)
  | task :: rest =>
    let slice := runTask task.id stepLimit false b task.rest
    let kept :=
      match slice.rest with
      | some p => ⟨task.id, p⟩ :: kept
      | none => kept
    passOver slice.bench (moved || slice.moved) kept rest

def pass (m : Machine) : Machine × Bool :=
  let (m, moved) := passOver m.bench false [] m.tasks
  (m.startTasks, moved)

def settleWithin (m : Machine) : Nat → Machine
  | 0 => m
  | n + 1 =>
    match m.pass with
    | (m, true) => settleWithin m n
    | (m, false) => m

def settle (m : Machine) : Machine :=
  m.settleWithin passLimit

def deadlines (m : Machine) : List Nat :=
  m.tasks.filterMap fun task => task.rest.request?.bind Request.deadline?

def nextDeadline? (m : Machine) (target : Nat) : Option Nat :=
  (m.deadlines.filter fun d => m.bench.now < d ∧ d ≤ target).min?

def setClock (m : Machine) (now : Nat) : Machine :=
  { m with bench := { m.bench with now } }

def isSettled (m : Machine) : Bool :=
  !m.bench.state.isActive

def passTime (passes : Nat) (until? : Machine → Bool) (target : Nat) : Nat → Machine → Machine
  | 0, m => m
  | n + 1, m =>
    let m := m.settleWithin passes
    if until? m then m
    else
      match m.nextDeadline? target with
      | some d => passTime passes until? target n (m.setClock d)
      | none => m.setClock (max m.bench.now target)

def advance (m : Machine) (millis : Nat) : Machine :=
  passTime passLimit (fun _ => false) (m.bench.now + millis) (millis + 1) m

def settleRunWithin (passes : Nat) (m : Machine) (limit : Nat) : Machine :=
  passTime passes isSettled (m.bench.now + limit) (limit + 1) m

def advanceUntilSettled (m : Machine) (limit : Nat) : Machine :=
  settleRunWithin passLimit m limit

end Machine

end CanScript
