import CanScript.Task.Eval

/-! # Sleeps and writes

    Where a task waits for time to pass.  A sleep counts running time only; a write goes on through
    a pause, and no two tasks write to a port at once. -/

namespace CanScript.Eval

def sleepStretch (remaining : Nat) : Eval (Nat ⊕ Unit) := do
  orStopped (← ask .awaitRunning)
  let began ← clock
  match ← ask (.sleepUntil (began + remaining) true) with
  | .expired => return .inr ()
  | .stopped => throw .stopped
  | .paused =>
    let now ← clock
    return .inl (remaining - (now - began))

def sleep (millis : Nat) : Eval Unit :=
  loop sleepStretch millis

/-- Writes a frame to its port when no other task is writing there. -/
def write (f : Frame) : Eval Bool := do
  orStopped (← ask (.claimPort f.port))
  let time : Nat ← ask .writeTime
  let now ← clock
  match ← ask (.sleepUntil (now + time) false) with
  | .expired =>
    let taken ← ask (.transmit f)
    ask (.leaveClaim f.port)
    return taken
  | _ =>
    ask (.leaveClaim f.port)
    throw .stopped

def writeAll (pos : Pos) (id : Nat) (data : List UInt8) (extended : Bool) :
    List String → Eval Unit
  | [] => pure ()
  | port :: ports => do
    let taken ← write ⟨id, data, extended, port, 0⟩
    if !taken then ask (.report ((Fault.writeFailed id port).toDiagnostic pos))
    writeAll pos id data extended ports

end CanScript.Eval
