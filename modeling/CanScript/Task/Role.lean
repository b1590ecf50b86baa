import CanScript.Task.Execute

/-! # The tasks of a run

    A run has a task for its main sequence, one for each target port that forwards arriving frames
    to the hub, one that tests the frames of the hub against the receive handlers, one for each
    interval handler, and one for each activation of a handler. -/

namespace CanScript

open Eval

def Eval.toProcess (x : Eval Unit) : Process Unit := do
  let _ ← x.start {}

def mainSequence (s : Setting) : List Stmt → Eval Unit
  | [] => release
  | stmt :: rest => do
    let result ← attempt do
      checkpoint s.limits.yieldEvery
      execStmt s s.call none stmt
    match result with
    | .ok _ => pure ()
    | .error d => ask (.report d)
    mainSequence s rest

def mainTask (s : Setting) : Process Unit :=
  Eval.toProcess do
    mainSequence s s.program.statements
    if !s.program.hasHandlers then ask .finish

def Setting.body (s : Setting) : Activation → List Stmt
  | .receive i _ => ((s.program.receiveHandlers[i]?).map (·.body)).getD []
  | .interval i => ((s.program.intervalHandlers[i]?).map (·.body)).getD []

def Activation.frame? : Activation → Option Frame
  | .receive _ f => some f
  | .interval _ => none

def activation (s : Setting) (a : Activation) : Eval Unit := do
  acquire
  inScope none fun inner => do
    match a.frame? with
    | some f => bindFrame (some inner) f
    | none => pure ()
    let _ ← execStmts s s.call (some inner) (s.body a)

def activationTask (s : Setting) (a : Activation) : Process Unit :=
  Eval.toProcess do
    let result ← attempt (activation s a)
    release
    match result with
    | .ok _ => pure ()
    | .error d => ask (.report d)

/-- Forwards the frames that arrive on a port to the hub. -/
def forwarder (port : String) (reader : ReaderId) : Process Unit :=
  Process.loop
    (fun _ => do
      match ← Process.ask (.receive (.port port reader)) with
      | none =>
        Process.ask (.leavePort port reader)
        pure (.inr ())
      | some (.lagged _) => pure (.inl ())
      | some (.item f) =>
        Process.ask (.publish f)
        pure (.inl ()))
    ()

def dispatchFrame (s : Setting) (f : Frame) : Nat → List ReceiveHandler → Eval Unit
  | _, [] => pure ()
  | i, h :: rest => do
    if ← frameMatches s s.call none h.predicate f then ask (.spawn (.receive i f))
    dispatchFrame s f (i + 1) rest

/-- Takes one frame from the hub; frames that arrive while the run is paused are passed over. -/
def dispatchRound (s : Setting) (reader : ReaderId) : Eval (Unit ⊕ Unit) := do
  match ← ask (.receive (.hub reader)) with
  | none => return .inr ()
  | some (.lagged _) => return .inl ()
  | some (.item f) =>
    match ← ask .standing with
    | .paused => return .inl ()
    | _ =>
      dispatchFrame s f 0 s.program.receiveHandlers
      release
      return .inl ()

def dispatcher (s : Setting) (reader : ReaderId) : Process Unit :=
  Eval.toProcess (loop (fun _ => dispatchRound s reader) ())

def period (s : Setting) (h : IntervalHandler) : Eval Nat := do
  let v ← evalExpr s s.call none h.period
  let millis ← ofResult h.period.pos v.asMillis
  if millis = 0 then fail h.pos .periodNotPositive else return millis

def intervalRound (i millis : Nat) : Eval (Unit ⊕ Unit) := do
  sleep millis
  ask (.spawn (.interval i))
  return .inl ()

def intervalTask (s : Setting) (i : Nat) (h : IntervalHandler) : Process Unit :=
  Eval.toProcess do
    acquire
    let result ← attempt (period s h)
    release
    match result with
    | .error d => ask (.report d)
    | .ok millis => loop (fun _ => intervalRound i millis) ()

end CanScript
