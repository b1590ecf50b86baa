import CanScript.Task.Evaluate
import CanScript.Task.Wait

/-! # Execution of statements

    Statements are executed by recursion on the script, calls of functions by recursion on how much
    deeper calls may go. -/

namespace CanScript

open Eval

/-! ## Frames -/

/-- Whether a frame satisfies a predicate, which sees the parts of the frame before anything else.
    A predicate that fails is reported, and the frame does not satisfy it. -/
def frameMatches (s : Setting) (call : Caller) (scope : Option ScopeId) (predicate : Expr)
    (f : Frame) : Eval Bool := do
  acquire
  let result ← attempt <| inScope scope fun inner => do
    bindFrame (some inner) f
    evalExpr s call (some inner) predicate
  match result with
  | .ok v => return v.isTruthy
  | .error d =>
    ask (.report d)
    return false

/-- One round of a wait for a frame: true when one has satisfied the predicate, false when the time
    is over.  Paused time moves the deadline away. -/
def waitRound (s : Setting) (call : Caller) (scope : Option ScopeId) (predicate : Expr)
    (reader : ReaderId) (deadline : Nat) : Eval (Nat ⊕ Bool) := do
  let held ← clock
  orStopped (← ask .awaitRunning)
  let now ← clock
  let deadline := deadline + (now - held)
  match ← ask (.nextFrame reader deadline) with
  | .stopped => throw .stopped
  | .expired => return .inr false
  | .paused => return .inl deadline
  | .lagged _ => return .inl deadline
  | .frame f =>
    if ← frameMatches s call scope predicate f then
      bindFrame scope f
      return .inr true
    else
      release
      return .inl deadline

def waitForFrame (s : Setting) (call : Caller) (scope : Option ScopeId) (predicate : Expr)
    (millis : Nat) : Eval Bool := do
  let reader ← ask .listen
  let now ← clock
  release
  let found ← loop (waitRound s call scope predicate reader) (now + millis)
  ask (.unlisten reader)
  return found

/-! ## Statements -/

/-- Sends a frame to the ports of the run. -/
def sendFrame (s : Setting) (call : Caller) (scope : Option ScopeId) (pos : Pos) (id : Expr)
    (data : List Expr) (extended : Bool) : Eval Unit := do
  let v ← evalExpr s call scope id
  let raw ← ofResult id.pos v.asInt
  if raw.toInt < 0 ∨ (Frame.maxExtendedId : Int) < raw.toInt then
    fail id.pos (.idOutOfRange raw)
  else
    let bs ← evalPayload s call scope data
    if Frame.maxPayload < bs.length then fail pos (.payloadTooLong bs.length)
    else
      let n := raw.toInt.toNat
      release
      writeAll pos n bs (extended || Frame.maxStandardId < n) s.ports
      acquire

def assignValue (scope : Option ScopeId) (pos : Pos) (name : String) (op : AssignOp) (v : Value) :
    Eval Unit :=
  match op.binary? with
  | none => assign scope name v
  | some op => do
    match ← lookup? scope name with
    | none => fail pos (.undefinedVariable name)
    | some old =>
      let v ← ofResult pos (Value.binary op old v)
      assign scope name v

def afterRound : Flow → Option Flow
  | .leave => some .normal
  | .giveBack v => some (.giveBack v)
  | _ => none

def repeatTimes (yieldEvery : Nat) (body : Eval Flow) : Nat → Bool → Eval Flow
  | 0, _ => pure .normal
  | n + 1, first => do
    if !first then checkpoint yieldEvery
    match afterRound (← body) with
    | some flow => return flow
    | none => repeatTimes yieldEvery body n false

def repeatForever (yieldEvery : Nat) (body : Eval Flow) : Eval Flow :=
  loop (fun (first : Bool) => do
    if !first then checkpoint yieldEvery
    match afterRound (← body) with
    | some flow => return .inr flow
    | none => return .inl false) true

mutual

/-- Executes a statement in a scope. -/
def execStmt (s : Setting) (call : Caller) (scope : Option ScopeId) : Stmt → Eval Flow
  | .declare _ name none => do
    define scope name .void
    return .normal
  | .declare _ name (some value) => do
    let v ← evalExpr s call scope value
    define scope name v
    return .normal
  | .assign pos name op value => do
    let v ← evalExpr s call scope value
    assignValue scope pos name op v
    return .normal
  | .send pos id data extended => do
    sendFrame s call scope pos id data extended.isSome
    return .normal
  | .delay _ duration => do
    let v ← evalExpr s call scope duration
    let millis ← ofResult duration.pos v.asMillis
    release
    sleep millis
    acquire
    return .normal
  | .times _ count body => do
    let v ← evalExpr s call scope count
    let n ← ofResult count.pos v.asInt
    repeatTimes s.limits.yieldEvery
      (inScope scope fun inner => execStmts s call (some inner) body) n.toInt.toNat true
  | .forever _ body =>
    repeatForever s.limits.yieldEvery
      (inScope scope fun inner => execStmts s call (some inner) body)
  | .when _ condition yes no => do
    let c ← evalExpr s call scope condition
    if c.isTruthy then inScope scope fun inner => execStmts s call (some inner) yes
    else execOptional s call scope no
  | .waitFor pos predicate timeout fallback => do
    let v ← evalExpr s call scope timeout
    let millis ← ofResult timeout.pos v.asMillis
    if ← waitForFrame s call scope predicate millis then return .normal
    else
      acquire
      if fallback.isNone then ask (.report ((Fault.waitTimedOut millis).toDiagnostic pos))
      execOptional s call scope fallback
  | .giveBack _ none => return .giveBack .void
  | .giveBack _ (some value) => do
    let v ← evalExpr s call scope value
    return .giveBack v
  | .leave _ => return .leave
  | .again _ => return .again
  | .print _ value => do
    let v ← evalExpr s call scope value
    ask (.print v.display)
    return .normal
  | .eval _ value => do
    let _ ← evalExpr s call scope value
    return .normal

def execOptional (s : Setting) (call : Caller) (scope : Option ScopeId) :
    Option (List Stmt) → Eval Flow
  | none => return .normal
  | some body => inScope scope fun inner => execStmts s call (some inner) body

def execStmts (s : Setting) (call : Caller) (scope : Option ScopeId) : List Stmt → Eval Flow
  | [] => return .normal
  | stmt :: rest => do
    checkpoint s.limits.yieldEvery
    match ← execStmt s call scope stmt with
    | .normal => execStmts s call scope rest
    | flow => return flow

end

/-- Calls a function of the script when calls may go a number of levels deeper.  Its scope is
    followed by the global one, not by the caller's. -/
def callFunction (s : Setting) : Nat → Caller
  | deeperBy, f, args, pos =>
    if args.length ≠ f.params.length then
      fail pos (.functionArity f.name f.params.length args.length)
    else
      match deeperBy with
      | 0 => fail pos (.callDepth s.limits.maxCallDepth f.name)
      | n + 1 => do
        let flow ← inScope none fun inner => do
          (f.params.zip args).forM fun (name, v) => define (some inner) name v
          deeper (execStmts s (callFunction s n) (some inner) f.body)
        match flow with
        | .giveBack v => return v
        | _ => return .void

def Setting.call (s : Setting) : Caller :=
  callFunction s s.limits.maxCallDepth

end CanScript
