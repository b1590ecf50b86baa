import CanScript.Proofs.Uniform

/-! # Predicates on the processes of tasks

    A predicate on processes gives one on executions: it holds from whatever state of a task.  If it
    is closed under sequence and makes no difference between plain requests, it holds of all that a
    script does, as far as it holds of writes, of the changes of variables and of the loops. -/

namespace CanScript

/-! ## Predicates on processes -/

namespace Process

/-- A predicate on processes that is closed under sequence. -/
structure Sequential (Q : {α : Type} → Process α → Prop) : Prop where
  pure : ∀ {α : Type} (a : α), Q (.pure a)
  bind : ∀ {α β : Type} {p} {f : α → Process β}, Q p → (∀ a, Q (f a)) → Q (p.bind f)

def Answers (Q : {α : Type} → Process α → Prop) (op : Request) : Prop :=
  ∀ ⦃α : Type⦄ ⦃next : op.Reply → Process α⦄, (∀ reply, Q (next reply)) → Q (.act op next)

end Process

namespace Eval

open Process

def Always (Q : {α : Type} → Process α → Prop) {α : Type} (x : Eval α) : Prop :=
  ∀ l, Q (x.start l)

/-- What holds whatever the answer is holds of asking. -/
lemma Asks.of_answers {Q : {α : Type} → Process α → Prop} {op} (h : Answers Q op) :
    Asks True (fun x => Always Q x) op :=
  fun _ _ hf l => h fun reply => hf reply (fun _ => trivial) l

def round {β σ : Type} (body : σ → Eval (σ ⊕ β)) (state : σ × Local) :
    Process ((σ × Local) ⊕ (Except Interrupt β × Local)) := do
  match ← (body state.1).start state.2 with
  | (.ok (.inl s), l) => Pure.pure (.inl (s, l))
  | (.ok (.inr b), l) => Pure.pure (.inr (.ok b, l))
  | (.error e, l) => Pure.pure (.inr (.error e, l))

end Eval

/-- One round of a forwarder. -/
def forwardRound (port : String) (r : ReaderId) : Process (Unit ⊕ Unit) := do
  match ← Process.ask (.receive (.port port r)) with
  | none =>
    Process.ask (.leavePort port r)
    pure (.inr ())
  | some (.lagged _) => pure (.inl ())
  | some (.item f) =>
    Process.ask (.publish f)
    pure (.inl ())

lemma forwarder_eq (port r) :
    forwarder port r = Process.loop (fun _ => forwardRound port r) () := rfl

variable {r : ReaderId}

namespace Process.Sequential

open Eval

variable {Q : {α : Type} → Process α → Prop} {α β σ : Type} (h : Sequential Q)

include h

lemma evalPure (a : α) : Always Q (Pure.pure a : Eval α) :=
  fun _ => h.pure _

/-- An interrupt asks for nothing. -/
lemma evalThrow (e : Interrupt) : Always Q (throw e : Eval α) :=
  fun _ => h.pure _

variable {x : Eval α}

/-- Sequence, where the rest is left out after an interrupt. -/
lemma evalBind {f : α → Eval β} (hx : Always Q x) (hf : ∀ a, Always Q (f a)) :
    Always Q (x >>= f) := by
  intro l
  refine h.bind (hx l) fun r => ?_
  obtain ⟨result, l'⟩ := r
  cases result with
  | ok a => exact hf a l'
  | error e => exact h.pure _

/-- What a task does with its own state alone asks for nothing. -/
lemma stateful : Stateful True (fun x => Always Q x) where
  own hx l := by
    obtain ⟨a, l', heq⟩ := hx l
    rw [heq]
    exact h.pure _
  throw e _ := h.evalThrow e
  bind := h.evalBind

lemma composes : Composes (.of fun x => Always Q x) :=
  h.stateful.composes

lemma evalAsk {op} (hop : Answers Q op) : Always Q (Eval.ask op) :=
  fun _ => hop fun _ => h.pure _

/-- From an execution to the process of a task that does nothing else. -/
lemma toProcess {x} (hx : Always Q x) : Q x.toProcess :=
  h.bind (hx {}) fun _ => h.pure ()

lemma evalInScope (parent) {body : ScopeId → Eval α} (hbody : ∀ id, Always Q (body id)) :
    Always Q (inScope parent body) :=
  fun _ => h.bind (hbody _ _) fun _ => h.pure _

lemma evalDeeper (hx : Always Q x) : Always Q (deeper x) :=
  fun _ => h.bind (hx _) fun _ => h.pure _

/-- An error that is caught makes no difference to what was asked. -/
lemma evalAttempt (hx : Always Q x) : Always Q (attempt x) := by
  intro l
  refine h.bind (hx l) fun r => ?_
  obtain ⟨result, l'⟩ := r
  cases result with
  | ok a => exact h.pure _
  | error e =>
    cases e with
    | error d | stopped => exact h.pure _

/-- One round of a loop, with the state of the task beside that of the loop. -/
lemma evalRound {body : σ → Eval (σ ⊕ β)} (hbody : ∀ s, Always Q (body s)) (state) :
    Q (round body state) := by
  refine h.bind (hbody state.1 state.2) fun r => ?_
  obtain ⟨result, l⟩ := r
  cases result with
  | ok outcome =>
    cases outcome with
    | inl s | inr b => exact h.pure _
  | error e => exact h.pure _

/-- A loop, if the predicate is kept by loops of processes. -/
lemma evalLoop {body : σ → Eval (σ ⊕ β)} (hbody : ∀ s, Always Q (body s))
    (hloop : ∀ {τ γ : Type} {step : τ → Process (τ ⊕ γ)}, (∀ s, Q (step s)) →
      ∀ s, Q (Process.loop step s)) (s) : Always Q (Eval.loop body s) :=
  fun l => hloop (h.evalRound hbody) (s, l)

lemma orStopped (going) : Always Q (orStopped going) :=
  h.stateful.orStopped fun _ => trivial

lemma evalAcquire (hacquire : Answers Q .acquire) : Always Q acquire :=
  h.stateful.acquire (.of_answers hacquire)

/-- A checkpoint asks for these five things at most. -/
lemma evalCheckpoint (hstanding : Answers Q .standing) (hrelease : Answers Q .release)
    (hawait : Answers Q .awaitRunning) (hyield : Answers Q .yield) (hacquire : Answers Q .acquire)
    (yieldEvery : Nat) : Always Q (checkpoint yieldEvery) :=
  h.stateful.checkpoint (.of_answers hstanding) (.of_answers hrelease) (.of_answers hawait)
    (.of_answers hyield) (.of_answers hacquire) yieldEvery

/-- Ordinary requests are all that a script needs besides loops and writes. -/
lemma uniform (hordinary : ∀ op, op.Ordinary → Answers Q op) :
    Uniform True (.of fun x => Always Q x) :=
  h.stateful.uniform (fun op hop => .of_answers (hordinary op hop.ordinary)) (h.evalInScope _)
    h.evalAttempt (h.evalCheckpoint (hordinary _ trivial) (hordinary _ trivial)
      (hordinary _ trivial) (hordinary _ trivial) (hordinary _ trivial))

lemma evalWrite (hordinary : ∀ op, op.Ordinary → Answers Q op) {f}
    (htransmit : Answers Q (.transmit f)) : Always Q (write f) :=
  (h.uniform hordinary).write (n := 0) (Asks.of_answers htransmit).of

lemma evalBindFrame {scope f}
    (hdefine : ∀ field ∈ frameFields f, Always Q (define scope field.1 field.2)) :
    Always Q (bindFrame scope f) :=
  h.composes.bindAll (n := 0) scope scope (frameFields f) hdefine

/-- The test of a frame: its fields are bound in a scope of its own, and an error is reported. -/
lemma evalFrameMatches {s call scope predicate} (hacquire : Answers Q .acquire)
    (hreport : ∀ d, Answers Q (.report d)) (hbind : ∀ scope f, Always Q (bindFrame scope f))
    (hpredicate : ∀ inner, Always Q (evalExpr s call (some inner) predicate)) (f : Frame) :
    Always Q (frameMatches s call scope predicate f) := by
  refine h.evalBind (h.evalAcquire hacquire) fun _ =>
    h.evalBind (h.evalAttempt (h.evalInScope scope
      fun inner => h.evalBind (hbind _ f) fun _ => hpredicate inner)) fun result => ?_
  cases result with
  | ok v => exact h.evalPure _
  | error d => exact h.evalBind (h.evalAsk (hreport d)) fun _ => h.evalPure _

/-- A round of a forwarder passes a frame on, or leaves the port when the run ends. -/
lemma forwardRound {port} (hreceive : Answers Q (.receive (.port port r)))
    (hleave : Answers Q (.leavePort port r)) (hpublish : ∀ f, Answers Q (.publish f)) :
    Q (forwardRound port r) := by
  refine hreceive fun received => ?_
  rcases received with _ | ⟨f⟩ | ⟨n⟩
  · exact hleave fun _ => h.pure _
  · exact hpublish f fun _ => h.pure _
  · exact h.pure _

/-- What expressions ask for: the variables, the time, chance, and the end of the run. -/
lemma closed (hglobals : Answers Q .globals) (helapsed : Answers Q .elapsed)
    (hentropy : Answers Q .entropy) (hfinish : Answers Q .finish) :
    Closed (.of (fun x => Always Q x)) where
  pure := h.evalPure
  throw _ := h.evalThrow _
  stop := h.evalBind (h.evalAsk hfinish) fun _ => h.evalThrow _
  bind := h.evalBind
  lookup name _ := h.stateful.lookup? (.of_answers hglobals) _ name
  elapsed := h.evalAsk helapsed
  entropy := h.evalAsk hentropy

section Variables

variable (hglobals : Answers Q .globals) (hset : ∀ bs, Answers Q (.setGlobals bs))

include hglobals hset

lemma evalDefine (scope name v) : Always Q (define scope name v) :=
  h.stateful.define (.of_answers hglobals) (fun bs => .of_answers (hset bs)) scope name v

lemma evalAssign (scope name v) : Always Q (assign scope name v) :=
  h.stateful.assign (.of_answers hglobals) (fun bs => .of_answers (hset bs)) scope name v

end Variables

end Process.Sequential

namespace Process

open Eval

/-- A predicate on processes that makes no difference between ordinary requests, and holds of the
    writes of frames that may be on the bus. -/
structure Sober (Q : {α : Type} → Process α → Prop) : Prop extends Sequential Q where
  ask : ∀ op : Request, op.Ordinary → Answers Q op
  write : ∀ f : Frame, f.Legal → Always Q (write f)

namespace Sober

variable {s : Setting} {Q : {α : Type} → Process α → Prop} (h : Sober Q)

include h

lemma request (op : Request) (hop : op.Ordinary) : Always Q (Eval.ask op) :=
  h.evalAsk (h.ask op hop)

lemma acquire : Always Q acquire :=
  h.evalAcquire (h.ask .acquire trivial)

lemma release : Always Q release :=
  h.request .release trivial

lemma uniform : Uniform True (.of fun x => Always Q x) :=
  h.toSequential.uniform h.ask

section Waits

variable {call : Caller} {scope : Option ScopeId} {predicate : Expr}
  (hbind : ∀ scope f, Always Q (bindFrame scope f))
  (hpredicate : ∀ inner, Always Q (evalExpr s call (some inner) predicate))

include hbind hpredicate

/-- The test of a frame asks for ordinary things besides the predicate. -/
lemma frameMatches (f) : Always Q (frameMatches s call scope predicate f) :=
  h.evalFrameMatches (h.ask _ trivial) (fun _ => h.ask _ trivial) hbind hpredicate f

/-- A round of a wait, for the reader of that wait. -/
lemma waitRound {reader} (hnext : ∀ deadline, Answers Q (.nextFrame reader deadline)) (deadline) :
    Always Q (waitRound s call scope predicate reader deadline) := by
  show (Comparison.of fun x => Always Q x).evals 0
    (CanScript.waitRound s call scope predicate reader deadline)
    (CanScript.waitRound s call scope predicate reader deadline)
  exact h.uniform.waitRound trivial (fun _ f => hbind _ f) (fun inner _ _ => hpredicate inner)
    (Asks.of_answers (h.ask .awaitRunning trivial)).of (fun _ => (Asks.of_answers (hnext _)).of)
    deadline

end Waits

lemma sleepStretch (remaining) : Always Q (sleepStretch remaining) :=
  h.uniform.sleepStretch (n := 0) (Asks.of_answers (h.ask .awaitRunning trivial)).of
    (fun _ => (Asks.of_answers (h.ask (.sleepUntil _ _) trivial)).of) remaining

/-- A round of an endless loop is a checkpoint and the body. -/
lemma foreverRound (yieldEvery) {body} (hbody : Always Q body) (first) :
    Always Q (foreverRound yieldEvery body first) :=
  h.composes.foreverRound (n := 0) yieldEvery yieldEvery (h.uniform.checkpoint yieldEvery) body body
    hbody first

/-- A wait gives back the reader that it was given, on which it has waited. -/
lemma waitForFrame {U : ReaderId → Prop}
    (hlisten : ∀ ⦃α : Type⦄ ⦃next : ReaderId → Process α⦄, (∀ r, U r → Q (next r)) →
      Q (.act .listen next)) (hunlisten : ∀ r, U r → Answers Q (.unlisten r)) {call scope predicate}
    (hloop : ∀ r, U r → ∀ deadline,
      Always Q (Eval.loop (CanScript.waitRound s call scope predicate r) deadline)) (millis) :
    Always Q (waitForFrame s call scope predicate millis) := by
  show (Comparison.of fun x => Always Q x).evals 0
    (CanScript.waitForFrame s call scope predicate millis)
    (CanScript.waitForFrame s call scope predicate millis)
  exact h.uniform.waitForFrame (fun _ _ _ hf l => hlisten fun r hr => hf r hr l)
    (fun r hr => (Asks.of_answers (hunlisten r hr)).of) hloop millis

/-- An assignment changes the variables once its value is there. -/
lemma execAssign (hset : ∀ bs, Answers Q (.setGlobals bs)) {call scope} (pos : Pos) (name op)
    {value} (hvalue : Always Q (evalExpr s call scope value)) :
    Always Q (execStmt s call scope (.assign pos name op value)) := by
  have hglobals : Answers Q .globals := h.ask _ trivial
  have hclosed := h.closed hglobals (h.ask _ trivial) (h.ask _ trivial) (h.ask _ trivial)
  rw [execStmt]
  exact h.evalBind hvalue fun v => h.evalBind (hclosed.assignValue (n := 0) _ none trivial
    (h.evalAssign hglobals hset _ name) pos op v) fun _ => h.evalPure _

/-- All that a script does, from its sleeps, endless loops, definitions, assignments and waits. -/
lemma attends {A} (hsleep : ∀ millis, Always Q (sleep millis))
    (hforever : A .cycle → ∀ {round}, Always Q round →
      Always Q (repeatForever s.limits.yieldEvery round)) (hdefine : ∀ {scope} name v,
      (scope = none → A (.declare name)) → Always Q (define scope name v))
    (hassign : ∀ {call scope} pos name op {value}, A (.assign name op) →
      Always Q (evalExpr s call scope value) →
      Always Q (execStmt s call scope (.assign pos name op value)))
    (hwait : ∀ {call scope predicate} millis, A .wait →
      (∀ inner, Always Q (evalExpr s call (some inner) predicate)) →
      Always Q (CanScript.waitForFrame s call scope predicate millis)) :
    Attends s A (.of (fun x => Always Q x)) where
  toExecutes := h.uniform.executes h.write hsleep (fun hcycle => hforever hcycle)
    (fun name v _ => hdefine name v)
    (fun pos name op _ _ => hassign pos name op) fun millis _ hdeed hpredicate =>
      hwait millis hdeed fun inner => hpredicate inner inner trivial
  deeper hx := h.evalDeeper hx
  attempt hx := h.evalAttempt hx
  acquire := h.acquire
  release := h.release

end Sober

/-- A predicate on processes that makes no difference between plain requests, and holds of the
    writes of frames that may be on the bus. -/
structure Indifferent (Q : {α : Type} → Process α → Prop) : Prop extends Sequential Q where
  ask : ∀ op : Request, op.Plain → Answers Q op
  write : ∀ f : Frame, f.Legal → Always Q (write f)

namespace Indifferent

variable {s : Setting} {Q : {α : Type} → Process α → Prop} (h : Indifferent Q)

include h

/-- Ordinary requests are plain. -/
lemma sober : Sober Q :=
  ⟨h.toSequential, fun op hop => h.ask op hop.plain, h.write⟩

lemma request (op : Request) (hop : op.Plain) : Always Q (Eval.ask op) :=
  h.evalAsk (h.ask op hop)

end Indifferent

/-- An indifferent predicate that holds of the loops of executions, too. -/
structure Pervasive (s : Setting) (Q : {α : Type} → Process α → Prop) : Prop
    extends Indifferent Q where
  sleep : ∀ millis, Always Q (sleep millis)
  repeatForever : ∀ {round}, Always Q round → Always Q (repeatForever s.limits.yieldEvery round)
  waitLoop : ∀ {call scope predicate},
    (∀ reader deadline, Always Q (waitRound s call scope predicate reader deadline)) →
    ∀ reader deadline, Always Q (Eval.loop (waitRound s call scope predicate reader) deadline)

/-- Where loops of processes are no matter, those of executions are none. -/
lemma Indifferent.pervasive {Q : {α : Type} → Process α → Prop} (h : Indifferent Q)
    (hloop : ∀ {σ β : Type} {round : σ → Process (σ ⊕ β)}, (∀ s, Q (round s)) →
      ∀ s, Q (Process.loop round s)) (s) : Pervasive s Q where
  toIndifferent := h
  sleep := h.evalLoop h.sober.sleepStretch hloop
  repeatForever hround := h.evalLoop (h.sober.foreverRound _ hround) hloop true
  waitLoop hround reader := h.evalLoop (hround reader) hloop

namespace Pervasive

variable {s : Setting} {Q : {α : Type} → Process α → Prop} {A : Deed → Prop}

/-- A wait, from the binding of the fields and the predicate. -/
lemma waitForFrame (h : Pervasive s Q) {call} {scope : Option ScopeId} {predicate}
    (hbind : ∀ scope f, Always Q (bindFrame scope f))
    (hpredicate : ∀ inner, Always Q (evalExpr s call (some inner) predicate)) (millis) :
    Always Q (waitForFrame s call scope predicate millis) := by
  have hround : ∀ reader deadline,
      Always Q (CanScript.waitRound s call scope predicate reader deadline) :=
    fun _ => h.sober.waitRound hbind hpredicate fun _ => h.ask _ trivial
  exact h.sober.waitForFrame (U := fun _ => True)
    (fun _ _ hnext => h.ask .listen trivial fun r => hnext r trivial)
    (fun _ _ => h.ask _ trivial) (fun r _ => h.waitLoop hround r) millis

/-- All that a script does, from the definitions and assignments that it may make. -/
lemma conducts (h : Pervasive s Q) (hinner : ∀ id name v, Always Q (define (some id) name v))
    (hdeclare : ∀ name v, A (.declare name) → Always Q (define none name v))
    (hfields : A .wait → ∀ f, ∀ field ∈ frameFields f, A (.declare field.1))
    (hassign : ∀ {call scope} pos name op {value}, A (.assign name op) →
      Always Q (evalExpr s call scope value) →
      Always Q (execStmt s call scope (.assign pos name op value))) :
    Conducts s A (.of (fun x => Always Q x)) := by
  have hdefine : ∀ scope name v,
      (scope = none → A (.declare name)) → Always Q (define scope name v) := by
    intro scope name v hname
    cases scope with
    | none => exact hdeclare name v (hname rfl)
    | some id => exact hinner id name v
  refine ⟨h.sober.attends h.sleep (fun _ => h.repeatForever) (hdefine _) hassign
    fun millis hwait hpredicate => ?_, fun a => h.request (.spawn a) trivial⟩
  exact h.waitForFrame (fun scope f => h.evalBindFrame fun field hmem =>
    hdefine scope _ _ fun _ => hfields hwait f field hmem) hpredicate millis

end Pervasive

end Process

/-! ## Whole tasks -/

/-- What the main sequence does when some statements are left. -/
def mainRest (s : Setting) (stmts : List Stmt) : Eval Unit := do
  mainSequence s stmts
  if !s.program.hasHandlers then Eval.ask .finish

/-- The main task is the main sequence from its first statement on. -/
lemma mainTask_eq (s) : mainTask s = (mainRest s s.program.statements).toProcess := rfl

namespace Process

open Eval

variable {s : Setting} {Q : {α : Type} → Process α → Prop} {A : Deed → Prop}

namespace Sober

variable (h : Sober Q)

include h

/-- The rest of the main sequence, which ends the run if no handler is left to wait for. -/
lemma mainRest (hc : Attends s A (.of (fun x => Always Q x))) (hallows : s.program.Allows A)
    {stmts} (hd : ∀ d ∈ Stmt.listDeeds stmts, A d) : Always Q (mainRest s stmts) := by
  refine h.evalBind (hc.mainSequence hallows hd) fun _ => ?_
  cases s.program.hasHandlers with
  | true => exact h.evalPure _
  | false => exact h.request .finish trivial

/-- A round of the dispatcher: frames of a paused run are dropped. -/
lemma dispatchRound (hreceive : Answers Q (.receive (.hub r)))
    (hframe : ∀ f, Always Q (dispatchFrame s f 0 s.program.receiveHandlers)) :
    Always Q (dispatchRound s r) := by
  refine h.evalBind (h.evalAsk hreceive) fun received => ?_
  rcases received with _ | ⟨f⟩ | ⟨n⟩
  · exact h.evalPure _
  · refine h.evalBind (h.request .standing trivial) fun standing => ?_
    have hdispatch : Always Q (do
        dispatchFrame s f 0 s.program.receiveHandlers
        Eval.release
        return (.inl () : Unit ⊕ Unit)) :=
      h.evalBind (hframe f) fun _ => h.evalBind h.release fun _ => h.evalPure _
    cases standing with
    | running => exact hdispatch
    | paused => exact h.evalPure _
    | stopped => exact hdispatch
  · exact h.evalPure _

/-- An activation reports the error that ends it. -/
lemma activationTask (hc : Attends s A (.of (fun x => Always Q x)))
    (hs : s.program.Restricts A) (a : Activation) : Q (activationTask s a) := by
  refine h.toProcess (h.evalBind (h.evalAttempt (hc.activation hs a)) fun result =>
    h.evalBind h.release fun _ => ?_)
  cases result with
  | ok u => exact h.evalPure _
  | error d => exact h.request (.report d) trivial

/-- An interval reports an error in its period, or ticks from then on. -/
lemma intervalTask {i handler} (hperiod : Always Q (period s handler))
    (hloop : ∀ millis, Always Q (Eval.loop (fun _ => intervalRound i millis) ())) :
    Q (intervalTask s i handler) := by
  refine h.toProcess (h.evalBind h.acquire fun _ => h.evalBind (h.evalAttempt hperiod)
    fun result => h.evalBind h.release fun _ => ?_)
  cases result with
  | ok millis => exact hloop millis
  | error d => exact h.request (.report d) trivial

end Sober

lemma Pervasive.dispatchRound (h : Pervasive s Q) (hc : Conducts s A (.of (fun x => Always Q x)))
    (hs : s.program.Restricts A) (hreceive : Answers Q (.receive (.hub r))) :
    Always Q (dispatchRound s r) :=
  h.sober.dispatchRound hreceive fun _ =>
    hc.dispatchFrame hs (fun _ => hc.spawn _) 0 fun _ hmem => hmem

lemma Pervasive.intervalRound (h : Pervasive s Q) (i millis : Nat) :
    Always Q (intervalRound i millis) :=
  h.evalBind (h.sleep millis) fun _ =>
    h.evalBind (h.request (.spawn (.interval i)) trivial) fun _ => h.evalPure _

/-! ## Predicates that mind readers and new tasks

A predicate that makes a difference between readers of the hub, or between the tasks that a
process starts, still holds of all that a script does if it holds of what is done with a reader
that was just given out, since a script knows no other. -/

/-- A sober predicate that holds of loops and of the changes of variables, and of what is done with
    a reader that was given out. -/
structure Temperate (Q : {α : Type} → Process α → Prop) (U : ReaderId → Prop) : Prop
    extends Sober Q where
  setGlobals : ∀ bs, Answers Q (.setGlobals bs)
  loop : ∀ {σ β : Type} {round : σ → Process (σ ⊕ β)}, (∀ s, Q (round s)) →
    ∀ s, Q (Process.loop round s)
  listen : ∀ ⦃α : Type⦄ ⦃next : ReaderId → Process α⦄, (∀ r, U r → Q (next r)) →
    Q (.act .listen next)
  unlisten : ∀ r, U r → Answers Q (.unlisten r)
  nextFrame : ∀ r, U r → ∀ deadline, Answers Q (.nextFrame r deadline)

namespace Temperate

variable {U : ReaderId → Prop} (h : Temperate Q U)

include h

/-! ### Executions -/

variable (scope : Option ScopeId)

lemma define (name v) : Always Q (define scope name v) :=
  h.evalDefine (h.ask _ trivial) h.setGlobals scope name v

lemma bindFrame (f) : Always Q (bindFrame scope f) :=
  h.evalBindFrame fun field _ => h.define scope field.1 field.2

lemma sleep (millis : Nat) : Always Q (sleep millis) :=
  h.evalLoop h.sleepStretch h.loop millis

/-- A wait on a reader that was just given out. -/
lemma awaitFrame {call scope predicate}
    (hpredicate : ∀ inner, Always Q (evalExpr s call (some inner) predicate)) (millis : Nat) :
    Always Q (waitForFrame s call scope predicate millis) :=
  h.waitForFrame h.listen h.unlisten (fun r hr deadline => h.evalLoop
    (h.waitRound h.bindFrame hpredicate (h.nextFrame r hr)) h.loop deadline) millis

/-- All that a script does, whatever its deeds are. -/
lemma executes (s : Setting) : Attends s (fun _ => True) (.of fun x => Always Q x) :=
  h.attends h.sleep (fun _ _ hround => h.evalLoop (h.foreverRound _ hround) h.loop true)
    (fun name v _ => h.define _ name v) (fun pos name op _ _ =>
      h.execAssign h.setGlobals pos name op)
    fun millis _ hpredicate => h.awaitFrame hpredicate millis

lemma evalExpr (e : Expr) : Always Q (evalExpr s s.call scope e) := by
  have hscope : (Comparison.of fun x => Always Q x).scopes 0 scope scope := trivial
  exact (h.executes s).expr ((h.executes s).call fun _ _ _ _ _ _ => trivial) e
    (fun _ _ => trivial) hscope

lemma examines (predicate f) : Always Q (CanScript.frameMatches s s.call scope predicate f) :=
  h.frameMatches h.bindFrame (fun inner => h.evalExpr (some inner) predicate) f

/-! ### The tasks of a run -/

/-- The main task of a run. -/
lemma mainTask (s) : Q (mainTask s) := by
  rw [mainTask_eq]
  exact h.toProcess (h.mainRest (h.executes s) s.program.unrestricted.allows fun _ _ => trivial)

lemma activationTask (s a) : Q (activationTask s a) :=
  h.toSober.activationTask (h.executes s) s.program.unrestricted a

/-- The period of an interval is a positive number, or an error. -/
lemma period (handler : IntervalHandler) : Always Q (period s handler) := by
  refine h.evalBind (h.evalExpr none handler.period) fun v =>
    h.evalBind ((h.executes s).ofResult (n := 0) _ _) fun millis => ?_
  split
  · exact h.evalThrow _
  · exact h.evalPure _

/-- The task of an interval starts activations of that interval only. -/
lemma intervalTask {i} (hspawn : Answers Q (.spawn (.interval i))) (s : Setting)
    (handler : IntervalHandler) : Q (intervalTask s i handler) := by
  have hround : ∀ millis, Always Q (intervalRound i millis) := fun millis =>
    h.evalBind (h.sleep millis) fun _ => h.evalBind (h.evalAsk hspawn) fun _ => h.evalPure _
  exact h.toSober.intervalTask (h.period handler)
    fun millis => h.evalLoop (fun _ => hround millis) h.loop ()

/-- The dispatcher starts activations of receive handlers only. -/
lemma dispatcher (hspawn : ∀ a f, Answers Q (.spawn (.receive a f))) {r}
    (hreceive : Answers Q (.receive (.hub r))) (s : Setting) : Q (dispatcher s r) := by
  have hround : Always Q (CanScript.dispatchRound s r) := h.dispatchRound hreceive fun f =>
    (h.executes s).dispatchFrame s.program.unrestricted (fun i => h.evalAsk (hspawn i f)) 0
      fun _ hmem => hmem
  exact h.toProcess (h.evalLoop (fun _ => hround) h.loop ())

/-- A forwarder gets frames from its port and puts them into the hub. -/
lemma forwarder {port r} (hreceive : Answers Q (.receive (.port port r)))
    (hleave : Answers Q (.leavePort port r)) (hpublish : ∀ f, Answers Q (.publish f)) :
    Q (forwarder port r) := by
  rw [forwarder_eq]
  exact h.loop (fun _ => h.forwardRound hreceive hleave hpublish) ()

end Temperate

end Process

end CanScript
