import CanScript.Proofs.Closure

/-! # Comparisons that make no difference between requests

    What a script does is put together from requests and what follows on their replies.  Most
    comparisons make no difference between requests: they hold of executions that begin with one if
    they hold of what follows.  Some hold of an execution that breaks off only where it has to,
    because of the reply that it got. -/

namespace CanScript

namespace Request

/-- The requests that a script makes at many places: all but those that change variables, write to a
    port, or pass frames on. -/
def Plain : Request → Prop
  | .setGlobals _ => False
  | .transmit _ => False
  | .receive _ => False
  | .leavePort _ _ => False
  | .publish _ => False
  | _ => True

def Ordinary : Request → Prop
  | .listen => False
  | .unlisten _ => False
  | .nextFrame _ _ => False
  | .spawn _ => False
  | op => op.Plain

/-- The ordinary requests for which pauses do not matter. -/
def Steady : Request → Prop
  | .standing => False
  | .awaitRunning => False
  | .sleepUntil _ heedPause => heedPause = false
  | op => op.Ordinary

variable {op : Request}

lemma Ordinary.plain (h : op.Ordinary) : op.Plain := by
  cases op with
  | listen => exact h.elim
  | unlisten r => exact h.elim
  | nextFrame r deadline => exact h.elim
  | spawn a => exact h.elim
  | _ => exact h

lemma Steady.ordinary (h : op.Steady) : op.Ordinary := by
  cases op with
  | standing => exact h.elim
  | awaitRunning => exact h.elim
  | sleepUntil deadline heedPause => trivial
  | _ => exact h

/-- The replies after which an execution breaks off: the run was told to end, or the task does not
    have the turn. -/
def Halts : (op : Request) → op.Reply → Prop
  | .standing, reply => (reply : Standing) = .stopped
  | .acquire, reply => (reply : Bool) = false
  | .awaitRunning, reply => (reply : Bool) = false
  | .claimPort _, reply => (reply : Bool) = false
  | .sleepUntil _ heedPause, reply =>
    (reply : Waking) = .stopped ∨ heedPause = false ∧ (reply : Waking) = .paused
  | .nextFrame _ _, reply => (reply : Arrival) = .stopped
  | .globals, reply => (reply : Option Bindings) = none
  | .setGlobals _, reply => (reply : Bool) = false
  | .finish, _ => True
  | _, _ => False

end Request

namespace Eval

def Comparison.Asks (K : Comparison) (stops : Prop) (op : Request) : Prop :=
  ∀ ⦃n : Nat⦄ ⦃α : Type⦄ ⦃f g : op.Reply → Eval α⦄,
    (∀ reply, (op.Halts reply → stops) → K.evals n (f reply) (g reply)) →
    K.evals n (ask op >>= f) (ask op >>= g)

section Sequences

variable {K : Comparison} {stops : Prop} {n : Nat}

lemma Composes.ask (h : Composes K) {op} (hop : K.Asks stops op) : K.evals n (ask op) (ask op) :=
  hop fun reply _ => h.pure reply

def foreverRound (yieldEvery : Nat) (body : Eval Flow) (first : Bool) : Eval (Bool ⊕ Flow) := do
  if !first then checkpoint yieldEvery
  match afterRound (← body) with
  | some flow => return .inr flow
  | none => return .inl false

lemma repeatForever_eq (yieldEvery body) :
    repeatForever yieldEvery body = loop (foreverRound yieldEvery body) true := rfl

lemma Composes.foreverRound (h : Composes K) (yieldEvery yieldEvery')
    (hcheckpoint : K.evals n (checkpoint yieldEvery) (checkpoint yieldEvery')) (body body')
    (hbody : K.evals n body body') (first) :
    K.evals n (foreverRound yieldEvery body first) (Eval.foreverRound yieldEvery' body' first) := by
  have hfirst : K.evals n (Eval.foreverRound yieldEvery body true)
      (Eval.foreverRound yieldEvery' body' true) := by
    refine h.bind hbody fun flow => ?_
    cases afterRound flow with
    | some flow | none => exact h.pure _
  cases first with
  | true => exact hfirst
  | false => exact h.bind hcheckpoint fun _ => hfirst

end Sequences

/-! ## What a task does with its own state -/

/-- A predicate that holds of whatever a task does with its own state. -/
structure Stateful (stops : Prop) (P : {α : Type} → Eval α → Prop) : Prop where
  own : ∀ {α : Type} {x : Eval α}, (∀ l, ∃ a l', x.start l = .pure (.ok a, l')) → P x
  throw : ∀ {α : Type} e, (e = .stopped → stops) → P (throw e : Eval α)
  bind : ∀ {α β : Type} {x} {f : α → Eval β}, P x → (∀ a, P (f a)) → P (x >>= f)

def Asks (stops : Prop) (P : {α : Type} → Eval α → Prop) (op : Request) : Prop :=
  ∀ ⦃α : Type⦄ ⦃f : op.Reply → Eval α⦄,
    (∀ reply, (op.Halts reply → stops) → P (f reply)) → P (ask op >>= f)

lemma Asks.of {stops P op} (h : Asks stops P op) : (Comparison.of P).Asks stops op :=
  fun _ _ _ _ hf => h hf

def storeAssigned (scopes : Scopes) (name : String) (v : Value) (bs : Bindings) :
    Option (Scopes × Bindings) → Eval Unit
  | some (scopes, bs) => store scopes bs
  | none => store scopes (bs.insert name v)

namespace Stateful

variable {stops : Prop} {P : {α : Type} → Eval α → Prop} (h : Stateful stops P)

include h

lemma composes : Composes (.of P) :=
  ⟨fun _ => h.own fun _ => ⟨_, _, rfl⟩, h.bind⟩

lemma orStopped {going} (hgoing : going = false → stops) : P (orStopped going) := by
  cases going with
  | true => exact h.own fun _ => ⟨_, _, rfl⟩
  | false => exact h.throw _ fun _ => hgoing rfl

lemma acquire (hacquire : Asks stops P .acquire) : P acquire :=
  hacquire fun _ hstops => h.orStopped hstops

lemma countStatement (yieldEvery) : P (countStatement yieldEvery) := by
  refine h.own fun l => ?_
  by_cases hdue : max yieldEvery 1 ≤ l.sinceYield + 1
  · exact ⟨_, _, if_pos hdue⟩
  · exact ⟨_, _, if_neg hdue⟩

lemma checkpoint (hstanding : Asks stops P .standing) (hrelease : Asks stops P .release)
    (hawait : Asks stops P .awaitRunning) (hyield : Asks stops P .yield)
    (hacquire : Asks stops P .acquire) (yieldEvery) : P (checkpoint yieldEvery) := by
  have hrest : P (do
      if ← Eval.countStatement yieldEvery then
        release
        ask .yield
      Eval.acquire) := by
    refine h.bind (h.countStatement yieldEvery) fun due => ?_
    cases due with
    | false => exact h.acquire hacquire
    | true => exact hrelease fun _ _ => hyield fun _ _ => h.acquire hacquire
  refine hstanding fun standing hstops => ?_
  cases standing with
  | running => exact hrest
  | paused =>
    exact hrelease fun _ _ => hawait fun _ hstops => h.bind (h.orStopped hstops) fun _ => hrest
  | stopped => exact h.throw _ fun _ => hstops rfl

section Variables

variable (hglobals : Asks stops P .globals)

include hglobals

lemma globals : P globals := by
  refine hglobals fun found hstops => ?_
  cases found with
  | some bs => exact h.own fun _ => ⟨_, _, rfl⟩
  | none => exact h.throw _ fun _ => hstops rfl

lemma lookup? (scope name) : P (lookup? scope name) :=
  h.bind (h.globals hglobals) fun _ => h.own fun _ => ⟨_, _, rfl⟩

variable (hset : ∀ bs, Asks stops P (.setGlobals bs))

omit hglobals in
lemma store (hset : ∀ bs, Asks stops P (.setGlobals bs)) (scopes bs) : P (store scopes bs) :=
  h.bind (h.own fun _ => ⟨_, _, rfl⟩) fun _ => hset bs fun _ hstops =>
    h.orStopped hstops

include hset

lemma define (scope name v) : P (define scope name v) :=
  h.bind (h.globals hglobals) fun bs => h.bind (h.own fun _ => ⟨_, _, rfl⟩) fun l =>
    h.store hset (l.scopes.define scope name v bs).1 (l.scopes.define scope name v bs).2

lemma assign (scope name v) : P (assign scope name v) := by
  refine h.bind (h.globals hglobals) fun bs => h.bind (h.own fun _ => ⟨_, _, rfl⟩) fun l => ?_
  show P (storeAssigned l.scopes name v bs (l.scopes.assign? scope name v bs))
  cases l.scopes.assign? scope name v bs with
  | none | some changed => exact h.store hset _ _

end Variables

end Stateful

/-! ## What a script does -/

/-- A comparison that makes no difference by steady requests. -/
structure Uniform (stops : Prop) (K : Comparison) : Prop extends Composes K where
  throw : ∀ {n} {α : Type} (e : Interrupt), (e = .stopped → stops) →
    K.evals n (throw e : Eval α) (throw e)
  ask : ∀ op : Request, op.Steady → K.Asks stops op
  outermost : ∀ {n}, K.scopes n none none
  inScope : ∀ {n} {α : Type} {parent parent'}
    {body body' : ScopeId → Eval α}, K.scopes n parent parent' →
    (∀ id id', K.scopes (n + 1) (some id) (some id') → K.evals (n + 1) (body id) (body' id')) →
    K.evals n (inScope parent body) (inScope parent' body')
  attempt : ∀ {n : Nat} {α : Type} {x y : Eval α}, K.evals n x y → K.evals n (attempt x) (attempt y)
  lookup : ∀ {n scope scope'} (name : String),
    K.scopes n scope scope' → K.evals n (lookup? scope name) (lookup? scope' name)
  checkpoint : ∀ {n} (yieldEvery : Nat), K.evals n (checkpoint yieldEvery) (checkpoint yieldEvery)

lemma Stateful.uniform {stops P} (h : Stateful stops P) (hask : ∀ op, op.Steady → Asks stops P op)
    (hinScope : ∀ {α : Type} {parent : Option ScopeId} {body : ScopeId → Eval α},
      (∀ id, P (body id)) → P (inScope parent body))
    (hattempt : ∀ {α : Type} {x : Eval α}, P x → P (attempt x))
    (hcheckpoint : ∀ yieldEvery, P (Eval.checkpoint yieldEvery)) : Uniform stops (.of P) where
  toComposes := h.composes
  throw := h.throw
  ask op hop := (hask op hop).of
  outermost := trivial
  inScope _ hbody := hinScope fun id => hbody id id trivial
  attempt := hattempt
  lookup name _ := h.lookup? (hask .globals trivial) _ name
  checkpoint := hcheckpoint

namespace Uniform

variable {stops : Prop} {K : Comparison} {n : Nat} (h : Uniform stops K)

include h

lemma orStopped {going} (hgoing : going = false → stops) :
    K.evals n (orStopped going) (Eval.orStopped going) := by
  cases going with
  | true => exact h.pure ()
  | false => exact h.throw _ fun _ => hgoing rfl

lemma acquire : K.evals n acquire Eval.acquire :=
  h.ask .acquire trivial fun _ hstops => h.orStopped hstops

lemma request (op) (hop : op.Steady) : K.evals n (Eval.ask op) (Eval.ask op) :=
  h.toComposes.ask (h.ask op hop)

lemma closed : Closed K where
  pure := h.pure
  stop := h.ask .finish trivial fun _ hstops => h.throw _ fun _ => hstops trivial
  throw _ := h.throw _ (by simp)
  bind := h.bind
  lookup := h.lookup
  elapsed := h.request .elapsed trivial
  entropy := h.request .entropy trivial

lemma write {f} (htransmit : K.Asks stops (.transmit f)) : K.evals n (write f) (Eval.write f) := by
  refine h.ask (.claimPort f.port) trivial fun _ hstops => h.bind (h.orStopped hstops) fun _ =>
    h.ask .writeTime trivial fun _ _ => h.ask .clock trivial fun _ _ =>
    h.ask (.sleepUntil _ false) rfl fun waking hstops => ?_
  cases waking with
  | expired =>
    exact htransmit fun _ _ => h.bind (h.request (.leaveClaim f.port) trivial) fun _ => h.pure _
  | paused =>
    exact h.ask (.leaveClaim f.port) trivial fun _ _ =>
      h.throw _ fun _ => hstops (.inr ⟨rfl, rfl⟩)
  | stopped =>
    exact h.ask (.leaveClaim f.port) trivial fun _ _ => h.throw _ fun _ => hstops (.inl rfl)

lemma sleepStretch (hawait : K.Asks stops .awaitRunning)
    (hsleep : ∀ deadline, K.Asks stops (.sleepUntil deadline true)) (remaining) :
    K.evals n (sleepStretch remaining) (Eval.sleepStretch remaining) := by
  refine hawait fun _ hstops => h.bind (h.orStopped hstops) fun _ =>
    h.ask .clock trivial fun _ _ => hsleep _ fun waking hstops => ?_
  cases waking with
  | expired => exact h.pure _
  | stopped => exact h.throw _ fun _ => hstops (.inl rfl)
  | paused => exact h.bind (h.request .clock trivial) fun _ => h.pure _

section Frames

variable {scope scope' : Option ScopeId} (hscope : K.scopes n scope scope') {s : Setting}
  {call call' : Caller} {predicate : Expr}
  (hbind : ∀ {n scope scope'}, K.scopes n scope scope' → ∀ f,
    K.evals n (bindFrame scope f) (bindFrame scope' f))
  (hpredicate : ∀ inner inner', K.scopes (n + 1) (some inner) (some inner') →
    K.evals (n + 1) (evalExpr s call (some inner) predicate)
      (evalExpr s call' (some inner') predicate))

include hscope hbind hpredicate

lemma frameMatches (f) : K.evals n (frameMatches s call scope predicate f)
    (CanScript.frameMatches s call' scope' predicate f) :=
  h.toComposes.frameMatches h.acquire (h.attempt (h.inScope hscope fun inner inner' hinner =>
    h.bind (hbind hinner f) fun _ => hpredicate inner inner' hinner)) fun d =>
    h.request (.report d) trivial

lemma waitRound (hawait : K.Asks stops .awaitRunning) {r}
    (hnext : ∀ deadline, K.Asks stops (.nextFrame r deadline)) (deadline) :
    K.evals n (waitRound s call scope predicate r deadline)
      (CanScript.waitRound s call' scope' predicate r deadline) := by
  refine h.ask .clock trivial fun _ _ => hawait fun _ hstops => h.bind (h.orStopped hstops)
    fun _ => h.ask .clock trivial fun _ _ => hnext _ fun arrival hstops => ?_
  cases arrival with
  | frame f =>
    refine h.bind (h.frameMatches hscope hbind hpredicate f) fun found => ?_
    cases found with
    | true => exact h.bind (hbind hscope f) fun _ => h.pure _
    | false => exact h.bind (h.request .release trivial) fun _ => h.pure _
  | lagged _ | expired | paused => exact h.pure _
  | stopped => exact h.throw _ fun _ => hstops rfl

end Frames

variable {s : Setting}

lemma waitForFrame {U : ReaderId → Prop}
    (hlisten : ∀ ⦃α : Type⦄ ⦃f g : ReaderId → Eval α⦄, (∀ r, U r → K.evals n (f r) (g r)) →
      K.evals n (Eval.ask .listen >>= f) (Eval.ask .listen >>= g))
    (hunlisten : ∀ r, U r → K.Asks stops (.unlisten r)) {call call' scope scope' predicate}
    (hloop : ∀ r, U r → ∀ deadline,
      K.evals n (loop (CanScript.waitRound s call scope predicate r) deadline)
        (loop (CanScript.waitRound s call' scope' predicate r) deadline)) (millis) :
    K.evals n (waitForFrame s call scope predicate millis)
      (CanScript.waitForFrame s call' scope' predicate millis) :=
  hlisten fun r hr => h.ask .clock trivial fun _ _ => h.bind (h.request .release trivial) fun _ =>
    h.bind (hloop r hr _) fun _ => h.bind (h.toComposes.ask (hunlisten r hr)) fun _ => h.pure _

/-- Such a comparison holds of all that statements do if it holds of writes, sleeps, loops without
    an end, waits and the changes of variables. -/
lemma executes {A} (hwrite : ∀ {n} f, f.Legal → K.evals n (Eval.write f) (Eval.write f))
    (hsleep : ∀ {n} millis, K.evals n (sleep millis) (sleep millis))
    (hforever : ∀ {n round round'}, A .cycle → K.evals n round round' →
      K.evals n (repeatForever s.limits.yieldEvery round)
        (repeatForever s.limits.yieldEvery round')) (hdefine : ∀ {n scope scope'} name v,
      K.scopes n scope scope' → (scope = none → A (.declare name)) →
      K.evals n (define scope name v) (define scope' name v))
    (hassign : ∀ {n call call' scope scope'} pos name op {value}, K.scopes n scope scope' →
      A (.assign name op) →
      K.evals n (evalExpr s call scope value) (evalExpr s call' scope' value) →
      K.evals n (execStmt s call scope (.assign pos name op value))
        (execStmt s call' scope' (.assign pos name op value)))
    (hwait : ∀ {n call call' scope scope' predicate} millis, K.scopes n scope scope' → A .wait →
      (∀ inner inner', K.scopes (n + 1) (some inner) (some inner') →
        K.evals (n + 1) (evalExpr s call (some inner) predicate)
          (evalExpr s call' (some inner') predicate)) →
      K.evals n (CanScript.waitForFrame s call scope predicate millis)
        (CanScript.waitForFrame s call' scope' predicate millis)) : Executes s A K where
  toClosed := h.closed
  outermost := h.outermost
  inScope := h.inScope
  report d := h.request (.report d) trivial
  print text := h.request (.print text) trivial
  checkpoint := h.checkpoint _
  repeatForever := hforever
  define := hdefine
  assign := hassign
  send pos _ _ _ hlegal _ := h.bind (h.request .release trivial) fun _ => h.bind
    (h.writeAll (fun d => h.request (.report d) trivial) s.ports fun port _ =>
      hwrite _ (hlegal port)) fun _ => h.acquire
  delay millis _ := h.bind (h.request .release trivial) fun _ => h.bind (hsleep millis) fun _ =>
    h.bind h.acquire fun _ => h.pure _
  wait millis _ _ hscope hdeed hpredicate hfallback := by
    refine h.bind (hwait millis hscope hdeed hpredicate) fun found => ?_
    cases found with
    | true => exact h.pure _
    | false => exact h.bind h.acquire fun _ => hfallback

lemma executesAll (hask : ∀ op, K.Asks stops op)
    (hloop : ∀ {n} {σ β : Type} {body body' : σ → Eval (σ ⊕ β)},
      (∀ state, K.evals n (body state) (body' state)) →
      ∀ state, K.evals n (loop body state) (loop body' state)) (hdefine : ∀ {n scope scope'} name v,
      K.scopes n scope scope' → K.evals n (define scope name v) (define scope' name v))
    (hassign : ∀ {n scope scope'} name v,
      K.scopes n scope scope' → K.evals n (assign scope name v) (assign scope' name v))
    (s : Setting) (A) : Executes s A K := by
  refine h.executes (fun f _ => h.write (hask _)) (fun millis => ?_) (fun _ hround => ?_)
    (fun name v hscope _ => hdefine name v hscope) (fun pos name op _ hscope _ hvalue => ?_)
    fun millis hscope _ hpredicate => ?_
  · exact hloop (h.sleepStretch (hask _) fun _ => hask _) millis
  · exact hloop (h.foreverRound _ _ (h.checkpoint _) _ _ hround) true
  · rw [execStmt, execStmt]
    exact h.bind hvalue fun v => h.bind (h.closed.assignValue _ _ hscope
      (fun w => hassign name w hscope) pos op v) fun _ => h.pure _
  · refine h.waitForFrame (U := fun _ => True) (fun _ _ _ hf => hask _ fun r _ => hf r trivial)
      (fun _ _ => hask _) (fun r _ => hloop (h.waitRound hscope (fun hscope f => ?_) hpredicate
      (hask _) fun _ => hask _)) millis
    exact h.bindAll _ _ (frameFields f) fun field _ => hdefine field.1 field.2 hscope

lemma attends {A} (hcalls : Calls s A K) : Attends s A K :=
  ⟨hcalls, h.attempt, h.acquire, h.request .release trivial⟩

end Uniform

end Eval

end CanScript
