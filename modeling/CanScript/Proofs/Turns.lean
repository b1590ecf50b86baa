import CanScript.Proofs.Reach
import CanScript.Proofs.Discipline

/-! # Who has the turn

    A task takes the turn before it works with variables, and gives it back before it waits for
    anything else and when it ends.  It breaks off without an error only if the run was told to end.
    So whenever no task of a run that goes on can go on by itself, the turn is free. -/

namespace CanScript

open Bench List

/-! ## Executions that have the turn -/

namespace Eval

open Regime

variable {α : Type} {k : Grasp} {E : Grasp → Interrupt → Prop}

def Broken (k : Grasp) : Interrupt → Prop
  | .error _ => k.held = true
  | .stopped => k.told = true

def Ended (k : Grasp) (e : Interrupt) : Prop :=
  e = .stopped ∧ k.told = true

def Tidy (x : Eval α) : Prop :=
  ∀ k : Grasp, k.held = true → Under discipline Broken k x fun k _ => k.held = true

lemma acquire_disciplined (hE : ∀ k, k.told → E k .stopped) (k) :
    Under discipline E k acquire fun k _ => k.held := by
  refine .askBind trivial fun reply k' hafter => ?_
  obtain ⟨-, rfl⟩ := hafter
  cases reply with
  | true => exact .pure (Bool.or_true _)
  | false => exact .throw (hE _ (Bool.or_true _))

lemma release_disciplined (k) : Under discipline E k release fun k _ => k.held = false := by
  refine .ask trivial fun _ k' hafter => ?_
  obtain ⟨-, rfl⟩ := hafter
  rfl

lemma ask_disciplined {op} (hop : op.Proper k.held)
    (hsame : ∀ reply, op.leavesTurn k.held reply = k.held) :
    Under discipline E k (ask op) fun k' _ =>
      k'.held = k.held ∧ (k.told → k'.told) := by
  refine .ask hop fun reply k' hafter => ?_
  obtain ⟨-, rfl⟩ := hafter
  exact ⟨hsame reply, fun htold => Bool.or_eq_true_iff.mpr (.inl htold)⟩

lemma Under.idle {op f} {Q : Grasp → α → Prop} (hk : k.held = false)
    (hf : ∀ reply k, k.held = false → Under discipline E k (f reply) Q)
    (hop : op.Proper false := by trivial)
    (hsame : ∀ reply, op.leavesTurn false reply = false := by intro; rfl) :
    Under discipline E k (Eval.ask op >>= f) Q := by
  obtain ⟨held, told⟩ := k
  cases hk
  refine .askBind hop fun reply k' hafter => hf reply k' ?_
  obtain ⟨-, rfl⟩ := hafter
  exact hsame reply

lemma Under.countStatement {K : Type} {R E} (k : K) (yieldEvery) :
    Under R E k (countStatement yieldEvery) fun k' _ => k' = k := by
  intro l
  show R.Keeps _ k (if _ then _ else _)
  split <;> exact Keeps.pure rfl

section Waits

variable (hE : ∀ k : Grasp, k.told = true → E k .stopped)

include hE

lemma going_disciplined {Q op} {going : op.Reply → Bool} {f : Unit → Eval α}
    (hop : op.Proper k.held) (htells : ∀ reply, going reply = false → op.tellsEnd reply)
    (hsame : ∀ reply, going reply → op.leavesTurn k.held reply = k.held)
    (hf : ∀ k', k'.held = k.held → Under discipline E k' (f ()) Q) :
    Under discipline E k (ask op >>= fun reply => orStopped (going reply) >>= f) Q := by
  refine .askBind hop fun reply k' hafter => ?_
  obtain ⟨-, rfl⟩ := hafter
  cases hgoing : going reply with
  | true => exact hf _ (hsame reply hgoing)
  | false => exact .throw (hE _ (Bool.or_eq_true_iff.mpr (.inr (htells reply hgoing))))

lemma awaitRunning_disciplined {Q} {f : Unit → Eval α} (hk : k.held = false)
    (hf : ∀ k, k.held = false → Under discipline E k (f ()) Q) :
    Under discipline E k (ask .awaitRunning >>= fun going => orStopped going >>= f) Q :=
  going_disciplined hE hk (fun _ hstopped => by rw [Request.tellsEnd, hstopped]; rfl)
    (fun _ _ => rfl) fun k' hk' => hf k' (hk'.trans hk)

lemma checkpoint_disciplined (yieldEvery) (k : Grasp) :
    Under discipline E k (checkpoint yieldEvery) fun k _ => k.held = true := by
  have hrest : ∀ k, Under discipline E k (do
      if ← Eval.countStatement yieldEvery then
        Eval.release
        Eval.ask .yield
      Eval.acquire) fun k _ => k.held = true := by
    intro k
    refine .bind (Under.countStatement k yieldEvery) fun k' due _ => ?_
    cases due with
    | false => exact acquire_disciplined hE k'
    | true =>
      exact .bind (release_disciplined k') fun k _ _ =>
        .bind (ask_disciplined trivial fun _ => rfl) fun k _ _ => acquire_disciplined hE k
  refine .askBind trivial fun standing k' hafter => ?_
  obtain ⟨-, rfl⟩ := hafter
  cases standing with
  | running => exact hrest _
  | paused =>
    exact .bind (release_disciplined _) fun k _ hk =>
      awaitRunning_disciplined hE hk fun k _ => hrest k
  | stopped => exact .throw (hE _ (Bool.or_true _))

lemma write_disciplined (f : Frame) (hk : k.held = false) :
    Under discipline E k (write f) fun k _ => k.held = false := by
  refine going_disciplined hE hk (fun _ hstopped => by rw [Request.tellsEnd, hstopped]; rfl)
    (fun _ _ => rfl) fun k1 hk1 => ?_
  refine .idle (hk1.trans hk) fun time k2 hk2 => .idle hk2 fun now k3 hk3 => ?_
  refine .askBind hk3 fun waking k4 hafter => ?_
  obtain ⟨hexpects, rfl⟩ := hafter
  cases waking with
  | expired => exact .idle hk3 fun taken k5 hk5 => .idle hk5 fun _ k₆ hk₆ => .pure hk₆
  | paused => exact absurd rfl (hexpects rfl)
  | stopped =>
    exact .bind (ask_disciplined trivial fun _ => rfl) fun k5 _ hk5 =>
      .throw (hE _ (hk5.2 (Bool.or_true _)))

lemma writeAll_disciplined (pos id data extended ports) (hk : k.held = false) :
    Under discipline E k (writeAll pos id data extended ports) fun k _ => k.held = false := by
  induction ports generalizing k with
  | nil => exact .pure hk
  | cons port ports ih =>
    refine .bind (write_disciplined hE _ hk) fun k1 taken hk1 => ?_
    cases taken with
    | true => exact ih hk1
    | false => exact .idle hk1 fun _ k2 hk2 => ih hk2

lemma sleep_disciplined (millis : Nat) (hk : k.held = false) :
    Under discipline E k (sleep millis) fun k _ => k.held = false := by
  refine .loop (I := fun k _ => k.held = false) (fun k remaining hk => ?_) hk
  refine awaitRunning_disciplined hE hk fun k1 hk1 => .idle hk1 fun began k2 hk2 => ?_
  refine .askBind hk2 fun waking k3 hafter => ?_
  obtain ⟨-, rfl⟩ := hafter
  cases waking with
  | expired => exact .pure hk2
  | paused => exact .idle hk2 fun _ k4 hk4 => .pure hk4
  | stopped => exact .throw (hE _ (Bool.or_true _))

lemma frameMatches_disciplined {s call scope predicate}
    (hbind : ∀ scope f, Tidy (bindFrame scope f))
    (hpredicate : ∀ inner, Tidy (evalExpr s call (some inner) predicate)) (f k) :
    Under discipline E k (frameMatches s call scope predicate f) fun k _ => k.held := by
  refine .bind (acquire_disciplined hE k) fun k1 _ hk1 => .bind (Under.attempt (.inScope
    fun inner => .bind (hbind _ f k1 hk1) fun k2 _ hk2 => hpredicate inner k2 hk2) hE)
    fun k2 result hk2 => ?_
  cases result with
  | ok v => exact .pure hk2
  | error d =>
    exact .bind (ask_disciplined trivial fun _ => rfl) fun k3 _ hk3 => .pure (hk3.1.trans hk2)

end Waits

namespace Tidy

variable {β : Type}

lemma pure (a) : Tidy (Pure.pure a : Eval α) :=
  fun _ hk => .pure hk

lemma bind {x} {f : α → Eval β} (hx : Tidy x) (hf : ∀ a, Tidy (f a)) : Tidy (x >>= f) :=
  fun k hk => .bind (hx k hk) fun k a hk => hf a k hk

lemma ask {op} (hop : op.Proper true) (hsame : ∀ reply, op.leavesTurn true reply) :
    Tidy (Eval.ask op) := by
  intro k hk
  refine (ask_disciplined (hk ▸ hop) fun reply => ?_).mono fun k' _ hk' => hk'.1.trans hk
  rw [hk]
  exact hsame reply

lemma stateful : Stateful False Tidy where
  own hx k hk l := by
    obtain ⟨a, l', heq⟩ := hx l
    rw [heq]
    exact Keeps.pure hk
  throw e he k hk := by
    cases e with
    | error d => exact .throw hk
    | stopped => exact (he rfl).elim
  bind := bind

lemma asksGlobals : Asks False Tidy .globals := by
  refine fun _ _ hf k hk => .askBind hk fun found k' hafter => ?_
  obtain ⟨hfound, rfl⟩ := hafter
  exact hf found (fun hnone => by cases hnone; cases hk.symm.trans hfound.symm) _ hk

lemma asksSet (bs) : Asks False Tidy (.setGlobals bs) := by
  refine fun _ _ hf k hk => .askBind hk fun going k' hafter => ?_
  obtain ⟨hgoing, rfl⟩ := hafter
  exact hf going (fun hfalse => by cases hfalse; cases hk.symm.trans hgoing.symm) _ hk

lemma define (scope name v) : Tidy (define scope name v) :=
  stateful.define asksGlobals asksSet scope name v

lemma bindFrame (scope f) : Tidy (bindFrame scope f) :=
  stateful.composes.bindAll (n := 0) scope scope (frameFields f) fun field _ =>
    define scope field.1 field.2

lemma checkpoint (yieldEvery) : Tidy (checkpoint yieldEvery) :=
  fun k _ => checkpoint_disciplined (fun _ htold => htold) yieldEvery k

lemma repeatForever (yieldEvery) {round} (hround : Tidy round) :
    Tidy (repeatForever yieldEvery round) := by
  intro k hk
  rw [repeatForever_eq]
  refine .loop (I := fun k _ => k.held) (fun k first hk => ?_) hk
  have hany : Tidy (foreverRound yieldEvery round first) :=
    stateful.composes.foreverRound (n := 0) yieldEvery yieldEvery (checkpoint yieldEvery) round
      round hround first
  refine (hany k hk).mono fun k outcome hk => ?_
  cases outcome with
  | inl _ => exact hk
  | inr _ => exact hk

/-- A task that has found a frame has the turn, one that has not does not. -/
lemma waitForFrame {s call scope predicate}
    (hpredicate : ∀ inner, Tidy (evalExpr s call (some inner) predicate)) (millis k) :
    Under discipline Broken k (waitForFrame s call scope predicate millis)
      fun k found => k.held = found := by
  have hE : ∀ k, k.told → Broken k .stopped := fun _ htold => htold
  refine .bind (ask_disciplined trivial fun _ => rfl) fun k1 reader _ =>
    .bind (ask_disciplined trivial fun _ => rfl) fun k2 now _ =>
    .bind (release_disciplined k2) fun k3 _ hk3 => .bind (Under.loop
      (I := fun k _ => k.held = false) (Q := fun k found => k.held = found)
      (fun k deadline hk => ?_) hk3) fun k4 found hk4 =>
    .bind (ask_disciplined trivial fun _ => rfl) fun k5 _ hk5 => .pure (hk5.1.trans hk4)
  -- each round of the loop begins without the turn
  refine .idle hk fun held k1 hk1 => awaitRunning_disciplined hE hk1 fun k2 hk2 =>
    .idle hk2 fun now k3 hk3 => ?_
  refine .askBind hk3 fun arrival k4 hafter => ?_
  obtain ⟨-, rfl⟩ := hafter
  cases arrival with
  | frame f =>
    -- the test takes the turn, and keeps it if the frame is the right one
    refine .bind (frameMatches_disciplined hE bindFrame hpredicate f _) fun k5 found hk5 => ?_
    cases found with
    | true => exact .bind (bindFrame scope f k5 hk5) fun k₆ _ hk₆ => .pure hk₆
    | false => exact .bind (release_disciplined k5) fun k₆ _ hk₆ => .pure hk₆
  | lagged n | expired | paused => exact .pure hk3
  | stopped => exact .throw (hE _ (Bool.or_true _))

lemma closed : Closed (.of Tidy) where
  pure := pure
  throw _ _ hk := .throw hk
  stop := by
    intro _ k hk
    refine .askBind trivial fun _ k' hafter => ?_
    obtain ⟨-, rfl⟩ := hafter
    exact .throw (Bool.or_true _)
  bind := bind
  lookup name _ := stateful.lookup? asksGlobals _ name
  elapsed := ask rfl fun _ => rfl
  entropy := ask rfl fun _ => rfl

/-- Every execution of a script is tidy. -/
lemma executes (s) : Calls s (fun _ => True) (.of Tidy) where
  toClosed := closed
  outermost := trivial
  inScope _ hbody k hk := .inScope fun id => hbody id id trivial k hk
  deeper hx k hk := .deeper (hx k hk)
  report _ := ask trivial fun _ => rfl
  print _ := ask rfl fun _ => rfl
  checkpoint := checkpoint _
  repeatForever _ hround := repeatForever _ hround
  define name v _ _ := define _ name v
  assign pos name op value _ _ hvalue := by
    rw [execStmt]
    exact hvalue.bind fun v => bind (closed.assignValue (n := 0) _ none trivial
      (stateful.assign asksGlobals asksSet _ name) pos op v) fun _ => pure _
  send pos id data extended _ _ k _ :=
    .bind (release_disciplined k) fun _ _ hk =>
      .bind (writeAll_disciplined (fun _ htold => htold) pos id data extended s.ports hk)
      fun k _ _ => acquire_disciplined (fun _ htold => htold) k
  delay millis _ k _ :=
    .bind (release_disciplined k) fun _ _ hk =>
      .bind (sleep_disciplined (fun _ htold => htold) millis hk) fun k _ _ =>
      .bind (acquire_disciplined (fun _ htold => htold) k) fun _ _ hk => .pure hk
  wait millis _ _ _ _ hpredicate hfallback k _ := by
    refine .bind (waitForFrame (fun inner => hpredicate inner inner trivial) millis k)
      fun k found hk => ?_
    cases found with
    | true => exact .pure hk
    | false =>
      exact .bind (acquire_disciplined (fun _ htold => htold) k) fun k _ hk => hfallback k hk

end Tidy

end Eval

/-! ## The tasks of a run -/

def Grasp.Done (k : Grasp) (_ : Unit) : Prop :=
  k.held = false ∨ k.told = true

section Tasks

open Eval Regime

variable {s : Setting} {k : Grasp}

lemma Eval.Ended.of_told (k) (htold : k.told) : Ended k .stopped :=
  ⟨rfl, htold⟩

lemma Eval.Under.ends {x} (h : Under discipline Ended k x Grasp.Done) :
    discipline.Keeps Grasp.Done k x.toProcess := by
  refine h.toProcess.mono fun k _ hk => ?_
  rcases hk with hdone | ⟨e, -, htold⟩
  · exact hdone
  · exact .inr htold

lemma last_disciplined (op) (hop : op.Proper k.held)
    (hsame : ∀ reply, op.leavesTurn k.held reply = k.held) (hk : k.held = false) :
    Under discipline Ended k (ask op) fun k _ => k.Done () :=
  (ask_disciplined hop hsame).mono fun _ _ hk' => .inl (hk'.1.trans hk)

lemma callee_tidy (s : Setting) (n name f) (hf : s.program.function? name = some f) (args pos) :
    (Comparison.of Tidy).evals n (s.call f args pos) (s.call f args pos) :=
  (Tidy.executes s).call (fun _ _ _ _ _ _ => trivial) n name f trivial hf args pos

lemma evalExpr_tidy (s : Setting) (scope e) : Tidy (evalExpr s s.call scope e) := by
  have hscope : (Comparison.of Tidy).scopes 0 scope scope := trivial
  exact (Tidy.executes s).expr (A := fun _ => True)
    (fun n name f _ hf => callee_tidy s n name f hf) e (fun _ _ => trivial) hscope

lemma execStmt_tidy (s : Setting) (scope stmt) : Tidy (execStmt s s.call scope stmt) := by
  have hscope : (Comparison.of Tidy).scopes 0 scope scope := trivial
  exact (Tidy.executes s).stmt (fun n name f _ hf => callee_tidy s n name f hf) stmt
    (fun _ _ => trivial) hscope

lemma execStmts_tidy (s : Setting) (scope block) : Tidy (execStmts s s.call scope block) := by
  have hscope : (Comparison.of Tidy).scopes 0 scope scope := trivial
  exact (Tidy.executes s).execBlock (fun n name f _ hf => callee_tidy s n name f hf)
    (fun _ _ => trivial) hscope

lemma mainSequence_disciplined (s stmts k) :
    Under discipline Ended k (mainSequence s stmts) fun k _ => k.held = false := by
  induction stmts generalizing k with
  | nil => exact release_disciplined k
  | cons stmt rest ih =>
    have hstmt : Under discipline Broken k (do
        checkpoint s.limits.yieldEvery
        execStmt s s.call none stmt) fun k _ => k.held = true :=
      .bind (checkpoint_disciplined (fun _ htold => htold) _ k) fun k _ hk =>
        execStmt_tidy s none stmt k hk
    refine .bind (hstmt.attempt Ended.of_told) fun k result _ => ?_
    cases result with
    | ok flow => exact ih k
    | error d => exact .bind (ask_disciplined trivial fun _ => rfl) fun k _ _ => ih k

lemma mainTask_disciplined (s k) : discipline.Keeps Grasp.Done k (mainTask s) := by
  refine Under.ends (.bind (mainSequence_disciplined s _ k) fun k _ hk => ?_)
  cases s.program.hasHandlers with
  | true => exact .pure (.inl hk)
  | false => exact last_disciplined .finish trivial (fun _ => rfl) hk

lemma activationTask_disciplined (s a k) : discipline.Keeps Grasp.Done k (activationTask s a) := by
  have hbody : Under discipline Broken k (activation s a) fun k _ => k.held := by
    refine .bind (acquire_disciplined (fun _ htold => htold) k) fun k _ hk =>
      .inScope fun inner => ?_
    have hstmts : Tidy (do let _ ← execStmts s s.call (some inner) (s.body a)) :=
      (execStmts_tidy s (some inner) (s.body a)).bind fun _ => .pure ()
    cases a.frame? with
    | none => exact hstmts k hk
    | some f => exact ((Tidy.bindFrame (some inner) f).bind fun _ => hstmts) k hk
  refine Under.ends (.bind (hbody.attempt Ended.of_told) fun k result _ =>
    .bind (release_disciplined k) fun k _ hk => ?_)
  cases result with
  | ok u => exact .pure (.inl hk)
  | error d => exact last_disciplined (.report d) trivial (fun _ => rfl) hk

lemma dispatchFrame_disciplined (s f i) (handlers : List ReceiveHandler) (k) :
    Under discipline Ended k (dispatchFrame s f i handlers) fun _ _ => True := by
  induction handlers generalizing i k with
  | nil => exact .pure trivial
  | cons handler rest ih =>
    refine .bind (frameMatches_disciplined Ended.of_told Tidy.bindFrame
      (fun inner => evalExpr_tidy s (some inner) handler.predicate) f k) fun k found _ => ?_
    cases found with
    | true => exact .bind (ask_disciplined trivial fun _ => rfl) fun k _ _ => ih _ k
    | false => exact ih _ k

lemma dispatcher_disciplined (s) (r : ReaderId) (hk : k.held = false) :
    discipline.Keeps Grasp.Done k (dispatcher s r) := by
  refine Under.ends (.loop (I := fun k _ => k.held = false) (fun k _ hk => ?_) hk)
  refine .askBind hk fun received k' hafter => ?_
  obtain ⟨-, rfl⟩ := hafter
  rcases received with _ | ⟨f⟩ | ⟨n⟩
  · exact .pure (.inl hk)
  · refine .idle hk fun standing k hk' => ?_
    have hdispatch : Under discipline Ended k (do
        dispatchFrame s f 0 s.program.receiveHandlers
        release
        return (.inl () : Unit ⊕ Unit)) fun k => Sum.elim (fun _ => k.held = false) k.Done :=
      .bind (dispatchFrame_disciplined s f 0 _ k) fun k _ _ =>
        .bind (release_disciplined k) fun k _ hk => .pure hk
    cases standing with
    | running => exact hdispatch
    | paused => exact .pure hk'
    | stopped => exact hdispatch
  · exact .pure hk

lemma intervalRound_disciplined (i millis : Nat) (hk : k.held = false) :
    Under discipline Ended k (intervalRound i millis)
      fun k => Sum.elim (fun _ => k.held = false) k.Done :=
  .bind (sleep_disciplined Ended.of_told millis hk) fun _ _ hk => .idle hk fun _ _ hk => .pure hk

lemma period_tidy (s : Setting) (h : IntervalHandler) : Tidy (period s h) := by
  refine (evalExpr_tidy s none h.period).bind fun v => Tidy.bind ?_ fun millis => ?_
  · exact Tidy.closed.ofResult (n := 0) _ _
  · split
    · exact fun _ hk => .throw hk
    · exact Tidy.pure _

lemma intervalTask_disciplined (s i) (h : IntervalHandler) (k) :
    discipline.Keeps Grasp.Done k (intervalTask s i h) := by
  refine Under.ends (.bind (acquire_disciplined Ended.of_told k) fun k _ hk =>
    .bind (Under.attempt (period_tidy s h k hk) Ended.of_told) fun k result _ =>
    .bind (release_disciplined k) fun k _ hk => ?_)
  cases result with
  | error d => exact last_disciplined (.report d) trivial (fun _ => rfl) hk
  | ok millis =>
    exact .loop (I := fun k _ => k.held = false)
      (fun _ _ hk => intervalRound_disciplined i millis hk) hk

lemma forwarder_disciplined (port r) (hk : k.held = false) :
    discipline.Keeps Grasp.Done k (forwarder port r) := by
  rw [forwarder_eq]
  refine Keeps.loop (I := fun k _ => k.held = false) (fun k _ hk => ?_) hk
  refine Keeps.act hk fun received k' hafter => ?_
  obtain ⟨-, rfl⟩ := hafter
  rcases received with _ | ⟨f⟩ | ⟨n⟩
  · refine Keeps.act trivial fun _ k' hafter => ?_
    obtain ⟨-, rfl⟩ := hafter
    exact Keeps.pure (.inl hk)
  · refine Keeps.act trivial fun _ k' hafter => ?_
    obtain ⟨-, rfl⟩ := hafter
    exact Keeps.pure hk
  · exact Keeps.pure hk

end Tasks

lemma Role.disciplined {setting p} (h : Role setting p) :
    discipline.Keeps Grasp.Done ⟨false, false⟩ p := by
  cases h with
  | main => exact mainTask_disciplined setting _
  | forwarder port r => exact forwarder_disciplined port r rfl
  | dispatcher r => exact dispatcher_disciplined setting r rfl
  | interval i _ => exact intervalTask_disciplined setting i _ _
  | activation a => exact activationTask_disciplined setting a _

/-! ## Sessions -/

/-- Whether a task has to wait. -/
def Task.waits (b : Bench) (task : Task) : Bool :=
  match task.rest with
  | .act op _ => (b.perform task.id op).answer?.isNone
  | _ => false

lemma Task.waits_iff {b} {task : Task} (h : task.waits b) :
    ∃ op next, task.rest = .act op next ∧ (b.perform task.id op).answer? = none := by
  rw [Task.waits] at h
  cases hrest : task.rest with
  | act op next =>
    rw [hrest] at h
    exact ⟨op, next, rfl, Option.isNone_iff_eq_none.mp h⟩
  | pure a | iter body s next =>
    rw [hrest] at h
    cases h

namespace Bench.Change

variable {t u : TaskId} {b b' : Bench} {op : Request}

lemma turn_of_other_iff (h : Change t b op b') (hne : u ≠ t) :
    b'.turn = some u ↔ b.turn = some u := by
  refine ⟨fun hturn => ?_, fun hturn => h.turn_of_other hturn hne⟩
  cases h with
  | takeTurn => exact absurd (Option.some.inj hturn).symm hne
  | leaveTurn => cases hturn
  | _ => exact hturn

lemma turn_eq_or (h : Change t b op b') (hturn : b'.turn = some u) : b.turn = some u ∨ u = t := by
  by_cases hne : u = t
  · exact .inr hne
  · exact .inl ((h.turn_of_other_iff hne).mp hturn)

end Bench.Change

lemma Grasp.Fits.unknown {t b} (h : b.turn ≠ some t) : Grasp.Fits ⟨false, false⟩ t b :=
  ⟨⟨fun hheld => absurd hheld Bool.false_ne_true, fun hturn => absurd hturn h⟩,
    fun htold => absurd htold Bool.false_ne_true⟩

lemma Grasp.Fits.of_other {k : Grasp} {t u b b' op}
    (hfits : k.Fits u b) (h : Bench.Change t b op b') (hne : u ≠ t) : k.Fits u b' :=
  ⟨hfits.held.trans (h.turn_of_other_iff hne).symm, fun htold => h.isCancelled (hfits.told htold)⟩

namespace Session

variable {s : Session}

/-- Whether no task can go on by itself, and none is about to begin. -/
def isWaiting (s : Session) : Bool :=
  s.bench.spawned.isEmpty && s.tasks.all (·.waits s.bench)

lemma isWaiting_iff (h : s.isWaiting) :
    s.bench.spawned = [] ∧ ∀ task ∈ s.tasks, ∃ op next, task.rest = .act op next ∧
      (s.bench.perform task.id op).answer? = none := by
  obtain ⟨hspawned, htasks⟩ := Bool.and_eq_true_iff.mp h
  exact ⟨isEmpty_iff.mp hspawned, fun task hmem =>
    Task.waits_iff (all_eq_true.mp htasks task hmem)⟩

/-- Every task keeps to the discipline, and whoever has the turn is one of them, unless the run was
    told to end. -/
structure Disciplined (s : Session) : Prop where
  orderly : s.Orderly
  tasks : ∀ task ∈ s.tasks, ∃ k : Grasp, k.Fits task.id s.bench ∧
    discipline.Keeps Grasp.Done k task.rest
  below : ∀ t, s.bench.turn = some t → t < s.bench.nextTask
  held : ∀ t, s.bench.turn = some t → t ∈ s.tasks.map Task.id ∨
    s.bench.run.isSome = true ∧ s.bench.isCancelled = true

lemma Disciplined.of_bench (hs : s.Disciplined) {b} (hturn : b.turn = s.bench.turn)
    (hnext : b.nextTask = s.bench.nextTask) (hset : b.setting? = s.bench.setting?)
    (hcancelled : s.bench.isCancelled → b.isCancelled) : Disciplined ⟨b, s.tasks⟩ := by
  refine ⟨⟨hs.orderly.distinct, hnext ▸ hs.orderly.below⟩, fun task hmem => ?_,
    hturn ▸ hnext ▸ hs.below, fun t ht => ?_⟩
  · obtain ⟨k, hfits, hkeeps⟩ := hs.tasks task hmem
    exact ⟨k, ⟨hturn ▸ hfits.held, fun htold => hcancelled (hfits.told htold)⟩, hkeeps⟩
  · refine (hs.held t (hturn.symm.trans ht)).imp_right fun h => ⟨?_, hcancelled h.2⟩
    rw [← isSome_setting?, hset, isSome_setting?]
    exact h.1

lemma Disciplined.of_free (htasks : s.tasks = []) (hturn : s.bench.turn = none) :
    s.Disciplined := by
  refine ⟨⟨?_, ?_⟩, ?_, fun t ht => ?_, fun t ht => ?_⟩
  · rw [htasks]
    exact nodup_nil
  · rw [htasks]
    exact forall_mem_nil _
  · rw [htasks]
    exact forall_mem_nil _
  · cases hturn.symm.trans ht
  · cases hturn.symm.trans ht

/-- A move of a task keeps the session disciplined. -/
lemma Disciplined.move {t s'} (hs : s.Disciplined)
    (hrun : s.bench.run = none → s.tasks = []) (h : Step (some t) s s') : s'.Disciplined := by
  obtain ⟨p, hp, hbench, hgoes, hothers, hback⟩ := h.of_some hs.orderly
  obtain ⟨k, hfits, hkeeps⟩ := hs.tasks _ hp
  obtain ⟨op, hchange⟩ := s.bench.after_change t p
  rw [← hbench] at hchange
  have hids : t ∈ s.tasks.map Task.id := mem_map_of_mem hp
  refine ⟨hs.orderly.step h, fun task hmem => ?_, fun u hturn => ?_, fun u hturn => ?_⟩
  · rcases hback task hmem with ⟨hold, hne⟩ | ⟨-, rfl⟩
    · obtain ⟨k', hfits', hkeeps'⟩ := hs.tasks task hold
      exact ⟨k', hfits'.of_other hchange hne, hkeeps'⟩
    · rw [hbench]
      exact discipline_describes.move hfits hkeeps
  · rw [hchange.nextTask]
    rcases hchange.turn_eq_or hturn with hold | rfl
    · exact hs.below u hold
    · exact hs.orderly.below u hids
  · by_cases hne : u = t
    · subst hne
      by_cases hdone : p.isDone
      · -- a task that ends with the turn knows that the run was told to end
        obtain ⟨a, rfl⟩ := Process.eq_pure_of_isDone hdone
        have hsame : s'.bench = s.bench := hbench
        rw [hsame] at hturn ⊢
        refine .inr ⟨Option.isSome_iff_ne_none.mpr fun hnone => ?_, ?_⟩
        · rw [hrun hnone] at hp
          cases hp
        · rcases hkeeps.of_pure with hfree | htold
          · cases hfree.symm.trans (hfits.held.mpr hturn)
          · exact hfits.told htold
      · exact .inl (mem_map_of_mem (hgoes (Bool.eq_false_iff.mpr hdone)))
    · rcases hs.held u ((hchange.turn_of_other_iff hne).mp hturn) with hmem | ⟨hsome, hcancelled⟩
      · obtain ⟨task, htask, rfl⟩ := mem_map.mp hmem
        exact .inl (mem_map_of_mem (hothers task htask hne))
      · refine .inr ⟨?_, hchange.isCancelled hcancelled⟩
        rw [← isSome_setting?, hchange.setting?, isSome_setting?]
        exact hsome

lemma Disciplined.addTasks (hs : s.Disciplined) {processes}
    (hprocesses : ∀ p ∈ processes, discipline.Keeps Grasp.Done ⟨false, false⟩ p) :
    (s.addTasks processes).Disciplined := by
  refine ⟨hs.orderly.addTasks processes, fun task hmem => ?_, fun t hturn => ?_, fun t hturn => ?_⟩
  · rcases mem_addTasks hmem with hold | ⟨hnew, hrest⟩
    · obtain ⟨k, hfits, hkeeps⟩ := hs.tasks task hold
      exact ⟨k, ⟨hfits.held, hfits.told⟩, hkeeps⟩
    · -- a new task has a number that nobody had, so it does not have the turn
      refine ⟨⟨false, false⟩, .unknown fun hturn => ?_, hprocesses _ hrest⟩
      exact absurd (hs.below _ hturn) hnew.not_gt
  · rw [addTasks_nextTask]
    exact Nat.lt_add_right _ (hs.below t hturn)
  · rcases hs.held t hturn with hmem | hcancelled
    · rw [addTasks_ids]
      exact .inl (mem_append_left _ hmem)
    · exact .inr hcancelled

lemma Disciplined.step {who s'} (hs : s.Disciplined)
    (hrun : s.bench.run = none → s.tasks = []) (h : Step who s s') : s'.Disciplined := by
  cases who with
  | some t => exact hs.move hrun h
  | none =>
    cases h with
    | spawn =>
      obtain ⟨processes, heq, hprocesses⟩ := startTasks_eq s
      rw [heq]
      refine (hs.of_bench (b := { s.bench with spawned := [] }) rfl rfl rfl id).addTasks
        fun p hp => ?_
      obtain ⟨run, a, -, -, rfl⟩ := hprocesses p hp
      exact (Role.activation a).disciplined
    | external hexternal =>
      have hapart := hexternal.apart
      obtain ⟨b, rfl, -⟩ := hexternal.influence
      exact hs.of_bench hapart.turn hapart.nextTask hapart.setting hapart.cancelled

lemma Disciplined.turn_of_bare (hs : s.Disciplined) (hbare : s.Bare) : s.bench.turn = none := by
  refine Option.eq_none_iff_forall_ne_some.mpr fun t hturn => ?_
  rcases hs.held t hturn with hmem | ⟨hsome, -⟩
  · rw [hbare.tasks] at hmem
    cases hmem
  · rw [hbare.run] at hsome
    cases hsome

lemma Disciplined.launch (hs : s.Disciplined) (hbare : s.Bare) (program ports) :
    (s.launch program ports).1.Disciplined := by
  have hlaunched := launch_launched hbare program ports
  obtain ⟨bus, run, hub, nextTask, heq, -⟩ := launch_bench s program ports
  obtain ⟨events, hbegun⟩ := beginRun_eq s.bench (s.settingOf program ports)
  have hfree : (s.launch program ports).1.bench.turn = none := by
    rw [heq, hbegun]
    exact hs.turn_of_bare hbare
  refine ⟨hlaunched.orderly, fun task hmem => ?_, fun t hturn => ?_, fun t hturn => ?_⟩
  · refine ⟨⟨false, false⟩, .unknown ?_, (hlaunched.roles task hmem).disciplined⟩
    rw [hfree]
    exact Option.some_ne_none _ |>.symm
  · cases hfree.symm.trans hturn
  · cases hfree.symm.trans hturn

variable {limits : RunConfig} {bus : Bus} {writeTime : Nat}

lemma Reachable.disciplined (h : Reachable limits bus writeTime s) : s.Disciplined := by
  refine h.invariant (P := Disciplined) ?_ (fun who s s' hreachable hstep hs => ?_)
    (fun s _ => ?_) (fun s state log _ _ hs => ?_) (fun s hbare hs => hs.launch hbare)
  · exact .of_free rfl rfl
  · exact hs.step (fun hnone => (hreachable.sound.bare hnone).tasks) hstep
  · exact .of_free rfl rfl
  · exact hs.of_bench rfl rfl rfl id

/-- A session with one run. -/
def ofSetting (s : Setting) : Session :=
  ((ofLimits s.limits (.ofCapacity 16)).startProgram s.program s.ports).1

lemma ofSetting_reachable (s) : Reachable s.limits (.ofCapacity 16) 0 (ofSetting s) :=
  .startProgram _ _ .init

lemma ofSetting_orderly (s) : (ofSetting s).Orderly :=
  (ofSetting_reachable s).disciplined.orderly

lemma Reachable.turn_free_of_going (h : Reachable limits bus writeTime s)
    (hwaiting : s.isWaiting) (hgoing : s.bench.isCancelled = false) : s.bench.turn = none := by
  obtain ⟨-, hwaits⟩ := isWaiting_iff hwaiting
  refine Option.eq_none_iff_forall_ne_some.mpr fun t hturn => ?_
  rcases h.disciplined.held t hturn with hmem | ⟨-, hcancelled⟩
  · obtain ⟨task, htask, rfl⟩ := mem_map.mp hmem
    obtain ⟨op, next, hrest, hanswer⟩ := hwaits task htask
    obtain ⟨k, hfits, hkeeps⟩ := h.disciplined.tasks task htask
    -- a task that has the turn asks for nothing that it would have to wait for
    have hheld := hfits.held.mpr hturn
    rw [hrest] at hkeeps
    have hproper : op.Proper true := hheld ▸ hkeeps.of_act.1
    cases op with
    | acquire =>
      obtain ⟨u, hu, hne⟩ := (acquire_waits hanswer).2
      exact hne (Option.some.inj (hu.symm.trans hturn))
    | awaitRunning | sleepUntil deadline heedPause | nextFrame r deadline => cases hproper
    | receive source | claimPort port => cases hproper
    | setGlobals globals =>
      rw [perform] at hanswer
      rw [if_pos hturn] at hanswer
      cases hanswer
    | _ => cases hanswer
  · cases hgoing.symm.trans hcancelled

lemma Reachable.turn_free (h : Reachable limits bus writeTime s) (hwaiting : s.isWaiting)
    (hrunning : s.bench.standing = .running) : s.bench.turn = none := by
  refine h.turn_free_of_going hwaiting (Bool.eq_false_iff.mpr fun hcancelled => ?_)
  exact absurd (standing_eq_stopped_iff.mpr hcancelled) (by rw [hrunning]; simp)

end Session

/-- The history of a run in which one incident after another occurs. -/
def History.ofRun (setting : Setting) (incidents : List Incident) : History :=
  .ofIncidents (.ofSetting setting) (Session.ofSetting_orderly setting) incidents

end CanScript
