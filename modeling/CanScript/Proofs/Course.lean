import CanScript.Proofs.Progress

/-! # Executions along a course

    What an execution of a task does by itself: the value that it yields, and the state of the task
    and the bench that it leaves.  It is said of the whole rest of the task, so that executions can
    be put one after another. -/

namespace CanScript

variable {t : TaskId}

/-- Whatever end a task comes to from the second point, it comes to from the first. -/
def Leads (t : TaskId) (v : Bench) (p : Process Unit) (v' : Bench) (p' : Process Unit) : Prop :=
  ∀ w, Comes t v' p' w → Comes t v p w

/-- One course after another. -/
lemma Leads.trans {v1 v2 v3 p1 p2 p3} (h : Leads t v1 p1 v2 p2)
    (h' : Leads t v2 p2 v3 p3) : Leads t v1 p1 v3 p3 :=
  fun w hw => h w (h' w hw)

/-- A request that is answered at once leads to what follows the answer. -/
lemma Leads.act {v v' op reply next} (hop : op.isOwn)
    (hanswer : (v.perform t op).answer? = some (v', reply)) :
    Leads t v (.act op next) v' (next reply) := by
  intro w hw
  cases hw with
  | ends hsteps => exact .ends (.act hop hanswer hsteps)
  | sleeps hsteps hasleep hcomes => exact .sleeps (.act hop hanswer hsteps) hasleep hcomes

/-- A loop leads into its first round. -/
lemma Leads.unfold {v} {σ β : Type} {body : σ → Process (σ ⊕ β)} {s next} :
    Leads t v (.iter body s next) v (Process.unfold body s next) := by
  intro w hw
  cases hw with
  | ends hsteps => exact .ends (.loop hsteps)
  | sleeps hsteps hasleep hcomes => exact .sleeps (.loop hsteps) hasleep hcomes

namespace Eval

variable {α β σ : Type} {t : TaskId} {l l' l'' : Local} {v v' v'' : Bench}

def Does (t : TaskId) (x : Eval α) (l : Local) (v : Bench) (a : α) (l' : Local) (v' : Bench) :
    Prop :=
  ∀ f : Except Interrupt α × Local → Process Unit, Leads t v ((x.start l).bind f) v' (f (.ok a, l'))

namespace Does

lemma pure {a} : Does t (pure a : Eval α) l v a l v :=
  fun _ _ hw => hw

/-- One execution after another, from where the first one has left the bench. -/
lemma bind {x} {g : α → Eval β} {a b} (hx : Does t x l v a l' v')
    (hg : Does t (g a) l' v' b l'' v'') : Does t (x >>= g) l v b l'' v'' := by
  intro f
  have hfirst := hx fun r => Process.bind (ExceptT.bindCont g r.1 r.2) f
  rw [← Process.bind_assoc] at hfirst
  exact hfirst.trans (hg f)

/-- A request of the task that is answered at once. -/
lemma ask {op : Request} {reply} (hop : op.isOwn)
    (hanswer : (v.perform t op).answer? = some (v', reply)) : Does t (ask op) l v reply l v' :=
  fun _ => .act hop hanswer

/-- Nothing is caught where no error comes. -/
lemma attempt {x} {a : α} (hx : Does t x l v a l' v') : Does t (attempt x) l v (.ok a) l' v' := by
  intro f
  show Leads t v (Process.bind (Process.bind (x.start l) _) f) v' _
  rw [Process.bind_assoc]
  exact hx _

/-- A loop that ends with its first round. -/
lemma loop {body : σ → Eval (σ ⊕ β)} {s b}
    (h : Does t (body s) l v (.inr b) l' v') : Does t (loop body s) l v b l' v' := by
  intro f
  refine Leads.unfold.trans ?_
  show Leads t v (Process.bind (Process.bind ((body s).start l) _) _) v' _
  rw [Process.bind_assoc]
  exact h _

/-- Nobody else moves, so the task is woken when its time has come and not before. -/
lemma sleepUntil (millis) (heedPause : Bool) (hgoing : v.isCancelled = false)
    (hstate : v.state = .running) :
    Does t (Eval.ask (.sleepUntil (v.now + millis) heedPause)) l v Waking.expired l
      { v with now := v.now + millis } := by
  have hexpired : ∀ u : Bench, u.isCancelled = false → u.now = v.now + millis →
      (u.perform t (.sleepUntil (v.now + millis) heedPause)).answer?
        = some (u, Waking.expired) := by
    intro u hu hdue
    show (u.sleepUntil (v.now + millis) heedPause).answer? = _
    rw [Bench.sleepUntil, if_neg (by simp [hu]), if_pos hdue.ge]
    rfl
  intro f w hw
  cases millis with
  | zero => exact Does.ask rfl (hexpired v hgoing rfl) f w hw
  | succ millis =>
    have hasleep : Asleep v (v.now + (millis + 1)) heedPause :=
      ⟨hgoing, by omega, by simp [Bench.isPaused, hstate], by rw [hstate]; rfl⟩
    exact .sleeps .refl hasleep
      (Does.ask rfl (hexpired { v with now := v.now + (millis + 1) } hgoing rfl) f w hw)

end Does

end Eval

/-! ## Checkpoints, sleeps and writes -/

section Waits

open Eval

variable {t : TaskId} {l : Local} {v : Bench}

/-- The run is going on, and no other task has the turn. -/
structure Undisturbed (t : TaskId) (v : Bench) : Prop where
  going : v.isCancelled = false
  state : v.state = .running
  turn : v.turn = none ∨ v.turn = some t

/-- A run that is neither told to stop nor paused goes on. -/
lemma Undisturbed.standing (h : Undisturbed t v) : v.standing = .running := by
  rw [Bench.standing, if_neg (by simp [h.going]), if_neg (by simp [Bench.isPaused, h.state])]

lemma Undisturbed.setTurn (h : Undisturbed t v) {turn} (hturn : turn = none ∨ turn = some t) :
    Undisturbed t { v with turn } :=
  ⟨h.going, h.state, hturn⟩

/-- Nobody else has the turn, so the task gets it. -/
lemma acquire_does (h : Undisturbed t v) : Does t acquire l v () l { v with turn := some t } := by
  have hask : Does t (ask .acquire) l v true l { v with turn := some t } := by
    refine .ask rfl ?_
    show (v.acquire t).answer? = some ({ v with turn := some t }, true)
    rcases h.turn with hturn | hturn
    · rw [Bench.acquire, if_neg (by simp [hturn]), if_neg (by simp [h.going]),
        if_pos (by simp [hturn])]
      rfl
    · rw [Bench.acquire, if_pos hturn, ← hturn]
      rfl
  exact hask.bind .pure

/-- The turn is free afterwards, whether the task had it or not. -/
lemma release_does (h : Undisturbed t v) : Does t release l v () l { v with turn := none } := by
  refine .ask rfl ?_
  show some ((if v.turn = some t then { v with turn := none } else v), ()) = _
  rcases h.turn with hturn | hturn
  · rw [if_neg (by simp [hturn]), ← hturn]
    rfl
  · rw [if_pos hturn]
    rfl

/-- The task has the turn after a checkpoint, also if it has yielded there. -/
lemma checkpoint_does (h : Undisturbed t v) (yieldEvery : Nat) :
    ∃ l', Does t (checkpoint yieldEvery) l v () l' { v with turn := some t } := by
  have hstanding : Does t (ask .standing) l v Standing.running l v := by
    refine .ask rfl ?_
    rw [← h.standing]
    rfl
  by_cases hyield : max yieldEvery 1 ≤ l.sinceYield + 1
  · have hcount : Does t (countStatement yieldEvery) l v true { l with sinceYield := 0 } v := by
      intro f
      show Leads t v ((countStatement yieldEvery l).bind f) v _
      rw [countStatement, if_pos hyield]
      exact fun _ hw => hw
    refine ⟨{ l with sinceYield := 0 }, hstanding.bind (hcount.bind ?_)⟩
    have hyields : Does t (ask .yield) { l with sinceYield := 0 } { v with turn := none } ()
        { l with sinceYield := 0 } { v with turn := none } := .ask rfl rfl
    exact (release_does h).bind (hyields.bind (acquire_does (h.setTurn (.inl rfl))))
  · have hcount : Does t (countStatement yieldEvery) l v false
        { l with sinceYield := l.sinceYield + 1 } v := by
      intro f
      show Leads t v ((countStatement yieldEvery l).bind f) v _
      rw [countStatement, if_neg hyield]
      exact fun _ hw => hw
    exact ⟨_, hstanding.bind (hcount.bind (acquire_does h))⟩

/-- A sleep that no pause interrupts is over in one stretch. -/
lemma sleep_does (h : Undisturbed t v) (millis : Nat) :
    Does t (sleep millis) l v () l { v with now := v.now + millis } := by
  have hawait : Does t (ask .awaitRunning) l v true l v := by
    refine .ask rfl ?_
    rw [Bench.perform, h.standing]
    rfl
  have hclock : Does t clock l v v.now l v := .ask rfl rfl
  have hsleep : Does t (ask (.sleepUntil (v.now + millis) true)) l v Waking.expired l
      { v with now := v.now + millis } := .sleepUntil millis true h.going h.state
  exact .loop (hawait.bind (.bind .pure (hclock.bind (hsleep.bind .pure))))

/-- A port that does not fail takes the frame with the time of the write. -/
lemma Bus.write_of_takes {b : Bus} {f} (h : b.isFailing f.port = false) (now) :
    (b.write now f).2 ∧ (b.write now f).1.failing = b.failing
      ∧ (b.write now f).1.sent = b.sent.push { f with timestamp := now } := by
  rw [Bus.write, if_neg (by simp [h])]
  -- With loopback on the frame is delivered as well, to channels only.
  by_cases hloop : b.loopback
  · dsimp only
    rw [if_pos hloop]
    exact ⟨rfl, rfl, rfl⟩
  · dsimp only
    rw [if_neg hloop]
    exact ⟨rfl, rfl, rfl⟩

/-- The claims on a port are those that were set last. -/
lemma Bench.claimsOn_setClaims (v : Bench) (port tasks) :
    (v.setClaims port tasks).claimsOn port = tasks := by
  show (List.lookup port ((port, tasks) :: _)).getD [] = tasks
  rw [List.lookup_cons_self]
  rfl

def Bench.afterWrite (v : Bench) (t : TaskId) (f : Frame) : Bench :=
  let claimed := v.setClaims f.port [t]
  let written := { claimed with
    now := v.now + v.writeTime, bus := (v.bus.write (v.now + v.writeTime) f).1 }
  written.dropClaim f.port t

/-- A write leaves no claim on its port. -/
lemma Bench.claimsOn_afterWrite (v : Bench) (t f) : (v.afterWrite t f).claimsOn f.port = [] := by
  rw [afterWrite, dropClaim, claimsOn_setClaims]
  show ((v.setClaims f.port [t]).claimsOn f.port).filter (· != t) = []
  rw [claimsOn_setClaims]
  simp

/-- A port that nobody claims is granted at once. -/
lemma claimPort_does (h : Undisturbed t v) {port} (hclaims : v.claimsOn port = []) :
    Does t (ask (.claimPort port)) l v true l (v.setClaims port [t]) := by
  have hadd : v.addClaim port t = v.setClaims port [t] := by
    rw [Bench.addClaim, hclaims]
    rfl
  refine .ask rfl ?_
  show (v.claimPort t port).answer? = some (v.setClaims port [t], true)
  rw [Bench.claimPort, if_neg (by simp [h.going]), hadd]
  dsimp only
  rw [if_pos (by rw [Bench.claimsOn_setClaims]; rfl)]
  rfl

/-- A write takes the time of a write, and the frame is on the bus then. -/
lemma write_does (h : Undisturbed t v) {f : Frame} (hclaims : v.claimsOn f.port = [])
    (htakes : v.bus.isFailing f.port = false) : Does t (write f) l v true l (v.afterWrite t f) := by
  let claimed := v.setClaims f.port [t]
  let later : Bench := { claimed with now := v.now + v.writeTime }
  let written : Bench := { later with bus := (v.bus.write later.now f).1 }
  have hclaim : Does t (ask (.claimPort f.port)) l v true l claimed := claimPort_does h hclaims
  have htime : Does t (ask .writeTime) l claimed v.writeTime l claimed := .ask rfl rfl
  have hclock : Does t clock l claimed v.now l claimed := .ask rfl rfl
  have hsleep : Does t (ask (.sleepUntil later.now false)) l claimed Waking.expired l later :=
    .sleepUntil (v := claimed) v.writeTime false h.going h.state
  have htransmit : Does t (ask (.transmit f)) l later true l written := by
    refine .ask rfl ?_
    rw [← (Bus.write_of_takes htakes later.now).1]
    rfl
  have hleave : Does t (ask (.leaveClaim f.port)) l written () l (v.afterWrite t f) := .ask rfl rfl
  exact hclaim.bind (.bind .pure (htime.bind (hclock.bind (hsleep.bind
    (htransmit.bind (hleave.bind .pure))))))

/-- With a single port all writes are one. -/
lemma writeAll_does (h : Undisturbed t v) {port} (hclaims : v.claimsOn port = [])
    (htakes : v.bus.isFailing port = false) (pos id data extended) :
    Does t (writeAll pos id data extended [port]) l v () l
      (v.afterWrite t ⟨id, data, extended, port, 0⟩) := by
  have hwrite := write_does (l := l) h (f := ⟨id, data, extended, port, 0⟩) hclaims htakes
  exact hwrite.bind .pure

end Waits

end CanScript
