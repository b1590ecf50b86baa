import CanScript.Proofs.Reach

/-! # How the tasks of a run end

    When a run is called off its tasks may be anywhere: asleep, waiting for a frame, for a port or
    for the turn, held up by a pause, or in the middle of a handler.  From then on every request is
    answered, and a wait is answered with the news that the run is over, so that each task ends by
    itself. -/

namespace CanScript

open List

/-! ## Requests after the end -/

/-- The replies that a request can get when the run was called off. -/
def Request.CalledOff : (op : Request) → op.Reply → Prop
  | .standing, reply => (reply : Standing) = .stopped
  | .awaitRunning, reply => (reply : Bool) = false
  | .sleepUntil _ _, reply => (reply : Waking) = .stopped
  | .nextFrame _ _, reply => (reply : Arrival) = .stopped
  | .receive _, reply => (reply : Option (Received Frame)) = none
  | .claimPort _, reply => (reply : Bool) = false
  | _, _ => True

variable {b : Bench}

/-- When the run was called off no request has to wait. -/
lemma Bench.perform_calledOff (hb : b.isCancelled) (t op) :
    ∃ b' reply, (b.perform t op).answer? = some (b', reply) ∧ op.CalledOff reply := by
  have hstanding : b.standing = .stopped := if_pos hb
  cases op with
  | standing => exact ⟨b, b.standing, rfl, hstanding⟩
  | acquire =>
    show ∃ b' reply, (b.acquire t).answer? = some (b', reply) ∧ True
    rw [acquire, if_pos hb]
    by_cases hown : b.turn = some t
    · rw [if_pos hown]
      exact ⟨_, _, rfl, trivial⟩
    · rw [if_neg hown]
      exact ⟨_, _, rfl, trivial⟩
  | awaitRunning =>
    rw [perform, hstanding]
    exact ⟨b, false, rfl, rfl⟩
  | sleepUntil deadline heedPause =>
    show ∃ b' reply, (b.sleepUntil deadline heedPause).answer? = some (b', reply) ∧ _
    rw [sleepUntil, if_pos hb]
    exact ⟨b, Waking.stopped, rfl, rfl⟩
  | nextFrame r deadline =>
    show ∃ b' reply, (b.nextFrame r deadline).answer? = some (b', reply) ∧ _
    rw [nextFrame, if_pos hb]
    exact ⟨b, Arrival.stopped, rfl, rfl⟩
  | receive source =>
    show ∃ b' reply, (b.receive source).answer? = some (b', reply) ∧ _
    rw [receive, if_pos hb]
    exact ⟨b, (none : Option (Received Frame)), rfl, rfl⟩
  | claimPort port =>
    show ∃ b' reply, (b.claimPort t port).answer? = some (b', reply) ∧ _
    rw [claimPort, if_pos hb]
    exact ⟨_, false, rfl, rfl⟩
  | setGlobals globals =>
    rw [perform]
    by_cases hown : b.turn = some t
    · rw [if_pos hown]
      exact ⟨_, _, rfl, trivial⟩
    · rw [if_neg hown]
      exact ⟨_, _, rfl, trivial⟩
  | _ => exact ⟨_, _, rfl, trivial⟩

/-! ## Processes that end -/

namespace Process

variable {α β σ : Type} {Q : α → Prop}

/-- A process comes to an end, with a result of some kind, when the run was called off. -/
inductive Quits (Q : α → Prop) : Process α → Prop where
  | pure {a} : Q a → Quits Q (.pure a)
  | act {op : Request} {next : op.Reply → Process α} :
      (∀ reply, op.CalledOff reply → Quits Q (next reply)) → Quits Q (.act op next)
  | iter {σ β : Type} {body : σ → Process (σ ⊕ β)} {s} {next : β → Process α} :
      Quits Q (unfold body s next) → Quits Q (.iter body s next)

variable {p : Process α}

namespace Quits

lemma bind {R : β → Prop} {f : α → Process β} (hp : Quits Q p) (hf : ∀ a, Q a → Quits R (f a)) :
    Quits R (p.bind f) := by
  induction hp with
  | pure ha => exact hf _ ha
  | act _ ih => exact .act ih
  | iter _ ih =>
    rw [unfold_bind] at ih
    exact .iter ih

lemma loop {R : β → Prop} {body : σ → Process (σ ⊕ β)} {s}
    (h : Quits (Sum.elim (fun s' => Quits R (Process.loop body s')) R) (body s)) :
    Quits R (Process.loop body s) := by
  refine .iter (h.bind fun round hround => ?_)
  cases round with
  | inl s' => exact hround
  | inr b => exact .pure hround

end Quits

/-- What a process has left to do after a move, when the run was called off. -/
inductive Sequel : Process α → Process α → Prop where
  | act {op : Request} {next : op.Reply → Process α} {reply} :
      op.CalledOff reply → Sequel (next reply) (.act op next)
  | iter {σ β : Type} {body : σ → Process (σ ⊕ β)} {s} {next : β → Process α} :
      Sequel (unfold body s next) (.iter body s next)

lemma Quits.acc (h : Quits Q p) : Acc Sequel p := by
  induction h with refine .intro _ fun q hq => ?_
  | pure _ => cases hq
  | act _ ih =>
    cases hq with
    | act hreply => exact ih _ hreply
  | iter _ ih =>
    cases hq
    exact ih

lemma Quits.sequel {q} (h : Quits Q p) (hq : Sequel q p) : Quits Q q := by
  cases hq with
  | act hreply =>
    cases h with
    | act h => exact h _ hreply
  | iter =>
    cases h with
    | iter h => exact h

def Stoppable (p : Process α) : Prop :=
  Throughout (fun q => Quits (fun _ => True) q) p

namespace Stoppable

lemma quits (h : Stoppable p) : Quits (fun _ => True) p :=
  h.here

lemma pure (a : α) : Stoppable (.pure a) :=
  Throughout.pure (.pure trivial)

lemma act (op : Request) : Answers Stoppable op :=
  fun _ _ hnext => Throughout.act (.act fun reply _ => (hnext reply).quits) hnext

lemma bind {f : α → Process β} (hp : Stoppable p) (hf : ∀ a, Stoppable (f a)) :
    Stoppable (p.bind f) :=
  Throughout.bind hp (fun hq => hq.bind fun a _ => (hf a).quits) hf

lemma loop {body : σ → Process (σ ⊕ β)} (hbody : ∀ s, Stoppable (body s))
    (hquits : ∀ s, Quits (fun _ => True) (Process.loop body s)) (s : σ) :
    Stoppable (Process.loop body s) :=
  Throughout.loop hbody (fun hf hq => hq.bind fun outcome _ => hf outcome) hquits
    (fun _ => .pure trivial) s

lemma indifferent : Indifferent Stoppable where
  pure := Stoppable.pure
  bind := Stoppable.bind
  ask op _ := Stoppable.act op
  write f _ := Sequential.evalWrite ⟨Stoppable.pure, Stoppable.bind⟩ (fun op _ => Stoppable.act op)
    (Stoppable.act (.transmit f))

end Stoppable

end Process

/-! ## Executions that give up -/

namespace Eval

open Process

variable {α β σ : Type}

def GivesUp (x : Eval α) : Prop :=
  ∀ l, Quits (fun r => ∃ e, r.1 = .error e) (x.start l)

variable {x : Eval α}

namespace GivesUp

lemma throw (e) : GivesUp (throw e : Eval α) :=
  fun _ => .pure ⟨e, rfl⟩

lemma bind (hx : GivesUp x) (f : α → Eval β) : GivesUp (x >>= f) := by
  intro l
  refine (hx l).bind fun r hr => ?_
  obtain ⟨result, l'⟩ := r
  obtain ⟨e, rfl⟩ := hr
  exact .pure ⟨e, rfl⟩

lemma ask {op : Request} {f : op.Reply → Eval α}
    (hf : ∀ reply, op.CalledOff reply → GivesUp (f reply)) : GivesUp (Eval.ask op >>= f) :=
  fun l => .act fun reply hreply => hf reply hreply l

lemma checkpoint (yieldEvery : Nat) : GivesUp (checkpoint yieldEvery) := by
  refine ask fun standing hstanding => ?_
  cases hstanding
  exact throw .stopped

lemma sleepStretch (remaining : Nat) : GivesUp (sleepStretch remaining) := by
  refine ask fun going hgoing => ?_
  cases hgoing
  exact (throw .stopped).bind _

lemma waitRound (s : Setting) (call : Caller) (scope : Option ScopeId) (predicate : Expr)
    (reader : ReaderId) (deadline : Nat) :
    GivesUp (waitRound s call scope predicate reader deadline) := by
  refine ask fun _ _ => ask fun going hgoing => ?_
  cases hgoing
  exact (throw .stopped).bind _

lemma loop {body : σ → Eval (σ ⊕ β)} {s} (h : GivesUp (body s)) : GivesUp (Eval.loop body s) := by
  intro l
  refine Quits.loop ((h l).bind fun r hr => ?_)
  obtain ⟨result, l'⟩ := r
  obtain ⟨e, rfl⟩ := hr
  exact .pure ⟨e, rfl⟩

lemma quits (h : GivesUp x) (l : Local) : Quits (fun _ => True) (x.start l) := by
  have hend := (h l).bind (R := fun _ => True) fun r _ => .pure (a := r) trivial
  rwa [bind_pure] at hend

end GivesUp

lemma quits_bind {R : Exit β → Prop} {f : α → Eval β} {l}
    (hx : Quits (fun _ => True) (x.start l)) (hf : ∀ a l', Quits R ((f a).start l'))
    (herror : ∀ e l', R (.error e, l')) : Quits R ((x >>= f).start l) := by
  refine hx.bind fun r _ => ?_
  obtain ⟨result, l'⟩ := r
  cases result with
  | ok a => exact hf a l'
  | error e => exact .pure (herror e l')

lemma quits_loop {body : σ → Eval (σ ⊕ β)} {s l} (h : Quits (fun r => ∀ s', r.1 = .ok (.inl s') →
      Quits (fun _ => True) ((loop body s').start r.2)) ((body s).start l)) :
    Quits (fun _ => True) ((loop body s).start l) := by
  refine Quits.loop (h.bind fun r hr => ?_)
  obtain ⟨result, l'⟩ := r
  cases result with
  | ok outcome =>
    cases outcome with
    | inl s' => exact .pure (hr s' rfl)
    | inr b => exact .pure trivial
  | error e => exact .pure trivial

end Eval

/-! ## The tasks of a run -/

namespace Process.Stoppable

open Eval

lemma evalLoop {σ β : Type} {body : σ → Eval (σ ⊕ β)} (hbody : ∀ s, Always Stoppable (body s))
    (hquits : ∀ s l, Quits (fun _ => True) ((Eval.loop body s).start l)) (s : σ) :
    Always Stoppable (Eval.loop body s) :=
  fun l => Stoppable.loop (indifferent.evalRound hbody) (fun state => hquits state.1 state.2) (s, l)

lemma repeatForever (yieldEvery : Nat) {body} (hbody : Always Stoppable body) :
    Always Stoppable (repeatForever yieldEvery body) := by
  have hlater : GivesUp (Eval.loop (foreverRound yieldEvery body) false) :=
    .loop ((GivesUp.checkpoint yieldEvery).bind _)
  rw [repeatForever_eq]
  refine evalLoop (indifferent.sober.foreverRound yieldEvery hbody) (fun first l => ?_) true
  cases first with
  | false => exact hlater.quits l
  | true =>
    refine quits_loop (quits_bind (hbody l).quits (fun flow l' => ?_) fun e l' s' h => ?_)
    · cases afterRound flow with
      | some flow =>
        refine .pure fun s' h => ?_
        cases h
      | none =>
        refine .pure fun s' h => ?_
        cases h
        exact hlater.quits _
    · cases h

lemma pervasive (s : Setting) : Pervasive s Stoppable where
  toIndifferent := indifferent
  sleep := evalLoop indifferent.sober.sleepStretch fun remaining l =>
    (GivesUp.loop (.sleepStretch remaining)).quits l
  repeatForever hbody := repeatForever _ hbody
  waitLoop hround reader := evalLoop (hround reader) fun deadline l =>
    (GivesUp.loop (.waitRound _ _ _ _ reader deadline)).quits l

lemma forwarder (port : String) (r : ReaderId) : Stoppable (forwarder port r) := by
  rw [forwarder_eq]
  refine Stoppable.loop (fun _ => indifferent.forwardRound (act _) (act _) fun f => act _)
    (fun _ => ?_) ()
  refine Quits.loop (.act fun received hreceived => ?_)
  cases hreceived
  exact .act fun _ _ => .pure trivial

lemma dispatcher (s : Setting) (r : ReaderId) : Stoppable (dispatcher s r) := by
  have h := pervasive s
  refine h.toProcess (evalLoop (fun _ => h.dispatchRound (h.conductsAll fun bs => act _)
    s.program.unrestricted (act _)) (fun _ l => quits_loop (.act fun received hreceived => ?_)) ())
  cases hreceived
  refine .pure fun s' h => ?_
  cases h

lemma intervalLoop (s : Setting) (i millis : Nat) :
    Always Stoppable (Eval.loop (fun _ => intervalRound i millis) ()) :=
  evalLoop (fun _ => (pervasive s).intervalRound i millis) (fun _ l =>
    (GivesUp.loop ((GivesUp.loop (.sleepStretch millis)).bind _)).quits l) ()

end Process.Stoppable

lemma Role.stoppable {setting p} (h : Role setting p) : p.Stoppable := by
  refine (Process.Stoppable.pervasive setting).role (fun _ => .act _) (fun port r heq => ?_)
    (fun r heq => ?_) (.intervalLoop setting) h
  · rw [heq]
    exact .forwarder port r
  · rw [heq]
    exact .dispatcher setting r

/-! ## Slices of time -/

lemma runTask_calledOff (t n moved) (hb : b.isCancelled) (p) :
    runTask t (n + 1) moved b p = ⟨b, none, true⟩ ∨
    ∃ k b' q, k ≤ n ∧ b'.isCancelled ∧ b'.spawned = b.spawned ∧ Process.Sequel q p ∧
      runTask t (n + 1) moved b p = runTask t k true b' q := by
  cases p with
  | pure _ => exact .inl rfl
  | iter body s next => exact .inr ⟨n, b, _, le_rfl, hb, rfl, .iter, rfl⟩
  | act op next =>
    obtain ⟨b', reply, hanswer, hreply⟩ := Bench.perform_calledOff hb t op
    obtain ⟨k, hk, hnext⟩ := Session.runTask_answered hanswer n moved next
    have hchange := b.perform_change t op
    rw [Outcome.bench_of_answer hanswer] at hchange
    exact .inr ⟨k, b', next reply, hk, hchange.isCancelled hb, hchange.spawned_of_cancelled hb,
      .act hreply, hnext⟩

/-- What a task makes of its slice of time when the run was called off: it moves, and then it has
    ended or is nearer to its end. -/
structure Slice.Expires (slice : Slice) (b : Bench) (p : Process Unit) : Prop where
  moved : slice.moved = true
  cancelled : slice.bench.isCancelled = true
  spawned : slice.bench.spawned = b.spawned
  quits : ∀ q, slice.rest = some q → q.Quits fun _ => True
  nearer : ∀ q, slice.rest = some q → Relation.TransGen Process.Sequel q p

lemma runTask_succ_expires (t n moved) (hb : b.isCancelled) {p} (hp : p.Quits fun _ => True) :
    (runTask t (n + 1) moved b p).Expires b p := by
  induction n using Nat.strongRecOn generalizing moved b p with
  | ind n ih =>
    rcases runTask_calledOff t n moved hb p with
      hend | ⟨k, b', q, hk, hb', hspawned, hsequel, hnext⟩
    · rw [hend]
      refine ⟨rfl, hb, rfl, fun q hq => ?_, fun q hq => ?_⟩
      · cases hq
      · cases hq
    · rw [hnext]
      -- the slice may have ended with this move
      cases k with
      | zero =>
        refine ⟨rfl, hb', hspawned, fun r hr => ?_, fun r hr => ?_⟩
        · cases hr
          exact hp.sequel hsequel
        · cases hr
          exact .single hsequel
      | succ k =>
        have hrest := ih k hk true hb' (hp.sequel hsequel)
        exact ⟨hrest.moved, hrest.cancelled, hrest.spawned.trans hspawned, hrest.quits,
          fun r hr => (hrest.nearer r hr).tail hsequel⟩

/-! ## Sessions that are called off -/

namespace Session

/-- A session whose run was called off: its tasks end, and no more are started. -/
structure Expiring (s : Session) : Prop where
  cancelled : s.bench.isCancelled = true
  spawned : s.bench.spawned = []
  quits : ∀ task ∈ s.tasks, task.rest.Quits fun _ => True

lemma sliceTasks_quits {slice p} (h : slice.Expires b p) (t) :
    ∀ task ∈ sliceTasks t slice, task.rest.Quits fun _ => True := by
  intro task hmem
  rw [sliceTasks] at hmem
  cases hrest : slice.rest with
  | none =>
    rw [hrest] at hmem
    cases hmem
  | some q =>
    rw [hrest] at hmem
    rw [mem_singleton.mp hmem]
    exact h.quits q hrest

lemma sliceTasks_length (t slice) : (sliceTasks t slice).length ≤ 1 := by
  rw [sliceTasks]
  cases slice.rest with
  | none => exact Nat.zero_le 1
  | some q => exact le_rfl

lemma slice_expires (hb : b.isCancelled) {task} (htask : task.rest.Quits fun _ => True) :
    (slice task b).Expires b task.rest :=
  runTask_succ_expires task.id (stepLimit - 1) false hb htask

lemma passOver_expiring (hb : b.isCancelled) (hspawned : b.spawned = []) (moved) {kept tasks}
    (hkept : ∀ task ∈ kept, task.rest.Quits fun _ => True)
    (htasks : ∀ task ∈ tasks, task.rest.Quits fun _ => True) :
    Expiring (Machine.passOver b moved kept tasks).1 ∧
    (∃ left, (Machine.passOver b moved kept tasks).1.tasks = kept.reverse ++ left ∧
      left.length ≤ tasks.length) ∧
    (moved → (Machine.passOver b moved kept tasks).2) := by
  induction tasks generalizing b moved kept with
  | nil =>
    exact ⟨⟨hb, hspawned, fun task hmem => hkept task (mem_reverse.mp hmem)⟩,
      ⟨[], (append_nil _).symm, le_rfl⟩, id⟩
  | cons task tasks ih =>
    obtain ⟨htask, hrest⟩ := forall_mem_cons.mp htasks
    have hslice := slice_expires hb htask
    have hlength := sliceTasks_length task.id (slice task b)
    obtain ⟨hexpiring, ⟨left, hleft, hshorter⟩, hmoved⟩ := ih hslice.cancelled
      (hslice.spawned.trans hspawned) (moved || (slice task b).moved)
      (forall_mem_append.mpr ⟨sliceTasks_quits hslice task.id, hkept⟩) hrest
    rw [passOver_cons]
    -- what is left of this task stands before what is left of the others
    refine ⟨hexpiring, ⟨(sliceTasks task.id (slice task b)).reverse ++ left, hleft.trans ?_, ?_⟩,
      fun h => hmoved (by rw [h]; rfl)⟩
    · rw [reverse_append, append_assoc]
    · rw [length_append, length_reverse, length_cons]
      omega

variable {s : Session}

lemma Expiring.pass {task tasks} (hs : s.Expiring) (htasks : s.tasks = task :: tasks) :
    s.pass.2 ∧ Expiring s.pass.1 ∧
    (s.pass.1.tasks.length ≤ tasks.length ∨
      ∃ q left, s.pass.1.tasks = ⟨task.id, q⟩ :: left ∧ left.length ≤ tasks.length ∧
        Relation.TransGen Process.Sequel q task.rest) := by
  obtain ⟨htask, hrest⟩ := forall_mem_cons.mp (htasks ▸ hs.quits)
  have hslice := slice_expires hs.cancelled htask
  have hkept := forall_mem_append.mpr
    ⟨sliceTasks_quits hslice task.id, forall_mem_nil fun task : Task => task.rest.Quits _⟩
  obtain ⟨hexpiring, ⟨left, hleft, hshorter⟩, hmoved⟩ := passOver_expiring hslice.cancelled
    (hslice.spawned.trans hs.spawned) (false || (slice task s.bench).moved) hkept hrest
  rw [← passOver_cons, ← htasks] at hexpiring hleft hmoved
  have hpass : s.pass.1 = _ := startTasks_of_none hexpiring.spawned
  rw [hpass]
  refine ⟨hmoved hslice.moved, hexpiring, ?_⟩
  rw [hleft, sliceTasks]
  cases hq : (slice task s.bench).rest with
  | none => exact .inl hshorter
  | some q => exact .inr ⟨q, left, rfl, hshorter, hslice.nearer q hq⟩

/-- All tasks of a session end by themselves after enough passes over them, and then nothing more
    happens. -/
def Settles (s : Session) : Prop :=
  ∃ enough final, final.tasks = [] ∧ ∀ passes, enough ≤ passes → s.settleWithin passes = final

lemma Settles.of_pass (hmoved : s.pass.2) (h : Settles s.pass.1) : s.Settles := by
  obtain ⟨enough, final, hfinal, hsettled⟩ := h
  refine ⟨enough + 1, final, hfinal, fun passes hpasses => ?_⟩
  obtain ⟨k, rfl⟩ := Nat.exists_eq_add_of_le' (Nat.le_of_add_left_le hpasses)
  rw [Machine.settleWithin_succ, if_pos hmoved]
  exact hsettled k (Nat.le_of_succ_le_succ hpasses)

lemma Expiring.settles_nil (hs : s.Expiring) (htasks : s.tasks = []) : s.Settles :=
  ⟨0, s, htasks, fun passes _ => settleWithin_of_bare htasks hs.spawned passes⟩

lemma Expiring.settles_cons {n}
    (hfewer : ∀ s : Session, s.tasks.length ≤ n → s.Expiring → s.Settles) {p}
    (hp : Acc (Relation.TransGen Process.Sequel) p) :
    ∀ (s : Session) t tasks, s.tasks = ⟨t, p⟩ :: tasks → tasks.length ≤ n → s.Expiring →
      s.Settles := by
  induction hp with
  | intro p _ ih =>
    intro s t tasks htasks hlength hs
    obtain ⟨hmoved, hexpiring, hshort | ⟨q, left, hleft, hshorter, hnearer⟩⟩ := hs.pass htasks
    · exact .of_pass hmoved (hfewer _ (hshort.trans hlength) hexpiring)
    · exact .of_pass hmoved (ih q hnearer _ t left hleft (hshorter.trans hlength) hexpiring)

lemma Expiring.settles (hs : s.Expiring) : s.Settles := by
  have hbounded : ∀ n (s : Session), s.tasks.length ≤ n → s.Expiring → s.Settles := by
    intro n
    induction n with
    | zero =>
      intro s hlength hs
      exact hs.settles_nil (length_eq_zero_iff.mp (Nat.le_zero.mp hlength))
    | succ n ih =>
      intro s hlength hs
      cases htasks : s.tasks with
      | nil => exact hs.settles_nil htasks
      | cons task tasks =>
        rw [htasks] at hlength
        have hquits := hs.quits task (htasks ▸ mem_cons_self)
        exact settles_cons ih hquits.acc.transGen s task.id tasks htasks
          (Nat.le_of_succ_le_succ hlength) hs
  exact hbounded _ s le_rfl hs

lemma Reachable.settles {limits bus writeTime} (h : Reachable limits bus writeTime s) :
    Settles s.callOff.startTasks ∧ (s.bench.spawned = [] → Settles s.callOff) := by
  have hcalled : Reachable limits bus writeTime s.callOff := h.step (.external (.callOff s))
  have hstarted : Reachable limits bus writeTime s.callOff.startTasks := hcalled.step (.spawn _)
  obtain ⟨processes, heq, -⟩ := startTasks_eq s.callOff
  constructor
  · refine Expiring.settles ⟨?_, ?_, fun _ => hstarted.throughout Role.stoppable⟩
    · rw [heq]
      exact callOff_cancelled s
    · rw [heq]
      rfl
  · intro hspawned
    exact Expiring.settles ⟨callOff_cancelled s, (External.callOff s).apart.spawned.trans hspawned,
      fun _ => hcalled.throughout Role.stoppable⟩

end Session

end CanScript
