import CanScript.Proofs.Reach

/-! # A task among forwarders

    In a run without handlers one task executes the main sequence, and the others only move frames
    from ports to the hub.  Those change nothing that the main sequence can see, so it comes to the
    same end as it would alone. -/

namespace CanScript

open List Bench Outcome

/-! ## What forwarders change -/

def Run.core (r : Run) : Run :=
  { r with setting := ⟨{}, [], {}⟩, readers := [] }

def Bench.core (b : Bench) : Bench :=
  { b with
    limits := {}
    hub := .ofCapacity 1
    bus := { b.bus with channels := [] }
    run := b.run.map Run.core }

def Request.isForwarding : Request → Bool
  | .receive _ => true
  | .leavePort _ _ => true
  | .publish _ => true
  | _ => false

/-- Requests that do not depend on what is in channels, and start no task. -/
def Request.isOwn : Request → Bool
  | .receive _ => false
  | .leavePort _ _ => false
  | .publish _ => false
  | .listen => false
  | .unlisten _ => false
  | .nextFrame _ _ => false
  | .spawn _ => false
  | _ => true

variable {b v w : Bench} {p q : Process Unit} {deadline k : Nat} {heedPause : Bool} {t : TaskId}

namespace Outcome

variable {op : Request}

def core : Outcome op → Outcome op
  | done b reply => done b.core reply
  | yielded b reply => yielded b.core reply
  | wait b => wait b.core

lemma core_answer? (outcome : Outcome op) :
    outcome.core.answer? = outcome.answer?.map fun p => (p.1.core, p.2) := by
  cases outcome <;> rfl

lemma core_bench (outcome : Outcome op) : outcome.core.bench = outcome.bench.core := by
  cases outcome <;> rfl

end Outcome

namespace Bench

lemma perform_forwarding (b : Bench) (t) {op} (h : op.isForwarding) :
    (b.perform t op).bench.core = b.core := by
  have hchange := b.perform_change t op
  generalize (b.perform t op).bench = b' at hchange ⊢
  cases hchange with
  | nothing | frames => rfl
  | claims _ hop => rcases hop with rfl | rfl <;> cases h
  | _ => cases h

lemma core_isCancelled (b : Bench) : b.core.isCancelled = b.isCancelled := by
  show (b.run.map Run.core).all _ = b.run.all _
  cases b.run <;> rfl

lemma core_core (b : Bench) : b.core.core = b.core := by
  obtain ⟨limits, bus, log, writeTime, now, state, run, rest⟩ := b
  cases run <;> rfl

lemma write_core (b : Bench) (f) : { (b.core.bus.write b.now f).1 with channels := [] }
      = { (b.bus.write b.now f).1 with channels := [] }
    ∧ (b.core.bus.write b.now f).2 = (b.bus.write b.now f).2 := by
  have hfailing : b.core.bus.isFailing f.port = b.bus.isFailing f.port := rfl
  have hloop : b.core.bus.loopback = b.bus.loopback := rfl
  simp only [Bus.write, hfailing, hloop]
  cases b.bus.isFailing f.port with
  | true => exact ⟨rfl, rfl⟩
  | false => cases b.bus.loopback <;> exact ⟨rfl, rfl⟩

lemma addClaim_core (b : Bench) (port t) : b.core.addClaim port t = (b.addClaim port t).core := by
  unfold addClaim
  rw [apply_ite core]
  rfl

/-- What the core leaves out makes no difference to a request of a task that has nothing to do with
    it. -/
lemma perform_core (b : Bench) (t) {op} (h : op.isOwn) :
    (b.perform t op).core = (b.core.perform t op).core := by
  have hcancelled := b.core_isCancelled
  have hstanding : b.core.standing = b.standing := by
    rw [standing, standing, hcancelled]
    rfl
  cases op with
  | claimPort port =>
    have hdrop : b.core.dropClaim port t = (b.dropClaim port t).core := rfl
    show (b.claimPort t port).core = (b.core.claimPort t port).core
    rw [claimPort, claimPort, addClaim_core, hcancelled, hdrop]
    simp only [apply_ite Outcome.core]
    simp only [Outcome.core, core_core]
    rfl
  | transmit f =>
    obtain ⟨hbus, htaken⟩ := write_core b f
    refine congrArg₂ Outcome.done ?_ htaken.symm
    show { b.core with bus := { (b.bus.write b.now f).1 with channels := [] } }
      = { b.core.core with bus := { (b.core.bus.write b.now f).1 with channels := [] } }
    rw [core_core, hbus]
  | awaitRunning =>
    unfold perform
    rw [hstanding]
    cases b.standing <;> simp only [Outcome.core, core_core]
  | acquire =>
    unfold perform acquire
    rw [hcancelled]
    simp only [apply_ite Outcome.core]
    obtain ⟨limits, bus, log, writeTime, now, state, run, rest⟩ := b
    cases run <;> rfl
  | sleepUntil deadline heedPause =>
    unfold perform sleepUntil
    rw [hcancelled]
    simp only [apply_ite Outcome.core]
    simp only [Outcome.core, core_core]
    rfl
  | release =>
    show Outcome.done (core (if b.turn = some t then _ else _)) _
      = Outcome.done (core (if b.turn = some t then _ else _)) _
    obtain ⟨limits, bus, log, writeTime, now, state, run, rest⟩ := b
    split <;> cases run <;> rfl
  | setGlobals bs =>
    show Outcome.core (if b.turn = some t then _ else _)
      = Outcome.core (if b.turn = some t then _ else _)
    obtain ⟨limits, bus, log, writeTime, now, state, run, rest⟩ := b
    split <;> cases run <;> rfl
  | finish =>
    show Outcome.done b.finish.core _ = Outcome.done b.core.finish.core _
    unfold finish setState
    simp only [apply_ite core]
    obtain ⟨limits, bus, log, writeTime, now, state, run, rest⟩ := b
    cases run <;> rfl
  | standing | yield | clock | elapsed | globals | report | print | entropy | leaveClaim
  | writeTime =>
    obtain ⟨limits, bus, log, writeTime, now, state, run, rest⟩ := b
    cases run <;> rfl
  | _ => cases h

end Bench

def Task.Forwards (task : Task) : Prop :=
  ∃ port r n, Process.Reaches n (forwarder port r) task.rest

namespace Task.Forwards

variable {task : Task} (h : task.Forwards)

include h

lemma request {op} (hop : task.rest.request? = some op) : op.isForwarding := by
  obtain ⟨port, r, n, hreaches⟩ := h
  have hround : (forwardRound port r).Only fun op => op.isForwarding :=
    Process.Only.sequential.forwardRound (Process.Only.act rfl) (Process.Only.act rfl)
      fun _ => Process.Only.act rfl
  exact Process.Only.loop (fun _ => hround) () n _ hreaches op hop

lemma after_core (b : Bench) : (b.after task.id task.rest).core = b.core := by
  cases hrest : task.rest with
  | act op next => exact b.perform_forwarding task.id (h.request (by rw [hrest]; rfl))
  | pure _ | iter _ _ _ => rfl

lemma moved (b : Bench) : ∀ o ∈ task.moved b, o.Forwards := by
  obtain ⟨port, r, n, hreaches⟩ := h
  rw [Task.moved]
  split
  · exact forall_mem_nil _
  · exact forall_mem_singleton.mpr ⟨port, r, hreaches.step b task.id⟩

lemma request_deadline : task.rest.request?.bind Request.deadline? = none := by
  cases hop : task.rest.request? with
  | none => rfl
  | some op =>
    have hforwarding := h.request hop
    cases op with
    | receive _ | leavePort _ _ | publish _ => rfl
    | _ => cases hforwarding

end Task.Forwards

lemma Session.Moves.forwards {s s'} (h : Moves s s') (hspawned : s.bench.spawned = [])
    (hs : ∀ o ∈ s.tasks, o.Forwards) :
    s'.bench.core = s.bench.core ∧ ∀ o ∈ s'.tasks, o.Forwards := by
  induction h with
  | refl => exact ⟨rfl, hs⟩
  | @move b before task behind _ ih =>
    obtain ⟨hbefore, hrest⟩ := forall_mem_append.mp ih.2
    obtain ⟨htask, hbehind⟩ := forall_mem_cons.mp hrest
    exact ⟨(htask.after_core b).trans ih.1,
      forall_mem_append.mpr ⟨forall_mem_append.mpr ⟨hbefore, htask.moved b⟩, hbehind⟩⟩
  | spawn _ ih => rwa [startTasks_of_none ((congrArg spawned ih.1 :).trans hspawned)]

/-! ## The course of one task -/

/-- A task by itself makes a number of steps without having to wait. -/
inductive Steps (t : TaskId) : Nat → Bench → Process Unit → Bench → Process Unit → Prop where
  | refl {v : Bench} {p : Process Unit} : Steps t 0 v p v p
  | loop {n v w q} {σ β : Type} {body : σ → Process (σ ⊕ β)}
      {s} {next : β → Process Unit} : Steps t n v (Process.unfold body s next) w q →
      Steps t (n + 1) v (.iter body s next) w q
  | act {n} {v v' w : Bench} {q} {op : Request} {reply}
      {next : op.Reply → Process Unit} : op.isOwn = true →
      (v.perform t op).answer? = some (v', reply) → Steps t n v' (next reply) w q →
      Steps t (n + 1) v (.act op next) w q

/-- A sleep that goes on. -/
structure Asleep (v : Bench) (deadline : Nat) (heedPause : Bool) : Prop where
  going : v.isCancelled = false
  early : v.now < deadline
  unpaused : (heedPause && v.isPaused) = false
  active : v.state.isActive = true

lemma Asleep.perform (h : Asleep v deadline heedPause) (t : TaskId) :
    v.perform t (.sleepUntil deadline heedPause) = .wait v := by
  show v.sleepUntil deadline heedPause = _
  rw [sleepUntil, if_neg (by simp [h.going]), if_neg h.early.not_ge,
    if_neg (by simp [h.unpaused])]

/-- A task by itself comes to its end, the clock moving on when it sleeps. -/
inductive Comes (t : TaskId) : Bench → Process Unit → Bench → Prop where
  | ends {n v w p u} : Steps t n v p w (.pure u) → Comes t v p w
  | sleeps {n v u w p deadline heedPause}
      {next : (Request.sleepUntil deadline heedPause).Reply → Process Unit} :
      Steps t n v p u (.act (.sleepUntil deadline heedPause) next) → Asleep u deadline heedPause →
      Comes t { u with now := deadline } (.act (.sleepUntil deadline heedPause) next) w →
      Comes t v p w

/-- Where a task by itself does not go on: at its end, or asleep. -/
inductive Halts (v : Bench) : Process Unit → Prop where
  | ended (u : Unit) : Halts v (.pure u)
  | asleep {deadline : Nat} {heedPause : Bool}
      {next : (Request.sleepUntil deadline heedPause).Reply → Process Unit} :
      Asleep v deadline heedPause → Halts v (.act (.sleepUntil deadline heedPause) next)

lemma Bench.Change.keeps {b' op} (h : Change t b op b')
    (hop : op.isOwn) : b'.spawned = b.spawned ∧ b'.now = b.now := by
  cases h with
  | spawn => cases hop
  | _ => exact ⟨rfl, rfl⟩

lemma Steps.keeps {n} (h : Steps t n v p w q) : w.spawned = v.spawned ∧ w.now = v.now := by
  induction h with
  | refl => exact ⟨rfl, rfl⟩
  | loop _ ih => exact ih
  | @act n v v' w q op reply next hop hanswer _ ih =>
    have hkeeps := (v.perform_change t op).keeps hop
    rw [bench_of_answer hanswer] at hkeeps
    exact ⟨ih.1.trans hkeeps.1, ih.2.trans hkeeps.2⟩

lemma Comes.now_le (h : Comes t v p w) : v.now ≤ w.now := by
  induction h with
  | ends hsteps => exact hsteps.keeps.2.ge
  | sleeps hsteps hasleep _ ih =>
    have hnow := hsteps.keeps.2
    have hearly := hasleep.early
    dsimp only at ih
    omega

lemma Comes.spawned_eq (h : Comes t v p w) : w.spawned = v.spawned := by
  induction h with
  | ends hsteps => exact hsteps.keeps.1
  | sleeps hsteps _ _ ih => exact ih.trans hsteps.keeps.1

/-! ## Slices -/

lemma Bench.perform_alongside {op} (hb : b.core = v.core) (hop : op.isOwn) :
    (b.perform t op).core = (v.perform t op).core := by
  rw [b.perform_core t hop, hb, ← v.perform_core t hop]

lemma Bench.answer_core {v'} {op : Request} {reply} (hb : b.core = v.core)
    (hop : op.isOwn) (h : (v.perform t op).answer? = some (v', reply)) :
    ∃ b', (b.perform t op).answer? = some (b', reply) ∧ b'.core = v'.core := by
  have hanswer := congrArg answer? (perform_alongside (t := t) hb hop)
  rw [core_answer?, core_answer?, h] at hanswer
  obtain ⟨⟨b', reply'⟩, hanswer', heq⟩ := Option.map_eq_some_iff.mp hanswer
  obtain ⟨hcore, rfl⟩ := Prod.mk.inj heq
  exact ⟨b', hanswer', hcore⟩

lemma Asleep.of_core (h : Asleep v deadline heedPause) (hb : b.core = v.core) :
    Asleep b deadline heedPause := by
  have hnow : b.now = v.now := (congrArg now hb :)
  have hstate : b.state = v.state := (congrArg state hb :)
  obtain ⟨hgoing, hearly, hunpaused, hactive⟩ := h
  unfold isPaused at hunpaused
  refine ⟨?_, by rwa [hnow], ?_, by rwa [hstate]⟩
  · rwa [← b.core_isCancelled, hb, v.core_isCancelled]
  · rwa [isPaused, hstate]

namespace Machine

/-- Forwarders, and after them one task that has come to a point of its course. -/
structure Runs (m : Machine) (t : TaskId) (v : Bench) (p : Process Unit) : Prop where
  bench : m.bench.core = v.core
  tasks : ∃ others : List Task, m.tasks = others ++ [⟨t, p⟩] ∧ ∀ o ∈ others, o.Forwards

def Follows (m : Machine) (t : TaskId) (k : Nat) (w : Bench) (q : Process Unit) : Prop :=
  (∃ j v p, j ≤ k ∧ m.Runs t v p ∧ Steps t j v p w q)
    ∨ m.bench.core = w.core ∧ (∀ o ∈ m.tasks, o.Forwards) ∧ ∃ u, q = .pure u

lemma Follows.mono {m : Machine} {k'} (h : m.Follows t k w q) (hk : k ≤ k') :
    m.Follows t k' w q := by
  rcases h with ⟨j, v, p, hj, h⟩ | h
  · exact .inl ⟨j, v, p, hj.trans hk, h⟩
  · exact .inr h

lemma Follows.halted {m : Machine} (h : m.Follows t k w q) (hk : k = 0) :
    m.Runs t w q ∨ m.bench.core = w.core ∧ ∃ u, q = .pure u := by
  rcases h with ⟨j, v, p, hj, hruns, hsteps⟩ | ⟨hcore, -, hu⟩
  · cases Nat.le_zero.mp (hk ▸ hj)
    cases hsteps
    exact .inl hruns
  · exact .inr ⟨hcore, hu⟩

end Machine

lemma runTask_moved (t n b p) : (runTask t n true b p).moved := by
  induction n generalizing b p with
  | zero => rfl
  | succ n ih =>
    cases p with
    | pure a => rfl
    | act op next =>
      rw [runTask]
      cases b.perform t op with
      | done b' reply => exact ih b' (next reply)
      | yielded b' reply => rfl
      | wait b' => rfl
    | iter body s next =>
      rw [runTask]
      exact ih b _

open Session

lemma Steps.runTask (h : Steps t k v p w q) (hq : Halts w q) (hb : b.core = v.core) (n moved) {kept}
    (hkept : ∀ o ∈ kept, o.Forwards) :
    Machine.Follows ⟨(runTask t n moved b p).bench, kept ++ sliceTasks t (runTask t n moved b p)⟩
      t k w q := by
  -- The task may be cut off anywhere, which leaves it on its course.
  induction n using Nat.strongRecOn generalizing k v p b moved with
  | ind n ih =>
  cases n with
  | zero => exact .inl ⟨k, v, p, le_rfl, ⟨hb, kept, rfl, hkept⟩, h⟩
  | succ n =>
    cases h with
    | refl =>
      cases hq with
      | ended u => exact .inr ⟨hb, (append_nil kept).symm ▸ hkept, u, rfl⟩
      | asleep hasleep =>
        rw [CanScript.runTask, (hasleep.of_core hb).perform t]
        exact .inl ⟨0, w, _, le_rfl, ⟨hb, kept, rfl, hkept⟩, .refl⟩
    | loop h => exact (ih n (Nat.lt_succ_self n) h hb true).mono (Nat.le_succ _)
    | act hop hanswer h =>
      obtain ⟨b', hanswer', hb'⟩ := answer_core hb hop hanswer
      obtain ⟨k, hk, hnext⟩ := runTask_answered hanswer' n moved _
      rw [hnext]
      exact (ih k (Nat.lt_succ_of_le hk) h hb' true).mono (Nat.le_succ _)

lemma Steps.runTask_succ (h : Steps t (k + 1) v p w q) (hq : Halts w q) (hb : b.core = v.core)
    (n moved) {kept} (hkept : ∀ o ∈ kept, o.Forwards) :
    Machine.Follows ⟨(CanScript.runTask t (n + 1) moved b p).bench,
        kept ++ sliceTasks t (CanScript.runTask t (n + 1) moved b p)⟩ t k w q
      ∧ (CanScript.runTask t (n + 1) moved b p).moved := by
  cases h with
  | loop h => exact ⟨h.runTask hq hb n true hkept, runTask_moved t n b _⟩
  | act hop hanswer h =>
    obtain ⟨b', hanswer', hb'⟩ := answer_core hb hop hanswer
    obtain ⟨k, -, hnext⟩ := runTask_answered hanswer' n moved _
    rw [hnext]
    exact ⟨h.runTask hq hb' k true hkept, runTask_moved t k b' _⟩

/-! ## Passes -/

namespace Machine

variable {m : Machine}

lemma Runs.passOver (h : m.Runs t v p) (hspawned : v.spawned = []) :
    ∃ b kept moved, b.core = v.core ∧ (∀ o ∈ kept, o.Forwards) ∧ passOver m.bench false [] m.tasks
      = (⟨(slice ⟨t, p⟩ b).bench, kept ++ sliceTasks t (slice ⟨t, p⟩ b)⟩,
        moved || (slice ⟨t, p⟩ b).moved) := by
  obtain ⟨others, htasks, hothers⟩ := h.tasks
  obtain ⟨hcore, hkept⟩ := (passOver_moves m.bench false [] others).forwards
    ((congrArg spawned h.bench :).trans hspawned) hothers
  refine ⟨_, _, (Machine.passOver m.bench false [] others).2, hcore.trans h.bench, hkept, ?_⟩
  rw [htasks, passOver_append, passOver_cons, Machine.passOver, reverse_sliceTasks, reverse_reverse]

lemma Follows.spawned (h : m.Follows t k w q) (hspawned : w.spawned = []) :
    m.bench.spawned = [] := by
  rcases h with ⟨j, v, p, -, hruns, hsteps⟩ | ⟨hcore, -⟩
  · exact (congrArg Bench.spawned hruns.bench :).trans (hsteps.keeps.1.symm.trans hspawned)
  · exact (congrArg Bench.spawned hcore :).trans hspawned

lemma Follows.pass (h : m.Follows t k w q) (hq : Halts w q) (hspawned : w.spawned = []) :
    m.pass.1.Follows t (k - 1) w q ∧ (m.pass.2 = false → m.pass.1.Follows t 0 w q) := by
  have hsame := h.spawned hspawned
  rcases h with ⟨j, v, p, hj, hruns, hsteps⟩ | ⟨hcore, htasks, hu⟩
  · obtain ⟨b, kept, moved, hb, hkept, hpass⟩ :=
      hruns.passOver (hsteps.keeps.1.symm.trans hspawned)
    rw [Machine.pass, hpass]
    dsimp only
    cases j with
    | zero =>
      have hfollows := hsteps.runTask hq hb stepLimit false hkept
      rw [slice, startTasks_of_none (hfollows.spawned hspawned)]
      exact ⟨hfollows.mono (Nat.zero_le _), fun _ => hfollows⟩
    | succ j =>
      obtain ⟨hfollows, hmoved⟩ := hsteps.runTask_succ hq hb (stepLimit - 1) false hkept
      rw [show slice ⟨t, p⟩ b = runTask t (stepLimit - 1 + 1) false b p from rfl,
        startTasks_of_none (hfollows.spawned hspawned), hmoved, Bool.or_true]
      exact ⟨hfollows.mono (Nat.le_sub_one_of_lt hj), fun h => by cases h⟩
  · obtain ⟨hcore', htasks'⟩ := (pass_moves m).forwards hsame htasks
    have hover : ∀ k, m.pass.1.Follows t k w q := fun _ => .inr ⟨hcore'.trans hcore, htasks', hu⟩
    exact ⟨hover _, fun _ => hover 0⟩

lemma Follows.settleWithin (h : m.Follows t k w q) (hq : Halts w q) (hspawned : w.spawned = [])
    (n : Nat) : (m.settleWithin n).Follows t (k - n) w q := by
  induction n generalizing m k with
  | zero => exact h
  | succ n ih =>
    obtain ⟨hnext, hlast⟩ := h.pass hq hspawned
    rw [settleWithin_succ, Nat.add_comm n 1, Nat.sub_add_eq]
    split
    · exact ih hnext
    · next hstill => exact (hlast (Bool.eq_false_iff.mpr hstill)).mono (Nat.zero_le _)

/-! ## The passing of time -/

lemma Runs.nextDeadline? {next : (Request.sleepUntil deadline heedPause).Reply → Process Unit}
    (h : m.Runs t v (.act (.sleepUntil deadline heedPause) next)) (hearly : v.now < deadline)
    {target} (htarget : deadline ≤ target) : m.nextDeadline? target = some deadline := by
  obtain ⟨others, htasks, hothers⟩ := h.tasks
  have hnow : m.bench.now = v.now := (congrArg now h.bench :)
  have hnone : others.filterMap (fun task => task.rest.request?.bind Request.deadline?) = [] := by
    rw [filterMap_eq_nil_iff]
    exact fun o ho => (hothers o ho).request_deadline
  have hdeadlines : m.deadlines = [deadline] := by
    rw [deadlines, htasks, filterMap_append, hnone]
    rfl
  rw [Machine.nextDeadline?, hdeadlines, hnow, filter_cons_of_pos (by simp [hearly, htarget])]
  rfl

end Machine

/-- **A task among forwarders follows its course.**  With enough passes at each
    moment, and as much time as it takes, it comes to its end. -/
lemma Comes.passTime (h : Comes t v p w) (hspawned : w.spawned = [])
    (hstate : w.state.isActive = false) :
    ∃ enough, ∀ passes, enough ≤ passes → ∀ m, m.Runs t v p →
      ∀ target, w.now ≤ target → ∀ leaps, w.now - v.now < leaps →
        (Machine.passTime passes Machine.isSettled target leaps m).bench.core = w.core := by
  induction h with
  | @ends n v w p u hsteps =>
    refine ⟨n, fun passes hpasses m hm target _ leaps hleaps => ?_⟩
    obtain ⟨leaps, rfl⟩ : ∃ l, leaps = l + 1 := ⟨leaps - 1, by omega⟩
    have hfollows := Machine.Follows.settleWithin (.inl ⟨n, v, p, le_rfl, hm, hsteps⟩)
      (.ended u) hspawned passes
    have hcore : (m.settleWithin passes).bench.core = w.core := by
      rcases hfollows.halted (Nat.sub_eq_zero_of_le hpasses) with hruns | ⟨hcore, -⟩
      · exact hruns.bench
      · exact hcore
    have hsettled : (m.settleWithin passes).isSettled := by
      have hsame : (m.settleWithin passes).bench.state = w.state := (congrArg state hcore :)
      rw [Machine.isSettled, hsame, hstate]
      rfl
    rwa [Machine.passTime, if_pos hsettled]
  | @sleeps n v u w p deadline heedPause next hsteps hasleep hcomes ih =>
    obtain ⟨enough, hrest⟩ := ih hspawned hstate
    have hlater : deadline ≤ w.now := hcomes.now_le
    have hearly := hasleep.early
    have hnow := hsteps.keeps.2
    have hspawned' : u.spawned = [] := hcomes.spawned_eq.symm.trans hspawned
    refine ⟨max n enough, fun passes hpasses m hm target htarget leaps hleaps => ?_⟩
    obtain ⟨leaps, rfl⟩ : ∃ l, leaps = l + 1 := ⟨leaps - 1, by omega⟩
    have hfollows := Machine.Follows.settleWithin (.inl ⟨n, v, p, le_rfl, hm, hsteps⟩)
      (.asleep hasleep) hspawned' passes
    -- The tasks settle with the task asleep, and the clock moves to the
    -- moment that it waits for; no forwarder waits for one.
    rcases hfollows.halted (by omega) with hruns | ⟨-, x, hx⟩
    · have hgoing : ¬ (m.settleWithin passes).isSettled := by
        have hsame : (m.settleWithin passes).bench.state = u.state :=
          (congrArg state hruns.bench :)
        rw [Machine.isSettled, hsame, hasleep.active]
        exact Bool.false_ne_true
      have hclock : ((m.settleWithin passes).setClock deadline).Runs t { u with now := deadline }
          (.act (.sleepUntil deadline heedPause) next) :=
        ⟨congrArg (fun b : Bench => { b with now := deadline }) hruns.bench, hruns.tasks⟩
      rw [Machine.passTime, if_neg hgoing, hruns.nextDeadline? hearly (by omega)]
      exact hrest passes (by omega) _ hclock target htarget leaps (by dsimp only; omega)
    · cases hx

end CanScript
