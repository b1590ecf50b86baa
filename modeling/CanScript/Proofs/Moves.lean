import CanScript.Proofs.Change
import CanScript.Proofs.Outcome

/-! # Moves

    The smallest thing that a task does is a move: it makes one request, or goes into the next round
    of a loop, or ends.  Which task moves next is left open here, so that what holds of every order
    of moves holds under every scheduler.  Between moves time passes, activations become tasks, and
    the host acts. -/

namespace CanScript

open List Machine Bench

/-! ## One move -/

variable {b : Bench} {t : TaskId} {s : Session}

namespace Process

variable {α β : Type}

/-- Whether a process has nothing more to do. -/
def isDone : Process α → Bool
  | pure _ => true
  | _ => false

/-- What a process of a task has left to do after a move on a bench. -/
def step (b : Bench) (t : TaskId) : Process α → Process α
  | pure a => pure a
  | act op next =>
    match (b.perform t op).answer? with
    | some (_, reply) => next reply
    | none => act op next
  | iter body s next => unfold body s next

lemma isDone_bind {p : Process α} (h : p.isDone = false) (f : α → Process β) :
    (p.bind f).isDone = false := by
  cases p with
  | pure a => cases h
  | act op next => rfl
  | iter body s next => rfl

lemma eq_pure_of_isDone {p : Process α} (h : p.isDone) : ∃ a, p = .pure a := by
  cases p with
  | pure a => exact ⟨a, rfl⟩
  | act op next => cases h
  | iter body s next => cases h

lemma step_of_answer {op : Request} {next : op.Reply → Process α} {b' reply}
    (h : (b.perform t op).answer? = some (b', reply)) : (act op next).step b t = next reply := by
  rw [step, h]

lemma step_of_wait {op : Request} {next : op.Reply → Process α}
    (h : (b.perform t op).answer? = none) : (act op next).step b t = act op next := by
  rw [step, h]

lemma step_bind {p : Process α} (h : p.isDone = false) (f : α → Process β) (b : Bench)
    (t : TaskId) : (p.bind f).step b t = (p.step b t).bind f := by
  cases p with
  | pure a => cases h
  | act op next =>
    rw [act_bind]
    cases hanswer : (b.perform t op).answer? with
    | none => rw [step_of_wait hanswer, step_of_wait hanswer, act_bind]
    | some answer => rw [step_of_answer hanswer, step_of_answer hanswer]
  | iter body s next =>
    show unfold body s (fun b => (next b).bind f) = (unfold body s next).bind f
    rw [unfold_bind]

end Process

namespace Bench

variable {α β : Type}

/-- The bench after a move of a task. -/
def after (b : Bench) (t : TaskId) : Process α → Bench
  | .act op _ => (b.perform t op).bench
  | _ => b

lemma after_bind {p : Process α} (h : p.isDone = false) (f : α → Process β) (b : Bench)
    (t : TaskId) : b.after t (p.bind f) = b.after t p := by
  cases p with
  | pure a => cases h
  | act op next => rfl
  | iter body s next => rfl

lemma after_change (b : Bench) (t : TaskId) (p : Process α) :
    ∃ op, Change t b op (b.after t p) := by
  cases p with
  | pure a | iter body s next => exact ⟨.standing, .nothing rfl⟩
  | act op next => exact ⟨op, b.perform_change t op⟩

end Bench

def Task.moved (task : Task) (b : Bench) : List Task :=
  if task.rest.isDone then [] else [⟨task.id, task.rest.step b task.id⟩]

lemma Machine.settleWithin_succ (m : Machine) (n : Nat) :
    m.settleWithin (n + 1) = if m.pass.2 then m.pass.1.settleWithin n else m.pass.1 := by
  rw [settleWithin]
  split
  · next hpass => rw [hpass, if_pos rfl]
  · next hpass => rw [hpass, if_neg (by simp)]

/-! ## What happens to a session -/

namespace Session

/-- Tells the tasks of the run to end; a run that was going on is stopped. -/
def callOff (s : Session) : Session :=
  if s.bench.run.isSome then
    let called := s.update Bench.cancel
    if called.bench.state.isActive then
      called.update fun b => b.setState s.bench.runId? .stopped
    else called
  else s

def clear (s : Session) : Session :=
  let b := leavePorts s.bench
  ⟨{ b with turn := none, claims := [], spawned := [], run := none }, []⟩

lemma drain_eq (s : Session) : s.drain = clear s.settle := rfl

/-- What does not depend on readers is kept when a run gives up its readers of ports. -/
lemma leavePorts_keeps {P : Bus → Prop} (hP : ∀ {bus}, P bus → ∀ port r, P (bus.unsubscribe port r))
    {b : Bench} (h : P b.bus) : P (leavePorts b).bus :=
  List.foldlRecOn (motive := P) _ _ h fun _ hbus p _ => hP hbus p.1 p.2

lemma stop_eq (s : Session) : s.stop =
    ((if s.bench.run.isSome then clear s.callOff.settle else s).update fun b =>
      b.setState s.bench.runId? .idle) := by
  rw [stop, callOff]
  dsimp only
  by_cases hrun : s.bench.run.isSome
  · rw [if_pos hrun, if_pos hrun, if_pos hrun, drain_eq]
  · rw [if_neg hrun, if_neg hrun]

/-- Time passes, or the host acts, or what is random falls out in another way. -/
inductive External : Session → Session → Prop where
  | clock (s : Session) {now} : s.bench.now ≤ now → External s (s.setClock now)
  | pause (s : Session) : External s s.pause.1
  | resume (s : Session) : External s s.resume.1
  | callOff (s : Session) : External s s.callOff
  | inject (s : Session) (f : Frame) : External s (s.inject f).1
  | setFailing (s : Session) (port : String) (on : Bool) : External s (s.setFailing port on)
  | setLoopback (s : Session) (on : Bool) : External s (s.setLoopback on)
  | persist (s : Session) : External s s.persist
  | observe (s : Session) : External s s.observe.1
  | newEvents (s : Session) (r : ReaderId) : External s (s.newEvents r).1
  | chance (s : Session) (seed : Nat) : External s (s.update fun b => { b with seed })

/-- Something happens to a session between the start of a run and the clearing away of its tasks.
    The label names the task that moves, if one does. -/
inductive Step : Option TaskId → Session → Session → Prop where
  | move {b : Bench} (before : List Task) (task : Task) (behind : List Task) :
      Step (some task.id) ⟨b, before ++ task :: behind⟩
        ⟨b.after task.id task.rest, before ++ task.moved b ++ behind⟩
  | spawn (s : Session) : Step none s s.startTasks
  | external {s s'} : External s s' → Step none s s'

/-- One thing after another happens to a session. -/
inductive Steps (s : Session) : Session → Prop where
  | refl : Steps s s
  | tail {who s' s''} : Steps s s' → Step who s' s'' → Steps s s''

variable {s' s'' : Session} {who : Option TaskId}

lemma Steps.trans (h : Steps s s') (h' : Steps s' s'') : Steps s s'' := by
  induction h' with
  | refl => exact h
  | tail _ hstep ih => exact ih.tail hstep

lemma Steps.single (h : Step who s s') : Steps s s' :=
  .tail .refl h

lemma Steps.keeps {P : Session → Prop} (hstep : ∀ who s s', Step who s s' → P s → P s')
    (h : Steps s s') (hs : P s) : P s' := by
  induction h with
  | refl => exact hs
  | tail _ hnext ih => exact hstep _ _ _ hnext ih

/-! ## Schedules -/

/-- Tasks make moves and begin, and nothing happens from outside. -/
inductive Moves (s : Session) : Session → Prop where
  | refl : Moves s s
  | move {b : Bench} (before : List Task) (task : Task) (behind : List Task) :
      Moves s ⟨b, before ++ task :: behind⟩ →
      Moves s ⟨b.after task.id task.rest, before ++ task.moved b ++ behind⟩
  | spawn {s' : Session} : Moves s s' → Moves s s'.startTasks

lemma Moves.trans (h : Moves s s') (h' : Moves s' s'') : Moves s s'' := by
  induction h' with
  | refl => exact h
  | move before task behind _ ih => exact ih.move before task behind
  | spawn _ ih => exact ih.spawn

lemma Moves.steps (h : Moves s s') : Steps s s' := by
  induction h with
  | refl => exact .refl
  | move before task behind _ ih => exact ih.tail (.move before task behind)
  | spawn _ ih => exact ih.tail (.spawn _)

def sliceTasks (t : TaskId) (slice : Slice) : List Task :=
  match slice.rest with
  | some p => [⟨t, p⟩]
  | none => []

/-- One task makes moves, and nothing else happens. -/
inductive Solo (t : TaskId) (s : Session) : Session → Prop where
  | refl : Solo t s s
  | move {b : Bench} (before : List Task) (task : Task) (behind : List Task) : task.id = t →
      Solo t s ⟨b, before ++ task :: behind⟩ →
      Solo t s ⟨b.after task.id task.rest, before ++ task.moved b ++ behind⟩

lemma Solo.trans (h : Solo t s s') (h' : Solo t s' s'') : Solo t s s'' := by
  induction h' with
  | refl => exact h
  | move before task behind hid _ ih => exact ih.move before task behind hid

lemma Solo.moves (h : Solo t s s') : Moves s s' := by
  induction h with
  | refl => exact .refl
  | move before task behind _ _ ih => exact ih.move before task behind

lemma runTask_answered {op b' reply}
    (h : (b.perform t op).answer? = some (b', reply)) (n : Nat) (moved : Bool)
    (next : op.Reply → Process Unit) :
    ∃ k, k ≤ n ∧ runTask t (n + 1) moved b (.act op next) = runTask t k true b' (next reply) := by
  rw [runTask]
  cases houtcome : b.perform t op with
    (rw [houtcome] at h
     cases h)
  | done b1 reply1 => exact ⟨n, Nat.le_refl n, rfl⟩
  | yielded b1 reply1 => exact ⟨0, Nat.zero_le n, rfl⟩

lemma runTask_waits {op} (h : (b.perform t op).answer? = none) (n : Nat) (moved : Bool)
    (next : op.Reply → Process Unit) : runTask t (n + 1) moved b (.act op next)
      = ⟨(b.perform t op).bench, some (.act op next), moved⟩ := by
  rw [runTask]
  cases houtcome : b.perform t op with
  | done b' reply | yielded b' reply =>
    rw [houtcome] at h
    cases h
  | wait b' => rfl

/-- A task that goes on for a while makes moves, and no other task does. -/
lemma runTask_solo (t n moved b p before behind) :
    Solo t ⟨b, before ++ ⟨t, p⟩ :: behind⟩ ⟨(runTask t n moved b p).bench,
        before ++ sliceTasks t (runTask t n moved b p) ++ behind⟩ := by
  induction n using Nat.strongRecOn generalizing moved b p with
  | ind n ih =>
  cases n with
  | zero =>
    show Solo t _ ⟨b, before ++ [⟨t, p⟩] ++ behind⟩
    rw [append_assoc]
    exact .refl
  | succ n =>
    have hmove : Solo t ⟨b, before ++ ⟨t, p⟩ :: behind⟩
        ⟨b.after t p, before ++ Task.moved ⟨t, p⟩ b ++ behind⟩ :=
      .move before ⟨t, p⟩ behind rfl .refl
    cases p with
    | pure a => exact hmove
    | iter body s next =>
      rw [append_assoc] at hmove
      exact hmove.trans (ih n (Nat.lt_succ_self n) true b _)
    | act op next =>
      rw [show Task.moved ⟨t, .act op next⟩ b = [⟨t, (Process.act op next).step b t⟩] from rfl,
        Bench.after] at hmove
      cases hanswer : (b.perform t op).answer? with
      | none =>
        rw [Process.step_of_wait hanswer] at hmove
        rw [runTask_waits hanswer]
        exact hmove
      | some answer =>
        obtain ⟨k, hk, hnext⟩ := runTask_answered hanswer n moved next
        rw [Process.step_of_answer hanswer, Outcome.bench_of_answer hanswer, append_assoc] at hmove
        rw [hnext]
        exact hmove.trans (ih k (Nat.lt_succ_of_le hk) true answer.1 (next answer.2))

lemma runTask_moves (t n moved b p before behind) :
    Moves ⟨b, before ++ ⟨t, p⟩ :: behind⟩ ⟨(runTask t n moved b p).bench,
        before ++ sliceTasks t (runTask t n moved b p) ++ behind⟩ :=
  (runTask_solo t n moved b p before behind).moves

def slice (task : Task) (b : Bench) : Slice :=
  runTask task.id stepLimit false b task.rest

lemma passOver_cons (b moved kept task tasks) : passOver b moved kept (task :: tasks)
      = passOver (slice task b).bench (moved || (slice task b).moved)
        (sliceTasks task.id (slice task b) ++ kept) tasks := by
  rw [passOver, sliceTasks, slice]
  cases (runTask task.id stepLimit false b task.rest).rest <;> rfl

lemma passOver_append (b moved kept tasks rest) : passOver b moved kept (tasks ++ rest)
      = passOver (passOver b moved kept tasks).1.bench
        (passOver b moved kept tasks).2
        (passOver b moved kept tasks).1.tasks.reverse rest := by
  induction tasks generalizing b moved kept with
  | nil =>
    show _ = passOver b moved kept.reverse.reverse rest
    rw [reverse_reverse]
    rfl
  | cons task tasks ih => exact ih _ _ _

lemma reverse_sliceTasks (t slice kept) :
    (sliceTasks t slice ++ kept).reverse = kept.reverse ++ sliceTasks t slice := by
  rw [sliceTasks]
  cases slice.rest with
  | none => exact (append_nil _).symm
  | some p => exact reverse_cons

lemma passOver_moves (b moved kept tasks) :
    Moves ⟨b, kept.reverse ++ tasks⟩ (passOver b moved kept tasks).1 := by
  induction tasks generalizing b moved kept with
  | nil =>
    rw [append_nil]
    exact .refl
  | cons task tasks ih =>
    rw [passOver_cons]
    refine (runTask_moves task.id stepLimit false b task.rest kept.reverse tasks).trans ?_
    rw [← reverse_sliceTasks]
    exact ih _ _ _

lemma pass_moves (s) : Moves s s.pass.1 :=
  (passOver_moves s.bench false [] s.tasks).spawn

lemma settleWithin_moves (n : Nat) (s : Session) : Moves s (s.settleWithin n) := by
  induction n generalizing s with
  | zero => exact .refl
  | succ n ih =>
    rw [settleWithin_succ]
    split
    · exact (pass_moves s).trans (ih _)
    · exact pass_moves s

lemma settleWithin_steps (n s) : Steps s (s.settleWithin n) :=
  (settleWithin_moves n s).steps

lemma now_lt_nextDeadline {target d} (h : s.nextDeadline? target = some d) : s.bench.now < d := by
  have hmem := min?_mem h
  exact (of_decide_eq_true (mem_filter.mp hmem).2).1

lemma passTime_steps (passes) (until? : Machine → Bool) (target n s) :
    Steps s (passTime passes until? target n s) := by
  induction n generalizing s with
  | zero => exact .refl
  | succ n ih =>
    have hsettle := settleWithin_steps passes s
    rw [passTime]
    split
    · exact hsettle
    · cases hnext : (s.settleWithin passes).nextDeadline? target with
      | none => exact hsettle.tail (.external (.clock _ (Nat.le_max_left _ _)))
      | some d =>
        have hlater := Nat.le_of_lt (now_lt_nextDeadline hnext)
        exact (hsettle.tail (.external (.clock _ hlater))).trans (ih _)

lemma advance_steps (s millis) : Steps s (s.advance millis) :=
  passTime_steps _ _ _ _ s

/-! ## What comes from outside -/

lemma setState_eq (b : Bench) (run : Option RunId) (state : ExecutionState) :
    ∃ events, b.setState run state = { b with state, log := { b.log with events } } := by
  rw [setState]
  split
  · next hsame =>
      subst hsame
      exact ⟨b.log.events, rfl⟩
  · exact ⟨_, rfl⟩

lemma drain_history (c : Channel Event) (r : ReaderId) : (c.drain r).2.history = c.history := by
  rw [Channel.drain]
  split <;> rfl

lemma callOff_eq (s : Session) :
    s.callOff = if s.bench.run.isSome then s.update finish else s := by
  rw [callOff]
  split
  · simp only [update, finish, cancel_runId?]
    exact (apply_ite (Machine.mk · s.tasks) _ _ _).symm
  · rfl

/-- What time, the host and chance make of a bench. -/
inductive Influence (b : Bench) : Bench → Prop where
  | nothing : Influence b b
  | clock {now} : b.now ≤ now → Influence b { b with now }
  | frame (f : Frame) : Influence b { b with bus := b.bus.deliver f }
  | wiring (failing : List String) (loopback : Bool) :
      Influence b { b with bus := { b.bus with failing, loopback } }
  | log (persists : Bool) {events : Channel Event} : events.history = b.log.events.history →
      Influence b { b with log := { b.log with persists, events } }
  | state {state : ExecutionState} : b.state.isActive = true → state.isActive = true →
      b.state ≠ state → Influence b { b with state, log := b.log.recordState b.runId? state }
  | chance (seed : Nat) : Influence b { b with seed }
  | callOff : Influence b { b.cancel with
      state := if b.state.isActive then .stopped else b.state, log := b.finish.log }

lemma Influence.setState {state : ExecutionState} (hactive : b.state.isActive)
    (hstate : state.isActive) : Influence b (b.setState b.runId? state) := by
  rw [Bench.setState]
  split
  · exact .nothing
  · next hne => exact .state hactive hstate hne

lemma External.influence (h : External s s') : ∃ b, s' = ⟨b, s.tasks⟩ ∧ Influence s.bench b := by
  cases h with
  | clock hle => exact ⟨_, rfl, .clock hle⟩
  | pause =>
    rw [Session.pause]
    split
    · next hrunning => exact ⟨_, rfl, .setState (by rw [hrunning]; rfl) rfl⟩
    · exact ⟨_, rfl, .nothing⟩
  | resume =>
    rw [Session.resume]
    split
    · next hpaused => exact ⟨_, rfl, .setState (by rw [hpaused]; rfl) rfl⟩
    · exact ⟨_, rfl, .nothing⟩
  | callOff =>
    rw [callOff_eq]
    split
    · rw [update, finish_eq]
      exact ⟨_, rfl, .callOff⟩
    · exact ⟨_, rfl, .nothing⟩
  | inject f => exact ⟨_, rfl, .frame _⟩
  | setFailing port on => exact ⟨_, rfl, .wiring _ _⟩
  | setLoopback on => exact ⟨_, rfl, .wiring _ _⟩
  | persist => exact ⟨_, rfl, .log true rfl⟩
  | observe => exact ⟨_, rfl, .log _ rfl⟩
  | newEvents r => exact ⟨_, rfl, .log _ (drain_history _ r)⟩
  | chance seed => exact ⟨_, rfl, .chance seed⟩

/-- Tasks, variables, the turn and the claims on ports are as they were, and so is the setting of
    the run, which is not taken up again if it was told to end. -/
structure Apart (s s' : Session) : Prop where
  tasks : s'.tasks = s.tasks
  globals : s'.bench.globals = s.bench.globals
  turn : s'.bench.turn = s.bench.turn
  claims : s'.bench.claims = s.bench.claims
  spawned : s'.bench.spawned = s.bench.spawned
  nextTask : s'.bench.nextTask = s.bench.nextTask
  setting : s'.bench.setting? = s.bench.setting?
  cancelled : s.bench.isCancelled = true → s'.bench.isCancelled = true

lemma External.apart (h : External s s') : Apart s s' := by
  obtain ⟨b, rfl, hb⟩ := h.influence
  cases hb with
  | callOff =>
    exact ⟨rfl, rfl, rfl, rfl, rfl, rfl, s.bench.cancel_setting?,
      fun _ => s.bench.cancel_isCancelled⟩
  | _ => exact ⟨rfl, rfl, rfl, rfl, rfl, rfl, rfl, id⟩

/-! ## Tasks that are added -/

lemma addTasks_ids (s : Session) (processes : List (Process Unit)) :
    (s.addTasks processes).tasks.map Task.id
      = s.tasks.map Task.id ++ List.range' s.bench.nextTask processes.length := by
  rw [addTasks]
  dsimp only
  rw [map_append, map_map]
  congr 1
  calc processes.zipIdx.map (Task.id ∘ fun p => ⟨s.bench.nextTask + p.2, p.1⟩)
      = (processes.zipIdx.map Prod.snd).map fun i => s.bench.nextTask + i := by
        rw [map_map]
        rfl
    _ = List.range' s.bench.nextTask processes.length := by
        rw [zipIdx_map_snd, map_add_range', Nat.add_zero]

lemma addTasks_nextTask (s : Session) (processes : List (Process Unit)) :
    (s.addTasks processes).bench.nextTask = s.bench.nextTask + processes.length := by
  show s.bench.nextTask + (processes.zipIdx.map _).length = _
  rw [length_map, length_zipIdx]

lemma mem_addTasks {processes task} (h : task ∈ (s.addTasks processes).tasks) :
    task ∈ s.tasks ∨ s.bench.nextTask ≤ task.id ∧ task.rest ∈ processes := by
  rcases mem_append.mp h with hold | hnew
  · exact .inl hold
  · obtain ⟨p, hp, rfl⟩ := mem_map.mp hnew
    exact .inr ⟨Nat.le_add_right _ _, fst_mem_of_mem_zipIdx hp⟩

def activations (b : Bench) : List (Process Unit) :=
  (b.setting?.map fun setting => b.spawned.map (activationTask setting)).getD []

lemma startTasks_addTasks (s : Session) : s.startTasks
    = addTasks ⟨{ s.bench with spawned := [] }, s.tasks⟩ (activations s.bench) := by
  rw [startTasks, activations, setting?]
  cases s.bench.run with
  | none =>
    show _ = Machine.mk _ (s.tasks ++ [])
    rw [append_nil]
    rfl
  | some run =>
    rw [addTasks]
    dsimp only [Option.map, Option.getD]
    rw [zipIdx_map, map_map]
    rfl

lemma startTasks_eq (s : Session) : ∃ processes : List (Process Unit),
    s.startTasks = addTasks ⟨{ s.bench with spawned := [] }, s.tasks⟩ processes ∧
    ∀ p ∈ processes, ∃ run a, s.bench.run = some run ∧ a ∈ s.bench.spawned ∧
      p = activationTask run.setting a := by
  refine ⟨_, startTasks_addTasks s, fun p hp => ?_⟩
  rw [activations, setting?] at hp
  cases hrun : s.bench.run with
  | none =>
    rw [hrun] at hp
    cases hp
  | some run =>
    rw [hrun] at hp
    obtain ⟨a, ha, rfl⟩ := mem_map.mp hp
    exact ⟨run, a, rfl, ha, rfl⟩

lemma startTasks_of_none (h : s.bench.spawned = []) : s.startTasks = s := by
  have hnone : activations s.bench = [] := by
    rw [activations, h]
    cases s.bench.setting? <;> rfl
  rw [startTasks_addTasks, hnone, ← h]
  exact congrArg (Machine.mk s.bench) (append_nil s.tasks)

lemma settleWithin_of_bare (htasks : s.tasks = []) (hspawned : s.bench.spawned = []) (n : Nat) :
    s.settleWithin n = s := by
  have hpass : s.pass = (s, false) := by
    rw [Machine.pass, htasks]
    show (startTasks ⟨s.bench, []⟩, false) = _
    rw [← htasks, startTasks_of_none hspawned]
  cases n with
  | zero => rfl
  | succ n =>
    rw [settleWithin_succ, hpass]
    rfl

lemma Moves.keeps {P : Bench → Prop} (hchange : ∀ t b op b', Bench.Change t b op b' → P b → P b')
    (hspawn : ∀ (b : Bench) nextTask, P b → P { b with spawned := [], nextTask })
    {s s' : Session} (h : Moves s s') (hs : P s.bench) : P s'.bench := by
  induction h with
  | refl => exact hs
  | @move b before task behind _ ih =>
    obtain ⟨op, h⟩ := b.after_change task.id task.rest
    exact hchange _ _ _ _ h ih
  | @spawn s' _ ih =>
    rw [startTasks_addTasks]
    exact hspawn s'.bench _ ih

lemma Step.keeps {P : Bench → Prop} (h : Step who s s')
    (hchange : ∀ t op b, Bench.Change t s.bench op b → P b)
    (hspawn : ∀ nextTask, P { s.bench with spawned := [], nextTask })
    (hinfluence : ∀ b, Influence s.bench b → P b) : P s'.bench := by
  cases h with
  | @move b before task behind =>
    obtain ⟨op, h⟩ := b.after_change task.id task.rest
    exact hchange _ _ _ h
  | spawn =>
    rw [startTasks_addTasks]
    exact hspawn _
  | external h =>
    obtain ⟨b, rfl, hb⟩ := h.influence
    exact hinfluence b hb

lemma Step.setting? (h : Step who s s') : s'.bench.setting? = s.bench.setting? := by
  refine h.keeps (P := fun b => b.setting? = s.bench.setting?)
    (fun _ _ _ hchange => hchange.setting?) (fun _ => rfl) fun b hb => ?_
  cases hb with
  | callOff => exact s.bench.cancel_setting?
  | _ => rfl

lemma Step.isCancelled (h : Step who s s') (hcancelled : s.bench.isCancelled = true) :
    s'.bench.isCancelled = true := by
  refine h.keeps (P := fun b => b.isCancelled = true)
    (fun _ _ _ hchange => hchange.isCancelled hcancelled) (fun _ => hcancelled) fun b hb => ?_
  cases hb with
  | callOff => exact s.bench.cancel_isCancelled
  | _ => exact hcancelled

/-- The tasks have different numbers, all of which were given out. -/
structure Orderly (s : Session) : Prop where
  distinct : (s.tasks.map Task.id).Nodup
  below : ∀ t ∈ s.tasks.map Task.id, t < s.bench.nextTask

lemma Orderly.addTasks (hs : Orderly s) (processes : List (Process Unit)) :
    Orderly (s.addTasks processes) := by
  constructor
  · rw [addTasks_ids]
    refine nodup_append.mpr ⟨hs.distinct, nodup_range' 1, ?_⟩
    intro t ht u hu heq
    subst heq
    exact absurd (hs.below t ht) (Nat.not_lt.mpr (mem_range'_1.mp hu).1)
  · intro t ht
    rw [addTasks_ids] at ht
    rw [addTasks_nextTask]
    rcases mem_append.mp ht with hold | hnew
    · exact Nat.lt_add_right _ (hs.below t hold)
    · exact (mem_range'_1.mp hnew).2

lemma moved_ids (b : Bench) (before : List Task) (task : Task) (behind : List Task) :
    ((before ++ task.moved b ++ behind).map Task.id).Sublist
      ((before ++ task :: behind).map Task.id) := by
  rw [append_assoc, map_append, map_append, map_append]
  refine List.Sublist.append_left ?_ _
  rw [Task.moved]
  split
  · exact sublist_cons_self _ _
  · exact List.Sublist.refl _

lemma Orderly.step {who s s'} (hs : Orderly s) (h : Step who s s') : Orderly s' := by
  cases h with
  | @move b before task behind =>
    obtain ⟨op, hchange⟩ := b.after_change task.id task.rest
    have hids := moved_ids b before task behind
    refine ⟨hids.nodup hs.distinct, fun t ht => ?_⟩
    show t < (b.after task.id task.rest).nextTask
    rw [hchange.nextTask]
    exact hs.below t (hids.subset ht)
  | spawn =>
    obtain ⟨processes, heq, -⟩ := startTasks_eq s
    have hcleared : Orderly ⟨{ s.bench with spawned := [] }, s.tasks⟩ := ⟨hs.distinct, hs.below⟩
    rw [heq]
    exact hcleared.addTasks processes
  | external h =>
    have hapart := h.apart
    exact ⟨hapart.tasks ▸ hs.distinct, hapart.tasks ▸ hapart.nextTask ▸ hs.below⟩

end Session

/-! ## Runs that are called off -/

namespace Session

lemma callOff_cancelled (s : Session) : s.callOff.bench.isCancelled := by
  rw [callOff_eq]
  by_cases hrun : s.bench.run.isSome
  · rw [if_pos hrun, update, finish_eq]
    exact s.bench.cancel_isCancelled
  · rw [if_neg hrun, isCancelled, Option.not_isSome_iff_eq_none.mp hrun]
    rfl

end Session

end CanScript
