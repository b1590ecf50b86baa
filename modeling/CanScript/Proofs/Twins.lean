import CanScript.Proofs.Lifecycle

/-! # Sessions that differ in numbers only

    The number of a run, the numbers of its tasks and what was announced before it make no
    difference to what it does.  Two sessions are twins if they agree in everything else, the tasks
    of the one having the numbers of the tasks of the other, moved by a constant. -/

namespace CanScript

open List Machine

/-! ## Logs -/

/-- Two logs hold the same, whatever else was announced or recorded for a file. -/
structure Log.Twin (l l' : Log) : Prop where
  maxErrors : l.maxErrors = l'.maxErrors
  maxOutput : l.maxOutput = l'.maxOutput
  errors : l.errors = l'.errors
  dropped : l.dropped = l'.dropped
  output : l.output = l'.output

namespace Log.Twin

variable {l l' : Log} (h : l.Twin l')

include h

lemma eq : l = { l' with events := l.events, persists := l.persists, records := l.records } := by
  obtain ⟨hmaxErrors, hmaxOutput, herrors, hdropped, houtput⟩ := h
  cases l
  cases hmaxErrors
  cases hmaxOutput
  cases herrors
  cases hdropped
  cases houtput
  rfl

lemma besides (events events' persists persists' records records') :
    Twin { l with events, persists, records }
      { l' with events := events', persists := persists', records := records' } :=
  ⟨h.maxErrors, h.maxOutput, h.errors, h.dropped, h.output⟩

lemma announce (e e') : (l.announce e).Twin (l'.announce e') :=
  h.besides _ _ _ _ _ _

lemma keepError (d) : (l.keepError d).Twin (l'.keepError d) := by
  rw [h.eq, Log.keepError, Log.keepError]
  split <;> exact ⟨rfl, rfl, rfl, rfl, rfl⟩

lemma fileError (run run' d) : (l.fileError run d).Twin (l'.fileError run' d) := by
  have hfiled : ∀ (k : Log) run, (k.fileError run d).Twin k := by
    intro k run
    rw [Log.fileError]
    split <;> exact ⟨rfl, rfl, rfl, rfl, rfl⟩
  rw [(hfiled l run).eq, (hfiled l' run').eq, h.eq]
  exact ⟨rfl, rfl, rfl, rfl, rfl⟩

lemma recordError (run run' d) : (l.recordError run d).Twin (l'.recordError run' d) :=
  ((h.keepError d).fileError run run' d).announce _ _

lemma recordErrors (run run' ds) : (l.recordErrors run ds).Twin (l'.recordErrors run' ds) := by
  induction ds generalizing l l' with
  | nil => exact h
  | cons d ds ih => exact ih (h.recordError run run' d)

lemma recordOutput (run run' : Option RunId) (text : String) :
    (l.recordOutput run text).Twin (l'.recordOutput run' text) := by
  rw [h.eq]
  exact ⟨rfl, rfl, rfl, rfl, rfl⟩

lemma reset : l.reset.Twin l'.reset :=
  ⟨h.maxErrors, h.maxOutput, rfl, rfl, rfl⟩

lemma errorCount : l.errorCount = l'.errorCount := by
  rw [Log.errorCount, Log.errorCount, h.errors, h.dropped]

end Log.Twin

/-! ## Benches -/

/-- Two runs differ in their numbers at most, or there is none. -/
inductive Run.Twins : Option Run → Option Run → Prop where
  | none : Twins none none
  | some (id id' : RunId) (setting : Setting) (startedAt : Nat)
      (readers : List (String × ReaderId)) (cancelled : Bool) :
      Twins (some ⟨id, setting, startedAt, readers, cancelled⟩)
        (some ⟨id', setting, startedAt, readers, cancelled⟩)

lemma Run.Twins.map_eq {α : Type} {run run'} (h : Twins run run') (f : Run → α)
    (hf : ∀ id id' setting startedAt readers cancelled,
      f ⟨id, setting, startedAt, readers, cancelled⟩
        = f ⟨id', setting, startedAt, readers, cancelled⟩) : run.map f = run'.map f := by
  cases h with
  | none => rfl
  | some id id' setting startedAt readers cancelled => exact congrArg Option.some (hf _ _ _ _ _ _)

/-- Two benches agree in what outlives a run, apart from the numbers of tasks. -/
structure Bench.Kin (δ : Nat) (b b' : Bench) : Prop where
  limits : b.limits = b'.limits
  bus : b.bus = b'.bus
  log : b.log.Twin b'.log
  writeTime : b.writeTime = b'.writeTime
  now : b.now = b'.now
  turn : b.turn = b'.turn.map (· + δ)
  claims : b.claims = b'.claims.map fun p => (p.1, p.2.map (· + δ))
  spawned : b.spawned = b'.spawned
  nextTask : b.nextTask = b'.nextTask + δ
  seed : b.seed = b'.seed

/-- Two benches agree in everything, apart from the numbers of tasks and runs and from what was
    announced. -/
structure Bench.Twin (δ : Nat) (b b' : Bench) : Prop extends Bench.Kin δ b b' where
  state : b.state = b'.state
  run : Run.Twins b.run b'.run
  globals : b.globals = b'.globals
  hub : b.hub = b'.hub

/-- Outcomes on twins with the same reply. -/
inductive Outcome.Twin (δ : Nat) {op} : Outcome op → Outcome op → Prop where
  | done {b b' : Bench} (reply : op.Reply) : b.Twin δ b' → Twin δ (.done b reply) (.done b' reply)
  | yielded {b b' : Bench} (reply : op.Reply) : b.Twin δ b' →
      Twin δ (.yielded b reply) (.yielded b' reply)
  | wait {b b' : Bench} : b.Twin δ b' → Twin δ (.wait b) (.wait b')

lemma Outcome.Twin.read {δ} {op : Request} {b b'} {reply reply' : op.Reply} (h : b.Twin δ b')
    (heq : reply = reply') : Twin δ (.done b reply) (.done b' reply') :=
  heq ▸ .done reply h

namespace Bench.Twin

variable {δ : Nat} {b b' : Bench}

section

variable (h : Twin δ b b')

include h

variable (port : String) (t : TaskId)

lemma isCancelled : b.isCancelled = b'.isCancelled := by
  have hrun := h.run
  rw [Bench.isCancelled, Bench.isCancelled]
  generalize b.run = run at hrun
  generalize b'.run = run' at hrun
  cases hrun with
  | none => rfl
  | some => rfl

lemma setting? : b.setting? = b'.setting? :=
  h.run.map_eq _ fun _ _ _ _ _ _ => rfl

lemma startedAt : b.run.map (·.startedAt) = b'.run.map (·.startedAt) :=
  h.run.map_eq _ fun _ _ _ _ _ _ => rfl

lemma readers : b.run.map (·.readers) = b'.run.map (·.readers) :=
  h.run.map_eq _ fun _ _ _ _ _ _ => rfl

lemma isPaused : b.isPaused = b'.isPaused :=
  congrArg (· == .paused) h.state

lemma standing : b.standing = b'.standing := by
  rw [Bench.standing, Bench.standing, h.isCancelled, h.isPaused]

lemma turn_iff : b.turn = some (t + δ) ↔ b'.turn = some t := by
  rw [h.turn]
  cases b'.turn with
  | none => simp
  | some u => simp

lemma turn_isNone : b.turn.isNone = b'.turn.isNone := by
  rw [h.turn]
  cases b'.turn with
  | none => rfl
  | some u => rfl

lemma claimsOn : b.claimsOn port = (b'.claimsOn port).map (· + δ) := by
  rw [Bench.claimsOn, Bench.claimsOn, h.claims]
  induction b'.claims with
  | nil => rfl
  | cons p claims ih =>
    rw [map_cons, lookup_cons, lookup_cons]
    cases port == p.1 with
    | true => rfl
    | false => exact ih

lemma setClaims (tasks) :
    Twin δ (b.setClaims port (tasks.map (· + δ))) (b'.setClaims port tasks) := by
  refine { h with claims := ?_ }
  show _ :: List.filter _ b.claims = List.map _ (_ :: List.filter _ b'.claims)
  rw [h.claims, map_cons, filter_map]
  rfl

lemma addClaim : Twin δ (b.addClaim port (t + δ)) (b'.addClaim port t) := by
  have hcontains : (b.claimsOn port).contains (t + δ) = (b'.claimsOn port).contains t := by
    rw [h.claimsOn, Bool.eq_iff_iff]
    simp
  unfold Bench.addClaim
  dsimp only
  rw [hcontains]
  split
  · exact h
  · have hset := h.setClaims port (b'.claimsOn port ++ [t])
    rw [map_append, ← h.claimsOn] at hset
    exact hset

lemma dropClaim : Twin δ (b.dropClaim port (t + δ)) (b'.dropClaim port t) := by
  have hset := h.setClaims port ((b'.claimsOn port).filter (· != t))
  have hfilter : ((b'.claimsOn port).filter (· != t)).map (· + δ)
      = (b.claimsOn port).filter (· != t + δ) := by
    rw [h.claimsOn, filter_map]
    refine congrArg (List.map _) (filter_congr fun u _ => ?_)
    rw [Bool.eq_iff_iff]
    simp
  rw [hfilter] at hset
  exact hset

lemma setState (run run' state) : Twin δ (b.setState run state) (b'.setState run' state) := by
  unfold Bench.setState
  rw [h.state]
  split
  · exact h
  · exact { h with log := h.log.announce _ _, state := rfl }

lemma cancel : Twin δ b.cancel b'.cancel := by
  refine { h with run := ?_ }
  have hrun := h.run
  show Run.Twins (b.run.map _) (b'.run.map _)
  generalize b.run = run at hrun
  generalize b'.run = run' at hrun
  cases hrun with
  | none => exact .none
  | some id id' setting startedAt readers cancelled =>
    exact .some id id' setting startedAt readers _

lemma finish : Twin δ b.finish b'.finish := by
  unfold Bench.finish
  dsimp only
  rw [h.cancel.state]
  split
  · exact h.cancel.setState _ _ _
  · exact h.cancel

lemma withLog {log log' : Log} (hlog : log.Twin log') :
    Twin δ { b with log } { b' with log := log' } :=
  { h with log := hlog }

lemma withSpawned (spawned : List Activation) : Twin δ { b with spawned } { b' with spawned } :=
  { h with spawned := rfl }

lemma withSeed (seed : Nat) : Twin δ { b with seed } { b' with seed } :=
  { h with seed := rfl }

/-! ### Requests -/

lemma withTurn (turn : Option TaskId) :
    Twin δ { b with turn := turn.map (· + δ) } { b' with turn } :=
  { h with turn := rfl }

lemma acquire : (b.acquire (t + δ)).Twin δ (b'.acquire t) := by
  unfold Bench.acquire
  rw [h.isCancelled, h.turn_isNone]
  simp only [h.turn_iff]
  split
  · exact .done _ h
  · split
    · exact .done _ h
    · split
      · exact .done _ (h.withTurn (some t))
      · exact .wait h

lemma sleepUntil (deadline : Nat) (heedPause : Bool) :
    (b.sleepUntil deadline heedPause).Twin δ (b'.sleepUntil deadline heedPause) := by
  unfold Bench.sleepUntil
  rw [h.isCancelled, h.isPaused, h.now]
  split
  · exact .done _ h
  · split
    · exact .done _ h
    · split
      · exact .done _ h
      · exact .wait h

lemma withHub (hub : Channel Frame) : Twin δ { b with hub } { b' with hub } :=
  { h with hub := rfl }

lemma withBus (bus : Bus) : Twin δ { b with bus } { b' with bus } :=
  { h with bus := rfl }

lemma nextFrame (r : ReaderId) (deadline : Nat) :
    (b.nextFrame r deadline).Twin δ (b'.nextFrame r deadline) := by
  have hnow : deadline ≤ b.now ↔ deadline ≤ b'.now := by rw [h.now]
  have hfavours : b.favoursTime = b'.favoursTime := by rw [favoursTime, favoursTime, h.seed]
  unfold Bench.nextFrame
  rw [h.isCancelled, h.isPaused, hfavours]
  simp only [hnow]
  split
  · exact .done _ h
  · split
    · exact .done _ h
    · split
      · exact .done _ h
      · rw [congrArg (·.receive? r) h.hub]
        cases b'.hub.receive? r with
        | none =>
          dsimp only
          split
          · exact .done _ h
          · exact .wait h
        | some received =>
          obtain ⟨got, hub⟩ := received
          cases got with
          | item f | lagged n => exact .done _ (h.withHub hub)

lemma receive? (source) : b.receive? source = none ∧ b'.receive? source = none ∨
    ∃ got c c', b.receive? source = some (got, c) ∧ b'.receive? source = some (got, c') ∧
      Twin δ c c' := by
  cases source with
  | port port r =>
    rw [Bench.receive?, Bench.receive?, h.bus]
    cases b'.bus.receive? port r with
    | none => exact .inl ⟨rfl, rfl⟩
    | some received => exact .inr ⟨_, _, _, rfl, rfl, h.withBus received.2⟩
  | hub r =>
    rw [Bench.receive?, Bench.receive?, h.hub]
    cases b'.hub.receive? r with
    | none => exact .inl ⟨rfl, rfl⟩
    | some received => exact .inr ⟨_, _, _, rfl, rfl, h.withHub received.2⟩

lemma receive (source : Source) : (b.receive source).Twin δ (b'.receive source) := by
  unfold Bench.receive
  rw [h.isCancelled]
  split
  · exact .done _ h
  · rcases h.receive? source with ⟨hnone, hnone'⟩ | ⟨got, c, c', hgot, hgot', htwin⟩
    · rw [hnone, hnone']
      exact .wait h
    · rw [hgot, hgot']
      exact .done _ htwin

lemma claimPort : (b.claimPort (t + δ) port).Twin δ (b'.claimPort t port) := by
  have hadded := h.addClaim port t
  have hhead : ((b.addClaim port (t + δ)).claimsOn port).head? = some (t + δ) ↔
      ((b'.addClaim port t).claimsOn port).head? = some t := by
    rw [hadded.claimsOn, head?_map]
    cases ((b'.addClaim port t).claimsOn port).head? with
    | none => simp
    | some u => simp
  unfold Bench.claimPort
  rw [h.isCancelled]
  split
  · exact .done _ (h.dropClaim port t)
  · dsimp only
    simp only [hhead]
    split
    · exact .done _ hadded
    · exact .wait hadded

/-- A request of a task has the same outcome on twins. -/
lemma perform (op) : (b.perform (t + δ) op).Twin δ (b'.perform t op) := by
  cases op with
    (unfold Bench.perform
     dsimp only)
  | standing => exact .read h h.standing
  | acquire => exact h.acquire t
  | release =>
    simp only [h.turn_iff]
    split
    · exact .done _ (h.withTurn none)
    · exact .done _ h
  | awaitRunning =>
    rw [h.standing]
    cases b'.standing with
    | running => exact .done _ h
    | paused => exact .wait h
    | stopped => exact .done _ h
  | yield => exact .yielded _ h
  | clock => exact .read h h.now
  | elapsed => exact .read h (by rw [h.now, h.startedAt])
  | sleepUntil deadline heedPause => exact h.sleepUntil deadline heedPause
  | listen | unlisten r | publish f =>
    rw [h.hub]
    exact .done _ (h.withHub _)
  | nextFrame r deadline => exact h.nextFrame r deadline
  | receive source => exact h.receive source
  | leavePort port r =>
    rw [h.bus]
    exact .done _ (h.withBus _)
  | globals =>
    simp only [h.turn_iff, h.globals]
    exact .done _ h
  | setGlobals bs =>
    simp only [h.turn_iff]
    split
    · exact .done _ { h with globals := rfl }
    · exact .done _ h
  | report d => exact .done _ (h.withLog (h.log.recordError _ _ d))
  | print text =>
    exact .done _ (h.withLog (h.log.recordOutput _ _ text))
  | finish => exact .done _ h.finish
  | entropy =>
    unfold Bench.nextRandom
    dsimp only
    rw [h.seed]
    exact .done _ (h.withSeed _)
  | spawn a =>
    rw [h.isCancelled]
    split
    · exact .done _ h
    · rw [h.spawned]
      exact .done _ (h.withSpawned _)
  | claimPort port => exact h.claimPort port t
  | leaveClaim port => exact .done _ (h.dropClaim port t)
  | writeTime => exact .read h h.writeTime
  | transmit f =>
    have hwrite : b.bus.write b.now f = b'.bus.write b'.now f := by rw [h.bus, h.now]
    rw [hwrite]
    exact .done _ (h.withBus _)

end

end Bench.Twin

/-! ## Schedules -/

def Task.renumber (δ : Nat) (task : Task) : Task :=
  ⟨task.id + δ, task.rest⟩

/-- Slices on twins with the same rest. -/
structure Slice.Twin (δ : Nat) (x x' : Slice) : Prop where
  bench : x.bench.Twin δ x'.bench
  rest : x.rest = x'.rest
  moved : x.moved = x'.moved

/-- Sessions on twins, with the same tasks under other numbers. -/
structure Session.Twin (δ : Nat) (s s' : Session) : Prop where
  bench : s.bench.Twin δ s'.bench
  tasks : s.tasks = s'.tasks.map (Task.renumber δ)

lemma Bench.Twin.runTask {δ b b'} (h : Twin δ b b') (t n moved p) :
    (runTask (t + δ) n moved b p).Twin δ (runTask t n moved b' p) := by
  induction n generalizing moved b b' p with
  | zero => exact ⟨h, rfl, rfl⟩
  | succ n ih =>
    cases p with
    | pure a => exact ⟨h, rfl, rfl⟩
    | iter body s next => exact ih h true (Process.unfold body s next)
    | act op next =>
      have hop := h.perform t op
      rw [CanScript.runTask, CanScript.runTask]
      generalize b.perform (t + δ) op = outcome at hop
      generalize b'.perform t op = outcome' at hop
      cases hop with
      | done reply htwin => exact ih htwin true (next reply)
      | yielded reply htwin | wait htwin => exact ⟨htwin, rfl, rfl⟩

namespace Session

lemma passOver_twin {δ b b'} (h : b.Twin δ b') (moved kept tasks) :
    Twin δ (passOver b moved (kept.map (Task.renumber δ)) (tasks.map (Task.renumber δ))).1
      (passOver b' moved kept tasks).1 ∧
    (passOver b moved (kept.map (Task.renumber δ)) (tasks.map (Task.renumber δ))).2
      = (passOver b' moved kept tasks).2 := by
  induction tasks generalizing b b' moved kept with
  | nil => exact ⟨⟨h, map_reverse.symm⟩, rfl⟩
  | cons task tasks ih =>
    obtain ⟨hbench, hrest, hmoved⟩ := h.runTask task.id stepLimit false task.rest
    rw [map_cons, passOver, passOver]
    dsimp only [Task.renumber]
    rw [hrest, hmoved]
    cases (runTask task.id stepLimit false b' task.rest).rest with
    | none => exact ih hbench _ kept
    | some p => exact ih hbench _ (⟨task.id, p⟩ :: kept)

namespace Twin

variable {δ : Nat} {s s' : Session} (h : Twin δ s s')

include h

lemma addTasks (processes) : Twin δ (s.addTasks processes) (s'.addTasks processes) := by
  refine ⟨{ h.bench with nextTask := ?_ }, ?_⟩
  · rw [addTasks_nextTask, addTasks_nextTask, h.bench.nextTask]
    exact Nat.add_right_comm _ _ _
  · show s.tasks ++ List.map _ _ = List.map _ (s'.tasks ++ List.map _ _)
    rw [map_append, h.tasks, map_map, h.bench.nextTask]
    refine congrArg (_ ++ ·) (map_congr_left fun p _ => ?_)
    exact congrArg (Task.mk · p.1) (Nat.add_right_comm _ _ _)

lemma startTasks : Twin δ s.startTasks s'.startTasks := by
  have hactivations : activations s.bench = activations s'.bench := by
    rw [activations, activations, h.bench.setting?, h.bench.spawned]
  have hstarted : Twin δ ⟨{ s.bench with spawned := [] }, s.tasks⟩
      ⟨{ s'.bench with spawned := [] }, s'.tasks⟩ := ⟨h.bench.withSpawned [], h.tasks⟩
  rw [startTasks_addTasks, startTasks_addTasks, hactivations]
  exact hstarted.addTasks _

lemma pass : Twin δ s.pass.1 s'.pass.1 ∧ s.pass.2 = s'.pass.2 := by
  obtain ⟨hmachine, hmoved⟩ := passOver_twin h.bench false [] s'.tasks
  rw [Machine.pass, Machine.pass, h.tasks]
  exact ⟨startTasks hmachine, hmoved⟩

lemma settleWithin (n) : Twin δ (s.settleWithin n) (s'.settleWithin n) := by
  induction n generalizing s s' with
  | zero => exact h
  | succ n ih =>
    obtain ⟨hmachine, hmoved⟩ := h.pass
    rw [settleWithin_succ, settleWithin_succ, hmoved]
    split
    · exact ih hmachine
    · exact hmachine

lemma settle : Twin δ s.settle s'.settle :=
  h.settleWithin passLimit

lemma deadlines : s.deadlines = s'.deadlines := by
  rw [Machine.deadlines, Machine.deadlines, h.tasks, filterMap_map]
  rfl

lemma nextDeadline? (target) : s.nextDeadline? target = s'.nextDeadline? target := by
  rw [Machine.nextDeadline?, Machine.nextDeadline?, h.deadlines, h.bench.now]

lemma setClock (now) : Twin δ (s.setClock now) (s'.setClock now) :=
  ⟨{ h.bench with now := rfl }, h.tasks⟩

lemma isSettled : s.isSettled = s'.isSettled := by
  rw [Machine.isSettled, Machine.isSettled, h.bench.state]

lemma passTime (passes) {until? : Session → Bool}
    (huntil : ∀ s s', Twin δ s s' → until? s = until? s') (target n) :
    Twin δ (passTime passes until? target n s)
      (passTime passes until? target n s') := by
  induction n generalizing s s' with
  | zero => exact h
  | succ n ih =>
    have hsettled := h.settleWithin passes
    rw [passTime, passTime, huntil _ _ hsettled, hsettled.nextDeadline?,
      hsettled.bench.now]
    split
    · exact hsettled
    · cases (s'.settleWithin passes).nextDeadline? target with
      | some d => exact ih (hsettled.setClock d)
      | none => exact hsettled.setClock _

lemma advance (millis) : Twin δ (s.advance millis) (s'.advance millis) := by
  rw [Machine.advance, Machine.advance, h.bench.now]
  exact h.passTime passLimit (fun _ _ _ => rfl) _ _

lemma settleRunWithin (passes limit) :
    Twin δ (Machine.settleRunWithin passes s limit) (Machine.settleRunWithin passes s' limit) := by
  rw [Machine.settleRunWithin, Machine.settleRunWithin, h.bench.now]
  exact h.passTime passes (fun _ _ htwin => htwin.isSettled) _ _

end Twin

end Session

end CanScript
