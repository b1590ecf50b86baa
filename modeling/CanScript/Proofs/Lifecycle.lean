import CanScript.Proofs.Logging
import CanScript.Proofs.Moves

/-! # The life of a session

    A host starts, pauses, resumes and stops runs in any order, and in between the tasks of a run go
    on, end by themselves or end the run.  The state, the run, its being told to end, and the log
    are changed at different places; they agree with each other all the same. -/

namespace CanScript

open Program Option List

/-! ## How a run begins -/

/-- What the tasks of a run are there for. -/
inductive Role (setting : Setting) : Process Unit → Prop where
  | main : Role setting (mainTask setting)
  | forwarder (port : String) (r : ReaderId) : Role setting (forwarder port r)
  | dispatcher (r : ReaderId) : Role setting (dispatcher setting r)
  | interval (i : Nat) {h : IntervalHandler} : h ∈ setting.program.intervalHandlers →
      Role setting (intervalTask setting i h)
  | activation (a : Activation) : Role setting (activationTask setting a)

namespace Session

/-- A run has begun, and nothing else has happened. -/
structure Launched (setting : Setting) (s : Session) : Prop where
  state : s.bench.state = .running
  run : ∃ run, s.bench.run = some run ∧ run.cancelled = false ∧ run.setting = setting
  spawned : s.bench.spawned = []
  orderly : s.Orderly
  roles : ∀ task ∈ s.tasks, Role setting task.rest

namespace Launched

variable {setting : Setting} {s : Session}

lemma addTasks (h : Launched setting s) {processes}
    (hroles : ∀ p ∈ processes, Role setting p) : Launched setting (s.addTasks processes) where
  state := h.state
  run := h.run
  spawned := h.spawned
  orderly := h.orderly.addTasks processes
  roles task hmem := by
    rcases mem_addTasks hmem with hold | ⟨-, hnew⟩
    · exact h.roles task hold
    · exact hroles task.rest hnew

lemma addForwarder (h : Launched setting s) (port) : Launched setting (s.addForwarder port) := by
  obtain ⟨run, hrun, hgoing, hsetting⟩ := h.run
  have hsubscribed : Launched setting (s.update fun b => { b with
      bus := (b.bus.subscribe port).1
      run := b.run.map fun run => { run with
        readers := run.readers ++ [(port, (s.bench.bus.subscribe port).2)] } }) := by
    exact ⟨h.state, ⟨_, congrArg (Option.map _) hrun, hgoing, hsetting⟩, h.spawned,
      ⟨h.orderly.distinct, h.orderly.below⟩, h.roles⟩
  refine hsubscribed.addTasks fun p hp => ?_
  rw [mem_singleton.mp hp]
  exact .forwarder port _

lemma addForwarders (h : Launched setting s) (ports : List String) :
    Launched setting (ports.foldl Session.addForwarder s) := by
  induction ports generalizing s with
  | nil => exact h
  | cons port ports ih => exact ih (h.addForwarder port)

lemma addDispatcher (h : Launched setting s) : Launched setting (s.addDispatcher setting) := by
  rw [Session.addDispatcher]
  split
  · exact h
  · have hsubscribed : Launched setting
        (s.update fun b => { b with hub := s.bench.hub.subscribe.1 }) :=
      ⟨h.state, h.run, h.spawned, ⟨h.orderly.distinct, h.orderly.below⟩, h.roles⟩
    refine hsubscribed.addTasks fun p hp => ?_
    rw [mem_singleton.mp hp]
    exact .dispatcher _

lemma addMain (h : Launched setting s) :
    Launched setting (s.addTasks (intervalTasks setting ++ [mainTask setting])) := by
  refine h.addTasks fun p hp => ?_
  rcases mem_append.mp hp with hinterval | hmain
  · obtain ⟨⟨handler, i⟩, hmem, rfl⟩ := mem_map.mp hinterval
    exact .interval i (fst_mem_of_mem_zipIdx hmem)
  · rw [mem_singleton.mp hmain]
    exact .main

end Launched

variable (s : Session)

/-- A session without a run has no tasks left. -/
structure Bare (s : Session) : Prop where
  run : s.bench.run = none
  tasks : s.tasks = []
  spawned : s.bench.spawned = []

def settingOf (s : Session) (program : Program) (ports : List String) : Setting :=
  ⟨program, ports, s.bench.limits⟩

/-- The bench of a run that begins, before it has tasks. -/
def beginRun (b : Bench) (setting : Setting) : Bench :=
  let id := b.runs + 1
  let b := { b with
    runs := id
    globals := []
    hub := .ofCapacity (max b.limits.frameBuffer 1) }
  let b := b.setState (some id) .running
  { b with run := some ⟨id, setting, b.now, [], false⟩ }

lemma beginRun_eq (b setting) : ∃ events, beginRun b setting = { b with
    runs := b.runs + 1
    globals := []
    hub := .ofCapacity (max b.limits.frameBuffer 1)
    state := .running
    log := { b.log with events }
    run := some ⟨b.runs + 1, setting, b.now, [], false⟩ } := by
  obtain ⟨events, heq⟩ := setState_eq { b with
    runs := b.runs + 1
    globals := []
    hub := .ofCapacity (max b.limits.frameBuffer 1) } (some (b.runs + 1)) .running
  refine ⟨events, ?_⟩
  rw [beginRun]
  dsimp only
  rw [heq]

lemma launch_eq (program ports) : (s.launch program ports).1 =
      ((ports.foldl addForwarder ⟨beginRun s.bench (s.settingOf program ports), s.tasks⟩)
        |>.addDispatcher (s.settingOf program ports)).addTasks
          (intervalTasks (s.settingOf program ports) ++ [mainTask (s.settingOf program ports)]) :=
  rfl

lemma launch_launched {s : Session} (hs : s.Bare) (program ports) :
    Launched (s.settingOf program ports) (s.launch program ports).1 := by
  obtain ⟨events, heq⟩ := beginRun_eq s.bench (s.settingOf program ports)
  rw [launch_eq]
  refine Launched.addMain (Launched.addDispatcher (Launched.addForwarders ?_ ports))
  rw [heq, hs.tasks]
  exact ⟨rfl, ⟨_, rfl, rfl, rfl⟩, hs.spawned, ⟨nodup_nil, forall_mem_nil _⟩,
    forall_mem_nil _⟩

lemma addForwarders_bench (ports : List String) : ∃ bus run nextTask,
    (ports.foldl addForwarder s).bench = { s.bench with bus, run, nextTask } ∧
    bus.sent = s.bench.bus.sent ∧ run.map (·.id) = s.bench.runId? := by
  induction ports generalizing s with
  | nil => exact ⟨_, _, _, rfl, rfl, rfl⟩
  | cons port ports ih =>
    obtain ⟨bus, run, nextTask, heq, hsent, hid⟩ := ih (s.addForwarder port)
    refine ⟨bus, run, nextTask, heq, hsent, hid.trans ?_⟩
    exact map_map _ _ _

lemma launch_bench (program ports) : ∃ bus run hub nextTask,
    (s.launch program ports).1.bench
      = { beginRun s.bench (s.settingOf program ports) with bus, run, hub, nextTask } ∧
    bus.sent = s.bench.bus.sent ∧ run.map (·.id) = some (s.bench.runs + 1) := by
  have hdispatcher : ∀ (s : Session) setting, ∃ hub nextTask,
      (s.addDispatcher setting).bench = { s.bench with hub, nextTask } := by
    intro s setting
    rw [addDispatcher]
    split <;> exact ⟨_, _, rfl⟩
  obtain ⟨events, hbegun⟩ := beginRun_eq s.bench (s.settingOf program ports)
  obtain ⟨bus, run, nextTask, hforwarders, hsent, hid⟩ :=
    addForwarders_bench ⟨beginRun s.bench (s.settingOf program ports), s.tasks⟩ ports
  obtain ⟨hub, nextTask', heq⟩ := hdispatcher (ports.foldl addForwarder _)
    (s.settingOf program ports)
  rw [hforwarders] at heq
  have hsame : (beginRun s.bench (s.settingOf program ports)).bus.sent = s.bench.bus.sent := by
    rw [hbegun]
  rw [launch_eq, addTasks, heq]
  exact ⟨_, _, _, _, rfl, hsent.trans hsame, hid⟩

end Session

/-! ## The state and the run -/

/-- A run goes on exactly as long as it was not told to end, a session that is idle or refused a
    script has no run, and one that is stopped has a run that was told to end. -/
structure Bench.Consistent (b : Bench) : Prop where
  active : b.state.isActive = true ↔ ∃ run, b.run = some run ∧ run.cancelled = false
  idle : b.state = .idle → b.run = none
  error : b.state = .error → b.run = none
  stopped : b.state = .stopped → ∃ run, b.run = some run ∧ run.cancelled = true

variable {b : Bench}

namespace Bench

lemma Consistent.of_running (hstate : b.state.isActive)
    (hrun : ∃ run, b.run = some run ∧ run.cancelled = false) : b.Consistent := by
  refine ⟨⟨fun _ => hrun, fun _ => hstate⟩, ?_, ?_, ?_⟩
  all_goals
    intro h
    rw [h] at hstate
    cases hstate

lemma Consistent.of_none (hstate : b.state = .idle ∨ b.state = .error) (hrun : b.run = none) :
    b.Consistent := by
  refine ⟨⟨fun h => ?_, ?_⟩, fun _ => hrun, fun _ => hrun, fun h => ?_⟩
  · rcases hstate with hstate | hstate <;> rw [hstate] at h <;> cases h
  · rintro ⟨run, h, -⟩
    rw [hrun] at h
    cases h
  · rcases hstate with hstate | hstate <;> rw [hstate] at h <;> cases h

lemma Consistent.of_stopped (hstate : b.state = .stopped) {run} (hrun : b.run = some run)
    (hcancelled : run.cancelled) : b.Consistent := by
  refine ⟨⟨fun h => ?_, ?_⟩, fun h => ?_, fun h => ?_, fun _ => ⟨run, hrun, hcancelled⟩⟩
  · rw [hstate] at h
    cases h
  · rintro ⟨run', hrun', hgoing⟩
    rw [← Option.some.inj (hrun.symm.trans hrun'), hcancelled] at hgoing
    cases hgoing
  · cases hstate.symm.trans h
  · cases hstate.symm.trans h

lemma Consistent.inactive_of_none (h : b.Consistent) (hrun : b.run = none) :
    b.state.isActive = false := by
  refine Bool.eq_false_iff.mpr fun hactive => ?_
  obtain ⟨run, hsome, -⟩ := h.active.mp hactive
  rw [hrun] at hsome
  cases hsome

lemma cancel_of_none (h : b.run = none) : b.cancel = b := by
  cases b
  cases h
  rfl

lemma Consistent.cancel (h : b.Consistent) (log) :
    Consistent { b.cancel with state := if b.state.isActive then .stopped else b.state, log } := by
  cases hrun : b.run with
  | none =>
    rw [cancel_of_none hrun, h.inactive_of_none hrun]
    exact ⟨h.active, h.idle, h.error, h.stopped⟩
  | some run =>
    refine .of_stopped ?_ (congrArg (Option.map _) hrun) rfl
    cases hstate : b.state with
    | running => rfl
    | paused => rfl
    | stopped => rfl
    | idle => exact absurd (hrun.symm.trans (h.idle hstate)) (some_ne_none run)
    | error => exact absurd (hrun.symm.trans (h.error hstate)) (some_ne_none run)

lemma Change.consistent {t b' op} (h : Change t b op b') (hb : b.Consistent) : b'.Consistent := by
  cases h with
  | finish => exact hb.cancel _
  | _ => exact ⟨hb.active, hb.idle, hb.error, hb.stopped⟩

def constants (b : Bench) : RunConfig × Nat × Nat × Nat :=
  (b.limits, b.writeTime, b.log.maxErrors, b.log.maxOutput)

lemma finish_constants (b : Bench) : b.finish.constants = b.constants := by
  unfold finish
  dsimp only
  split
  · obtain ⟨events, heq⟩ := Session.setState_eq b.cancel b.cancel.runId? .stopped
    rw [heq]
    rfl
  · rfl

lemma Change.constants {t b' op} (h : Change t b op b') : b'.constants = b.constants := by
  cases h with
  | report d =>
    obtain ⟨herrors, houtput⟩ := b.log.recordError_limits b.runId? d
    unfold Bench.constants Bench.report
    rw [herrors, houtput]
  | finish => exact b.finish_eq ▸ b.finish_constants
  | _ => rfl

end Bench

namespace Session

/-- What holds of a session at all times: the state and the run go together, nothing is left of a
    run that was cleared away, and the log keeps as many errors as it was made for. -/
structure Sound (limits : RunConfig) (s : Session) : Prop where
  consistent : s.bench.Consistent
  bare : s.bench.run = none → s.Bare
  room : s.bench.log.maxErrors = limits.maxErrorLog

variable {limits : RunConfig} (s : Session)

variable {who : Option TaskId} {s' : Session} {ports : List String} {source : String} {bus : Bus}
  {writeTime : Nat}

lemma Step.constants {s} (h : Step who s s') : s'.bench.constants = s.bench.constants := by
  refine h.keeps (P := fun b => b.constants = s.bench.constants)
    (fun _ _ _ hchange => hchange.constants) (fun _ => rfl) fun b hb => ?_
  cases hb with
  | callOff => exact s.bench.finish_eq ▸ s.bench.finish_constants
  | _ => rfl

lemma Step.maxErrors {s} (h : Step who s s') : s'.bench.log.maxErrors = s.bench.log.maxErrors :=
  congrArg (·.2.2.1) h.constants

lemma Influence.consistent {b b'} (h : Influence b b') (hb : b.Consistent) : b'.Consistent := by
  cases h with
  | state hactive hstate => exact .of_running hstate (hb.active.mp hactive)
  | callOff => exact hb.cancel _
  | _ => exact ⟨hb.active, hb.idle, hb.error, hb.stopped⟩

lemma run_eq_none_iff (b : Bench) : b.setting? = none ↔ b.run = none :=
  map_eq_none_iff

lemma Step.sound {s} (h : Step who s s') (hs : s.Sound limits) : s'.Sound limits := by
  have hb := hs.consistent
  refine ⟨h.keeps (fun _ _ _ hchange => hchange.consistent hb)
    (fun _ => ⟨hb.active, hb.idle, hb.error, hb.stopped⟩) fun _ hb' => hb'.consistent hb,
    fun hnone => ?_, h.maxErrors.trans hs.room⟩
  -- there was no run before either, so there is no task to move
  have hbare := hs.bare ((run_eq_none_iff _).mp (h.setting? ▸ (run_eq_none_iff _).mpr hnone))
  cases h with
  | move before task behind => exact absurd hbare.tasks (by simp)
  | spawn =>
    rw [Machine.startTasks, hbare.run]
    exact ⟨hbare.run, hbare.tasks, rfl⟩
  | external h =>
    exact ⟨hnone, h.apart.tasks.trans hbare.tasks, h.apart.spawned.trans hbare.spawned⟩

lemma stop_sound {s : Session} (hs : s.Sound limits) : s.stop.Sound limits := by
  rw [stop_eq]
  -- whether there was a run or not, none is left
  have hcleared : ∀ s' : Session, s'.Bare → s'.bench.log.maxErrors = limits.maxErrorLog →
      (s'.update fun b => b.setState s.bench.runId? .idle).Sound limits := by
    intro s' hbare hroom
    obtain ⟨events, heq⟩ := setState_eq s'.bench s.bench.runId? .idle
    dsimp only [update]
    rw [heq]
    exact ⟨.of_none (.inl rfl) hbare.run, fun _ => ⟨hbare.run, hbare.tasks, hbare.spawned⟩, hroom⟩
  by_cases hrun : s.bench.run.isSome
  · rw [if_pos hrun]
    have hsettled : Sound limits s.callOff.settle :=
      (settleWithin_steps _ _).keeps (fun _ _ _ => Step.sound) ((Step.external (.callOff s)).sound hs)
    exact hcleared _ ⟨rfl, rfl, rfl⟩ hsettled.room
  · rw [if_neg hrun]
    exact hcleared s (hs.bare (not_isSome_iff_eq_none.mp hrun)) hs.room

/-! ## Starts -/

def ready (s : Session) : Session :=
  s.retire.update fun b => { b with log := b.log.reset }

lemma ready_bare {s : Session} (hs : s.Sound limits) :
    s.ready.Bare ∧ s.ready.bench.log.maxErrors = limits.maxErrorLog := by
  rw [ready, retire]
  by_cases hrun : s.bench.run.isSome
  · rw [if_pos hrun, drain_eq]
    refine ⟨⟨rfl, rfl, rfl⟩, ?_⟩
    refine (settleWithin_steps passLimit (s.update Bench.cancel)).keeps
      (P := fun s' => s'.bench.log.maxErrors = limits.maxErrorLog) ?_ hs.room
    intro who s1 s2 hstep hroom
    exact hstep.maxErrors.trans hroom
  · rw [if_neg hrun]
    have hbare := hs.bare (not_isSome_iff_eq_none.mp hrun)
    exact ⟨⟨hbare.run, hbare.tasks, hbare.spawned⟩, hs.room⟩

lemma launch_constants (s : Session) (program ports) :
    (s.launch program ports).1.bench.constants = s.bench.constants := by
  obtain ⟨bus, run, hub, nextTask, heq, -⟩ := launch_bench s program ports
  obtain ⟨events, hbegun⟩ := beginRun_eq s.bench (s.settingOf program ports)
  rw [heq, hbegun]
  rfl

lemma startProgram_of_none {s : Session} (h : s.startRefusal? ports = none) (program) :
    s.startProgram program ports
      = ((s.ready.launch program ports).1, .ok (s.ready.launch program ports).2) := by
  rw [startProgram]
  rw [h]
  rfl

lemma startProgram_of_some {s : Session} {e} (h : s.startRefusal? ports = some e) (program) :
    s.startProgram program ports = (s, .error e) := by
  rw [startProgram]
  rw [h]

lemma start_of_some {s : Session} {e} (h : s.startRefusal? ports = some e) (source) :
    s.start source ports = (s, .error e) := by
  rw [start]
  rw [h]

lemma start_of_faultless {s : Session} (h : (ofSource source).2 = []) :
    s.start source ports = s.startProgram (ofSource source).1 ports := by
  rw [start, startProgram]
  cases s.startRefusal? ports with
  | some e => rfl
  | none =>
    generalize ofSource source = parsed at h
    obtain ⟨program, errors⟩ := parsed
    cases h
    rfl

def refuse (s : Session) (errors : List Diagnostic) : Session :=
  (s.ready.update fun b => { b with log := b.log.recordErrors none errors }).update fun b =>
    b.setState none .error

lemma start_of_faulty {s : Session} (hports : s.startRefusal? ports = none)
    (h : (ofSource source).2 ≠ []) :
    s.start source ports = (s.refuse (ofSource source).2,
      .error (.invalidScript (ofSource source).2.length)) := by
  rw [start]
  rw [hports]
  generalize ofSource source = parsed at h
  obtain ⟨program, errors⟩ := parsed
  cases errors with
  | nil => exact absurd rfl h
  | cons error errors => rfl

lemma launch_sound {s : Session} (hs : s.Sound limits) (program ports) :
    (s.ready.launch program ports).1.Sound limits := by
  obtain ⟨hbare, hroom⟩ := ready_bare hs
  have hlaunched := launch_launched hbare program ports
  obtain ⟨run, hrun, hgoing, -⟩ := hlaunched.run
  refine ⟨.of_running (by rw [hlaunched.state]; rfl) ⟨run, hrun, hgoing⟩, fun hnone => ?_,
    Eq.trans (congrArg (·.2.2.1) (launch_constants _ _ _)) hroom⟩
  exact absurd (hrun.symm.trans hnone) (some_ne_none run)

/-- What a script with errors leaves: no run, and a log of these errors. -/
structure Refused (limits : RunConfig) (errors : List Diagnostic) (s : Session) : Prop where
  state : s.bench.state = .error
  bare : s.Bare
  kept : s.bench.log.errors.toList = errors.take limits.maxErrorLog
  counted : s.bench.log.errorCount = errors.length
  output : s.bench.log.output = #[]
  room : s.bench.log.maxErrors = limits.maxErrorLog

lemma refuse_refused {s : Session} (hs : s.Sound limits) (errors) :
    Refused limits errors (s.refuse errors) := by
  obtain ⟨hbare, hroom⟩ := ready_bare hs
  have htells := (Log.reset_tells s.retire.bench.log).moreErrors none errors
  have hmax := (s.ready.bench.log.recordErrors_limits none errors).1
  obtain ⟨events, heq⟩ := setState_eq { s.ready.bench with
    log := s.ready.bench.log.recordErrors none errors } none .error
  rw [refuse]
  dsimp only [update]
  rw [heq]
  refine ⟨rfl, ⟨hbare.run, hbare.tasks, hbare.spawned⟩, ?_, htells.errorCount,
    Array.toList_eq_nil_iff.mp (htells.output.trans drop_nil), hmax.trans hroom⟩
  rw [← hroom, ← hmax]
  exact htells.errors

/-! ## What can become of a session -/

/-- What can become of a session with some limits and a bus: the host calls, each at once, and in
    between anything happens that can happen. -/
inductive Reachable (limits : RunConfig) (bus : Bus) (writeTime : Nat) : Session → Prop where
  | init : Reachable limits bus writeTime (ofLimits limits bus writeTime)
  | step {who : Option TaskId} {s s' : Session} : Reachable limits bus writeTime s →
      Step who s s' → Reachable limits bus writeTime s'
  | start {s : Session} (source : String) (ports : List String) :
      Reachable limits bus writeTime s → Reachable limits bus writeTime (s.start source ports).1
  | startProgram {s : Session} (program : Program) (ports : List String) :
      Reachable limits bus writeTime s →
      Reachable limits bus writeTime (s.startProgram program ports).1
  | stop {s : Session} : Reachable limits bus writeTime s → Reachable limits bus writeTime s.stop

lemma Reachable.steps {s} (h : Reachable limits bus writeTime s) (hs : Steps s s') :
    Reachable limits bus writeTime s' := by
  induction hs with
  | refl => exact h
  | tail _ hstep ih => exact ih.step hstep

/-- What holds of a new session holds of all that can become of it, if it is kept by every step,
    when the run is stopped, and when a run begins or a script is refused. -/
lemma Reachable.induct {P : Session → Prop} (hinit : P (ofLimits limits bus writeTime))
    (hstep : ∀ {who s s'}, Reachable limits bus writeTime s → Step who s s' → P s → P s')
    (hstop : ∀ {s}, Reachable limits bus writeTime s → P s → P s.stop)
    (hlaunch : ∀ {s} program {ports}, Reachable limits bus writeTime s →
      s.startRefusal? ports = none → P s → P (s.ready.launch program ports).1)
    (hrefuse : ∀ {s} errors {ports}, Reachable limits bus writeTime s →
      s.startRefusal? ports = none → P s → P (s.refuse errors))
    {s} (h : Reachable limits bus writeTime s) : P s := by
  have hprogram : ∀ {s : Session}, Reachable limits bus writeTime s → P s → ∀ program ports,
      P (s.startProgram program ports).1 := by
    intro s hs hP program ports
    cases hports : s.startRefusal? ports with
    | some e =>
      rw [startProgram_of_some hports]
      exact hP
    | none =>
      rw [startProgram_of_none hports]
      exact hlaunch program hs hports hP
  induction h with
  | init => exact hinit
  | step hs hnext ih => exact hstep hs hnext ih
  | @start s source ports hs ih =>
    by_cases hfaultless : (ofSource source).2 = []
    · rw [start_of_faultless hfaultless]
      exact hprogram hs ih _ ports
    · cases hports : s.startRefusal? ports with
      | some e =>
        rw [start_of_some hports]
        exact ih
      | none =>
        rw [start_of_faulty hports hfaultless]
        exact hrefuse _ hs hports ih
  | startProgram program ports hs ih => exact hprogram hs ih program ports
  | stop hs ih => exact hstop hs ih

lemma Reachable.sound {s} (h : Reachable limits bus writeTime s) : s.Sound limits := by
  refine h.induct ⟨.of_none (.inl rfl) rfl, fun _ => ⟨rfl, rfl, rfl⟩, rfl⟩
    (fun _ hstep => hstep.sound) (fun _ => stop_sound)
    (fun program _ _ _ hs => launch_sound hs program _) fun errors _ _ _ hs => ?_
  have hrefused := refuse_refused hs errors
  exact ⟨.of_none (.inr hrefused.state) hrefused.bare.run, fun _ => hrefused.bare, hrefused.room⟩

lemma inactive_of_startRefusal? {s : Session} (h : s.startRefusal? ports = none) :
    s.bench.state.isActive = false := by
  rw [startRefusal?] at h
  by_cases hactive : s.bench.state.isActive
  · rw [if_pos hactive] at h
    cases h
  · exact Bool.eq_false_iff.mpr hactive

lemma retire_eq {s : Session} (hinactive : s.bench.state.isActive = false) :
    s.retire = if s.bench.run.isSome then clear s.callOff.settle else s := by
  rw [retire, callOff]
  by_cases hrun : s.bench.run.isSome
  · rw [if_pos hrun, if_pos hrun, if_pos hrun, drain_eq]
    dsimp only
    rw [if_neg (show ¬ (s.update Bench.cancel).bench.state.isActive = true from
      Bool.eq_false_iff.mp hinactive)]
  · rw [if_neg hrun, if_neg hrun]

/-- What holds of a new session holds of all that can become of it, if it is kept by every step,
    when a run is cleared away, when a state or something else is noted in the log, and when a run
    begins. -/
lemma Reachable.invariant {P : Session → Prop} (hinit : P (ofLimits limits bus writeTime))
    (hstep : ∀ who s s', Reachable limits bus writeTime s → Step who s s' → P s → P s')
    (hclear : ∀ s, P s → P (clear s))
    (hlog : ∀ (s : Session) state log, log.maxErrors = s.bench.log.maxErrors →
      log.maxOutput = s.bench.log.maxOutput → P s → P ⟨{ s.bench with state, log }, s.tasks⟩)
    (hlaunch : ∀ s, s.Bare → P s → ∀ program ports, P (s.launch program ports).1) {s}
    (h : Reachable limits bus writeTime s) : P s := by
  -- a stop and a start both clear away an earlier run in the same way
  have hsteps : ∀ s s', Reachable limits bus writeTime s → Steps s s' → P s → P s' := by
    intro s s' hreachable hsteps hs
    induction hsteps with
    | refl => exact hs
    | tail hbefore hnext ih => exact hstep _ _ _ (hreachable.steps hbefore) hnext ih
  have hsettle : ∀ s, Reachable limits bus writeTime s → P s →
      P (if s.bench.run.isSome then clear s.callOff.settle else s : Session) := by
    intro s hreachable hs
    split
    · exact hclear _ (hsteps s _ hreachable
        ((Steps.single (.external (.callOff s))).trans (settleWithin_steps _ _)) hs)
    · exact hs
  have hready : ∀ s ports, Reachable limits bus writeTime s → s.startRefusal? ports = none →
      P s → P s.ready := by
    intro s ports hreachable hports hs
    have hretired := hsettle s hreachable hs
    rw [← retire_eq (inactive_of_startRefusal? hports)] at hretired
    exact hlog _ _ _ rfl rfl hretired
  have hstate : ∀ (s : Session) run state, P s → P (s.update fun b => b.setState run state) := by
    intro s run state hs
    obtain ⟨events, heq⟩ := setState_eq s.bench run state
    dsimp only [update]
    rw [heq]
    exact hlog s _ _ rfl rfl hs
  refine h.induct hinit (hstep _ _ _) (fun {s} hreachable hs => ?_)
    (fun program _ hreachable hports hs => hlaunch _ (ready_bare hreachable.sound).1
      (hready _ _ hreachable hports hs) program _) fun {s} errors _ hreachable hports hs => ?_
  · rw [stop_eq]
    exact hstate _ _ _ (hsettle s hreachable hs)
  · obtain ⟨herrors, houtput⟩ := s.ready.bench.log.recordErrors_limits none errors
    exact hstate _ _ _ (hlog _ _ _ herrors houtput (hready s _ hreachable hports hs))

lemma Reachable.constants {s} (h : Reachable limits bus writeTime s) :
    s.bench.constants = (Bench.ofLimits limits bus writeTime).constants := by
  refine h.invariant
    (P := fun s => s.bench.constants = (Bench.ofLimits limits bus writeTime).constants) rfl
    (fun _ _ _ _ hstep hs => hstep.constants.trans hs) (fun _ hs => hs)
    (fun s state log herrors houtput hs => ?_)
    (fun s _ hs program ports => (launch_constants s program ports).trans hs)
  rw [← hs]
  show (_, _, log.maxErrors, log.maxOutput) = _
  rw [herrors, houtput]
  rfl

lemma startRefusal?_eq_none {s : Session} (hinactive : s.bench.state.isActive = false)
    (hports : ports ≠ []) : s.startRefusal? ports = none := by
  rw [startRefusal?]
  rw [hinactive, if_neg Bool.false_ne_true, if_neg]
  simpa using hports

/-- Whatever the host calls and the tasks of a script do, the state and the run go together.  A
    refused call leaves the session as it is.  A script that is started on ports while no run is
    going on is accepted if and only if it has no errors; otherwise no run comes of it and the log
    has its errors, as many as there is room for. -/
theorem session_consistent {limits : RunConfig} {bus : Bus} {writeTime : Nat} {s : Session}
    (hs : Reachable limits bus writeTime s) :
    s.bench.Consistent ∧
    (∀ program ports e, (s.startProgram program ports).2 = .error e →
      (s.startProgram program ports).1 = s) ∧
    (∀ source ports e, (s.start source ports).2 = .error e → (∀ n, e ≠ .invalidScript n) →
      (s.start source ports).1 = s) ∧
    (∀ e, s.pause.2 = .error e → s.pause.1 = s) ∧
    (∀ e, s.resume.2 = .error e → s.resume.1 = s) ∧
    (∀ source ports, s.bench.state.isActive = false → ports ≠ [] →
      ((∃ id, (s.start source ports).2 = .ok id) ↔ (Program.ofSource source).2 = []) ∧
      ((Program.ofSource source).2 ≠ [] →
        Refused limits (Program.ofSource source).2 (s.start source ports).1)) := by
  refine ⟨hs.sound.consistent, ?_, ?_, ?_, ?_, ?_⟩
  · intro program ports e herror
    cases hports : s.startRefusal? ports with
    | some e' => rw [startProgram_of_some hports]
    | none =>
      rw [startProgram_of_none hports] at herror
      cases herror
  · intro source ports e herror hne
    cases hports : s.startRefusal? ports with
    | some e' => rw [start_of_some hports]
    | none =>
      by_cases hfaultless : (Program.ofSource source).2 = []
      · rw [start_of_faultless hfaultless, startProgram_of_none hports] at herror
        cases herror
      · rw [start_of_faulty hports hfaultless] at herror
        exact absurd (Except.error.inj herror).symm (hne _)
  · intro e herror
    unfold pause at herror ⊢
    split at herror
    · cases herror
    · next h => rw [if_neg h]
  · intro e herror
    unfold resume at herror ⊢
    split at herror
    · cases herror
    · next h => rw [if_neg h]
  · intro source ports hinactive hports
    have hnone := startRefusal?_eq_none hinactive hports
    refine ⟨⟨?_, fun hfaultless => ?_⟩, fun hfaulty => ?_⟩
    · rintro ⟨id, hok⟩
      by_cases hfaultless : (Program.ofSource source).2 = []
      · exact hfaultless
      · rw [start_of_faulty hnone hfaultless] at hok
        cases hok
    · rw [start_of_faultless hfaultless, startProgram_of_none hnone]
      exact ⟨_, rfl⟩
    · rw [start_of_faulty hnone hfaulty]
      exact refuse_refused hs.sound _

/-- A fresh session in which a program with an interval handler was started and paused. -/
def pausedSession : Session :=
  ((ofLimits {} (.ofCapacity 16)).startProgram
    { intervalHandlers := [⟨⟨1, 1⟩, .literal ⟨1, 13⟩ (.millis 5), []⟩] } ["can0"]).1.pause.1

/-- The run of a paused session goes on, and another start is refused. -/
theorem session_consistent_paused : pausedSession.bench.state = .paused ∧
    (∃ run, pausedSession.bench.run = some run ∧ run.cancelled = false) ∧
    (pausedSession.startProgram {} ["can0"]).1 = pausedSession := by
  have hreachable : Reachable {} (.ofCapacity 16) 0 pausedSession :=
    .step (.startProgram _ _ .init) (.external (.pause _))
  obtain ⟨hconsistent, hrefused, -⟩ := session_consistent hreachable
  exact ⟨rfl, hconsistent.active.mp rfl, hrefused {} ["can0"] .alreadyRunning rfl⟩

end Session

end CanScript
