import CanScript.Proofs.Twins
import CanScript.Proofs.Silence
import CanScript.Proofs.Turns

/-! # Runs are isolated

    The log, the bus, the claims on ports and the numbers of tasks outlive a run. Still the next run
    behaves as the first one of a new session does on the same bus at the same time, whatever the
    host does from then on. -/

namespace CanScript

open Session Bench

/-! ## What becomes of a bus -/

/-- Readers and frames have come and gone on a bus, and frames that were sent stay sent. -/
def Bus.Later (b b' : Bus) : Prop :=
  ∃ channels sent, b' = { b with channels, sent } ∧ b.sent.toList <+: sent.toList

namespace Bus.Later

lemma refl (b : Bus) : b.Later b :=
  ⟨_, _, rfl, List.prefix_refl _⟩

lemma trans {b b' b'' : Bus} (h : b.Later b') (h' : b'.Later b'') : b.Later b'' := by
  obtain ⟨channels, sent, rfl, hsent⟩ := h
  obtain ⟨channels', sent', rfl, hsent'⟩ := h'
  exact ⟨channels', sent', rfl, hsent.trans hsent'⟩

lemma write (b : Bus) (now f) : b.Later (b.write now f).1 := by
  have hpushed : ∀ g, b.sent.toList <+: (b.sent.push g).toList := by
    intro g
    rw [Array.toList_push]
    exact List.prefix_append _ _
  rw [Bus.write]
  split
  · exact refl b
  · dsimp only
    split <;> exact ⟨_, _, rfl, hpushed _⟩

end Bus.Later

lemma Bench.Change.bus_later {t b b' op} (h : Change t b op b') : b.bus.Later b'.bus := by
  cases h with
  | frames => exact ⟨_, _, rfl, List.prefix_refl _⟩
  | transmit f => exact .write b.bus b.now f
  | _ => exact .refl _

namespace Session

lemma leavePorts_later (b : Bench) : b.bus.Later (leavePorts b).bus :=
  leavePorts_keeps (fun hbus _ _ => hbus.trans ⟨_, _, rfl, List.prefix_refl _⟩) (.refl b.bus)

end Session

/-! ## What a host does -/

/-- What a host does with a session. -/
inductive HostStep where
  | start (source : String) (ports : List String)
  | startProgram (program : Program) (ports : List String)
  | pause
  | resume
  | stop
  | advance (millis : Nat)
  | settleRun (passes limit : Nat)
  | inject (frames : List Frame)
  | replay (frames : List Frame) (port? : Option String) (cancelAfter? : Option Nat)
  | setFailing (port : String) (on : Bool)
  | setLoopback (on : Bool)
  | persist
  | observe
  | newEvents (reader : ReaderId)

namespace Session

/-- The session after a step of the host. -/
def apply (s : Session) : HostStep → Session
  | .start source ports => (s.start source ports).1
  | .startProgram program ports => (s.startProgram program ports).1
  | .pause => s.pause.1
  | .resume => s.resume.1
  | .stop => s.stop
  | .advance millis => s.advance millis
  | .settleRun passes limit => Machine.settleRunWithin passes s limit
  | .inject frames => (s.injectAll frames).1
  | .replay frames port? cancelAfter? => (s.replay frames port? cancelAfter?).1
  | .setFailing port on => s.setFailing port on
  | .setLoopback on => s.setLoopback on
  | .persist => s.persist
  | .observe => s.observe.1
  | .newEvents reader => (s.newEvents reader).1

/-- The session after steps of the host. -/
def applyAll (s : Session) (steps : List HostStep) : Session :=
  steps.foldl apply s

/-! ## Starts -/

lemma Twin.update {δ s s'} (h : Twin δ s s') {f f'}
    (hf : ∀ b b', b.Twin δ b' → (f b).Twin δ (f' b')) : Twin δ (s.update f) (s'.update f') :=
  ⟨hf _ _ h.bench, h.tasks⟩

namespace Twin

variable {δ : Nat} {s s' : Session} (h : Twin δ s s')

include h

lemma addForwarder (port) : Twin δ (s.addForwarder port) (s'.addForwarder port) := by
  have hreads : Twin δ (s.update fun b => { b with
      bus := (s'.bench.bus.subscribe port).1
      run := b.run.map fun run => { run with
        readers := run.readers ++ [(port, (s'.bench.bus.subscribe port).2)] } })
      (s'.update fun b => { b with
      bus := (s'.bench.bus.subscribe port).1
      run := b.run.map fun run => { run with
        readers := run.readers ++ [(port, (s'.bench.bus.subscribe port).2)] } }) := by
    refine h.update fun b b' hbench => { hbench with bus := rfl, run := ?_ }
    have hrun := hbench.run
    generalize b.run = run at hrun
    generalize b'.run = run' at hrun
    cases hrun with
    | none => exact .none
    | some id id' setting startedAt readers cancelled =>
      exact .some id id' setting startedAt _ cancelled
  rw [Session.addForwarder, Session.addForwarder]
  dsimp only
  rw [h.bench.bus]
  exact hreads.addTasks _

lemma addForwarders (ports : List String) :
    Twin δ (ports.foldl Session.addForwarder s) (ports.foldl Session.addForwarder s') := by
  induction ports generalizing s s' with
  | nil => exact h
  | cons port ports ih => exact ih (h.addForwarder port)

lemma addDispatcher (setting) : Twin δ (s.addDispatcher setting) (s'.addDispatcher setting) := by
  rw [Session.addDispatcher, Session.addDispatcher]
  split
  · exact h
  · dsimp only
    rw [h.bench.hub]
    exact (h.update fun b b' hbench => hbench.withHub _).addTasks _

end Twin

lemma beginRun_twin {δ b b'} (h : b.Kin δ b') (setting) :
    (beginRun b setting).Twin δ (beginRun b' setting) := by
  have hrun : Run.Twins (some ⟨b.runs + 1, setting, b.now, [], false⟩)
      (some ⟨b'.runs + 1, setting, b'.now, [], false⟩) := by
    rw [h.now]
    exact .some _ _ _ _ _ _
  obtain ⟨events, heq⟩ := beginRun_eq b setting
  obtain ⟨events', heq'⟩ := beginRun_eq b' setting
  rw [heq, heq']
  exact { h with
    log := h.log.besides _ _ _ _ _ _
    state := rfl
    run := hrun
    globals := rfl
    hub := congrArg (fun limits => Channel.ofCapacity (max limits.frameBuffer 1)) h.limits }

lemma launch_twin {δ} {s s' : Session} (hbench : s.bench.Kin δ s'.bench)
    (htasks : s.tasks = s'.tasks.map (Task.renumber δ)) (program ports) :
    Twin δ (s.launch program ports).1 (s'.launch program ports).1 := by
  have hbegun : ∀ setting, Twin δ ⟨beginRun s.bench setting, s.tasks⟩
      ⟨beginRun s'.bench setting, s'.tasks⟩ := fun setting =>
    ⟨beginRun_twin hbench setting, htasks⟩
  rw [launch_eq, launch_eq, settingOf, hbench.limits]
  exact (((hbegun _).addForwarders ports).addDispatcher _).addTasks _

/-! ## Whatever the host does -/

namespace Twin

variable {δ : Nat} {s s' : Session} (h : Twin δ s s')

include h

lemma isSome_run : s.bench.run.isSome = s'.bench.run.isSome := by
  rw [← isSome_setting?, h.bench.setting?, isSome_setting?]

lemma setState (run run' state) :
    Twin δ (s.update fun b => b.setState run state) (s'.update fun b => b.setState run' state) :=
  h.update fun _ _ hbench => hbench.setState run run' state

lemma pause : Twin δ s.pause.1 s'.pause.1 := by
  rw [Session.pause, Session.pause, h.bench.state]
  split
  · exact h.setState _ _ _
  · exact h

lemma resume : Twin δ s.resume.1 s'.resume.1 := by
  rw [Session.resume, Session.resume, h.bench.state]
  split
  · exact h.setState _ _ _
  · exact h

lemma drain : Twin δ s.drain s'.drain := by
  have hbench := h.settle.bench
  have hbus : (leavePorts s.settle.bench).bus = (leavePorts s'.settle.bench).bus := by
    rw [leavePorts, leavePorts, hbench.readers, hbench.bus]
  exact ⟨{ hbench with
    bus := hbus
    turn := rfl
    claims := rfl
    spawned := rfl
    run := .none }, rfl⟩

lemma retire : Twin δ s.retire s'.retire := by
  rw [Session.retire, Session.retire, h.isSome_run]
  split
  · exact (h.update fun _ _ hbench => hbench.cancel).drain
  · exact h

lemma stop : Twin δ s.stop s'.stop := by
  rw [Session.stop, Session.stop]
  dsimp only
  refine setState ?_ _ _ _
  rw [h.isSome_run]
  split
  · have hcancelled := h.update fun _ _ hbench => hbench.cancel
    rw [hcancelled.bench.state]
    -- a run that was going on is announced to be stopped
    split
    · exact (hcancelled.setState _ _ _).drain
    · exact hcancelled.drain
  · exact h

lemma ready : Twin δ s.ready s'.ready :=
  h.retire.update fun _ _ hbench => hbench.withLog hbench.log.reset

lemma startRefusal? (ports : List String) : s.startRefusal? ports = s'.startRefusal? ports := by
  rw [Session.startRefusal?, Session.startRefusal?, h.bench.state]

lemma startProgram (program : Program) (ports) :
    Twin δ (s.startProgram program ports).1 (s'.startProgram program ports).1 := by
  cases hports : s'.startRefusal? ports with
  | some e =>
    rw [startProgram_of_some ((h.startRefusal? ports).trans hports), startProgram_of_some hports]
    exact h
  | none =>
    rw [startProgram_of_none ((h.startRefusal? ports).trans hports), startProgram_of_none hports]
    exact launch_twin h.ready.bench.toKin h.ready.tasks program ports

lemma start (source : String) (ports) :
    Twin δ (s.start source ports).1 (s'.start source ports).1 := by
  by_cases hfaultless : (Program.ofSource source).2 = []
  · rw [start_of_faultless hfaultless, start_of_faultless hfaultless]
    exact h.startProgram _ ports
  · cases hports : s'.startRefusal? ports with
    | some e =>
      rw [start_of_some ((h.startRefusal? ports).trans hports), start_of_some hports]
      exact h
    | none =>
      rw [start_of_faulty ((h.startRefusal? ports).trans hports) hfaultless,
        start_of_faulty hports hfaultless]
      refine setState (h.ready.update fun _ _ hbench => ?_) _ _ _
      exact hbench.withLog (hbench.log.recordErrors _ _ _)

lemma updateBus (f : Bus → Bus) : Twin δ (s.update fun b => { b with bus := f b.bus })
    (s'.update fun b => { b with bus := f b.bus }) := by
  refine ⟨?_, h.tasks⟩
  rw [Session.update, h.bench.bus]
  exact h.bench.withBus _

lemma inject (f) : Twin δ (s.inject f).1 (s'.inject f).1 := by
  rw [Session.inject, Session.inject, h.bench.bus, h.bench.now]
  exact h.update fun _ _ hbench => hbench.withBus _

lemma injectAll (frames) : Twin δ (s.injectAll frames).1 (s'.injectAll frames).1 := by
  induction frames generalizing s s' with
  | nil => exact h
  | cons f frames ih => exact ih (h.inject f)

lemma replayAfter (port? : Option String) (limit? : Option Nat) (previous frames) :
    Twin δ (s.replayAfter port? limit? previous frames).1
      (s'.replayAfter port? limit? previous frames).1 := by
  induction frames generalizing s s' previous with
  | nil => exact h
  | cons f frames ih =>
    rw [replayAfter, replayAfter, h.bench.now]
    dsimp only
    split
    · exact h.advance _
    · refine ih (inject ?_ _) _
      split
      · exact h.advance _
      · exact h

lemma apply (step : HostStep) : Twin δ (s.apply step) (s'.apply step) := by
  cases step with
  | start source ports => exact h.start source ports
  | startProgram program ports => exact h.startProgram program ports
  | pause => exact h.pause
  | resume => exact h.resume
  | stop => exact h.stop
  | advance millis => exact h.advance millis
  | settleRun passes limit => exact h.settleRunWithin passes limit
  | inject frames => exact h.injectAll frames
  | replay frames port? cancelAfter? =>
    show Twin δ (s.replay frames port? cancelAfter?).1 (s'.replay frames port? cancelAfter?).1
    rw [replay, replay, h.bench.now]
    exact h.replayAfter _ _ _ _
  | setFailing port on => exact h.updateBus (·.setFailing port on)
  | setLoopback on => exact h.updateBus (·.setLoopback on)
  | persist | observe => exact ⟨h.bench.withLog (h.bench.log.besides _ _ _ _ _ _), h.tasks⟩
  | newEvents reader => exact ⟨h.bench.withLog (h.bench.log.besides _ _ _ _ _ _), h.tasks⟩

lemma applyAll (steps) : Twin δ (s.applyAll steps) (s'.applyAll steps) := by
  induction steps generalizing s s' with
  | nil => exact h
  | cons step steps ih => exact ih (h.apply step)

end Twin

/-! ## What a run leaves behind -/

section

variable {limits : RunConfig} {bus : Bus} {writeTime : Nat} {s : Session}

lemma Reachable.unclaimed (h : Reachable limits bus writeTime s) (hnone : s.bench.run = none) :
    s.bench.claims = [] := by
  refine h.invariant (P := fun s => s.bench.run = none → s.bench.claims = []) (fun _ => rfl) ?_
    (fun _ _ _ => rfl) (fun _ _ _ _ _ hs => hs) ?_ hnone
  · intro who s s' hreachable hstep hs hnone
    have hbefore := (run_eq_none_iff s.bench).mp
      (hstep.setting? ▸ (run_eq_none_iff s'.bench).mpr hnone)
    -- a claim is made by a task, and there is none
    cases hstep with
    | move before task behind => exact absurd (hreachable.sound.bare hbefore).tasks (by simp)
    | spawn =>
      rw [startTasks_addTasks]
      exact hs hbefore
    | external hexternal => exact hexternal.apart.claims.trans (hs hbefore)
  · intro s hbare hs program ports hnone
    obtain ⟨run, hrun, -⟩ := (launch_launched hbare program ports).run
    cases hrun.symm.trans hnone

lemma isCancelled_of_inactive (hs : s.bench.Consistent)
    (hinactive : s.bench.state.isActive = false) : s.bench.isCancelled := by
  rw [isCancelled]
  cases hrun : s.bench.run with
  | none => rfl
  | some run =>
    refine Bool.not_eq_false _ |>.mp fun hgoing => ?_
    cases hinactive.symm.trans (hs.active.mpr ⟨run, hrun, hgoing⟩)

lemma retire_now (s : Session) : s.retire.bench.now = s.bench.now := by
  rw [retire]
  split
  · exact (settleWithin_moves passLimit (s.update cancel)).keeps
      (P := fun b => b.now = s.bench.now) (fun _ _ _ _ hchange hb => hchange.now_eq.trans hb)
      (fun _ _ hb => hb) rfl
  · rfl

lemma retire_later (s : Session) : s.bench.bus.Later s.retire.bench.bus := by
  rw [retire]
  split
  · refine Bus.Later.trans ?_ (leavePorts_later _)
    exact (settleWithin_moves passLimit (s.update cancel)).keeps
      (P := fun b => s.bench.bus.Later b.bus) (fun _ _ _ _ hchange hb => hb.trans hchange.bus_later)
      (fun _ _ hb => hb) (.refl _)
  · exact .refl _

lemma Reachable.retire_bus (h : Reachable limits bus writeTime s)
    (hinactive : s.bench.state.isActive = false) (hwaiting : s.isWaiting) :
    s.retire.bench.bus = (leavePorts s.bench).bus := by
  obtain ⟨hspawned, hwaits⟩ := isWaiting_iff hwaiting
  have hcancelled := isCancelled_of_inactive h.sound.consistent hinactive
  -- in a run that was told to end no request has to wait
  have htasks : s.tasks = [] := by
    refine List.eq_nil_iff_forall_not_mem.mpr fun task hmem => ?_
    obtain ⟨op, next, -, hwait⟩ := hwaits task hmem
    obtain ⟨b', reply, hanswer, -⟩ := perform_calledOff hcancelled task.id op
    cases hwait.symm.trans hanswer
  rw [retire]
  split
  · rw [drain_eq]
    show (leavePorts (Machine.settleWithin _ passLimit).bench).bus = _
    rw [settleWithin_of_bare (s := s.update cancel) htasks hspawned]
    exact congrArg (List.foldl _ s.bench.bus) s.bench.cancel_readers
  · next hnone =>
      rw [leavePorts, Option.not_isSome_iff_eq_none.mp hnone]
      rfl

lemma retire_constants (s : Session) : s.retire.bench.constants = s.bench.constants := by
  rw [retire]
  split
  · exact (settleWithin_moves passLimit (s.update cancel)).keeps
      (P := fun b => b.constants = s.bench.constants)
      (fun _ _ _ _ hchange hb => hchange.constants.trans hb) (fun _ _ hb => hb) rfl
  · rfl

lemma Reachable.retire_free (h : Reachable limits bus writeTime s) :
    s.retire.bench.turn = none ∧ s.retire.bench.claims = [] := by
  rw [retire]
  split
  · exact ⟨rfl, rfl⟩
  · next hrun =>
      have hnone := Option.not_isSome_iff_eq_none.mp hrun
      exact ⟨h.disciplined.turn_of_bare (h.sound.bare hnone), h.unclaimed hnone⟩

/-! ## A start in a new session -/

/-- A new session on the bus of another one, at the same time, once the run of that one is cleared
    away.  Random numbers come from elsewhere, so those to come are the same for both. -/
def fresh (limits : RunConfig) (writeTime : Nat) (s : Session) : Session :=
  (ofLimits limits s.retire.bench.bus writeTime).update fun b =>
    { b with now := s.bench.now, seed := s.retire.bench.seed }

lemma Reachable.ready_kin (h : Reachable limits bus writeTime s) :
    s.ready.bench.Kin s.ready.bench.nextTask (fresh limits writeTime s).ready.bench := by
  have hconstants := (retire_constants s).trans h.constants
  obtain ⟨hturn, hclaims⟩ := h.retire_free
  exact {
    limits := congrArg (·.1) hconstants
    bus := rfl
    log := ⟨congrArg (·.2.2.1) hconstants, congrArg (·.2.2.2) hconstants, rfl, rfl, rfl⟩
    writeTime := congrArg (·.2.1) hconstants
    now := retire_now s
    turn := hturn
    claims := hclaims
    spawned := (ready_bare h.sound).1.spawned
    nextTask := (Nat.zero_add _).symm
    seed := rfl }

/-- What a host reads from a session: how it stands, the two logs, the variables and the frames that
    were sent. -/
structure SameView (s s' : Session) : Prop where
  state : s.bench.state = s'.bench.state
  output : s.bench.log.output = s'.bench.log.output
  errors : s.bench.log.errors = s'.bench.log.errors
  errorCount : s.bench.log.errorCount = s'.bench.log.errorCount
  globals : s.bench.globals = s'.bench.globals
  sent : s.bench.bus.sent = s'.bench.bus.sent

lemma Twin.view {δ s s'} (h : Twin δ s s') : SameView s s' :=
  ⟨h.bench.state, h.bench.log.output, h.bench.log.errors, h.bench.log.errorCount, h.bench.globals,
    congrArg Bus.sent h.bench.bus⟩

/-- Two starts are accepted, and a host reads the same from then on, whatever it does. -/
structure SameRun (r r' : Session × Except SessionError RunId) : Prop where
  accepted : ∃ run run', r.2 = .ok run ∧ r'.2 = .ok run'
  view : ∀ steps, SameView (r.1.applyAll steps) (r'.1.applyAll steps)

/-- How a run is cleared away.  Its tasks end by themselves, so that none has to be cut off.  The
    bus is the same, apart from frames and readers, and frames that were sent stay sent.  The
    readers that are left were there before the first run. If no task of the run could go on, then
    the run has left its ports, and nothing else has happened to the bus. -/
structure HandsOver (bus : Bus) (s : Session) : Prop where
  ended : s.bench.spawned = [] → Settles s.callOff
  later : s.bench.bus.Later s.retire.bench.bus
  readers : ∀ port, ∀ r ∈ s.retire.bench.bus.readerIds port,
    r ∈ bus.readerIds port ∧ (port, r) ∉ s.bench.readers
  waiting : s.isWaiting = true → s.retire.bench.bus = (leavePorts s.bench).bus

lemma Reachable.startProgram_same (h : Reachable limits bus writeTime s) {ports}
    (hports : s.startRefusal? ports = none) (program : Program) :
    SameRun (s.startProgram program ports)
      ((fresh limits writeTime s).startProgram program ports) := by
  have hfresh : (fresh limits writeTime s).startRefusal? ports = none := by
    refine startRefusal?_eq_none rfl fun hnil => ?_
    rw [hnil, startRefusal?, inactive_of_startRefusal? hports] at hports
    cases hports
  rw [startProgram_of_none hports, startProgram_of_none hfresh]
  refine ⟨⟨_, _, rfl, rfl⟩, fun steps => ?_⟩
  exact ((launch_twin h.ready_kin (ready_bare h.sound).1.tasks program ports).applyAll steps).view

/-- Runs are isolated from each other.  Whatever has become of a session, if a run can be started
    then a start does the same as in a new session on the same bus at the same time, whatever the
    host does from then on. -/
theorem runs_isolated (hs : Reachable limits bus writeTime s) {ports : List String}
    (hports : s.startRefusal? ports = none) :
    HandsOver bus s ∧
    (∀ program, SameRun (s.startProgram program ports)
      ((fresh limits writeTime s).startProgram program ports)) ∧
    ∀ source, (Program.ofSource source).2 = [] →
      SameRun (s.start source ports) ((fresh limits writeTime s).start source ports) := by
  have hinactive := inactive_of_startRefusal? hports
  refine ⟨⟨hs.settles.2, retire_later s, fun port r hr => ?_, hs.retire_bus hinactive⟩,
    hs.startProgram_same hports, fun source hfaultless => ?_⟩
  · rw [retire_eq hinactive] at hr
    exact cleared_readerIds hs.attended hr
  · rw [start_of_faultless hfaultless, start_of_faultless hfaultless]
    exact hs.startProgram_same hports _

end

/-! ## A run after one that has failed -/

/-- A script that sends and prints a variable, and fails to send and to print another one. -/
def failingScript : String :=
  "var total = 5\nsend(0x100, total)\nprint(total)\nsend(0x100, missing)\nprint(missing)"

/-- The session after the script has ended by itself, when only one of its two errors was kept. -/
def endedSession : Session :=
  Machine.advance ((ofLimits { maxErrorLog := 1 } (.ofCapacity 16)
    3).start failingScript ["can0"]).1
    20

/-- The run has left a variable, a frame and two errors.  When the script is started again, without
    a stop, all is as in a new session. -/
theorem runs_isolated_ended :
    (endedSession.bench.state = .stopped ∧ endedSession.bench.log.errorCount = 2 ∧
      endedSession.bench.globals.length = 1 ∧ endedSession.bench.bus.sent.size = 1) ∧
    SameRun (endedSession.start failingScript ["can0"])
      ((fresh { maxErrorLog := 1 } 3 endedSession).start failingScript ["can0"]) := by
  have hreachable : Reachable { maxErrorLog := 1 } (.ofCapacity 16) 3 endedSession :=
    (Reachable.init.start failingScript ["can0"]).steps (advance_steps _ 20)
  have hended : endedSession.bench.state = .stopped ∧ endedSession.bench.log.errorCount = 2 ∧
      endedSession.bench.globals.length = 1 ∧ endedSession.bench.bus.sent.size = 1 := by
    decide +kernel
  have hports : endedSession.startRefusal? ["can0"] = none := by
    refine startRefusal?_eq_none ?_ (List.cons_ne_nil _ _)
    rw [hended.1]
    rfl
  have hfaultless : (Program.ofSource failingScript).2 = [] :=
    List.isEmpty_iff.mp (by decide +kernel)
  exact ⟨hended, (runs_isolated hreachable hports).2.2 failingScript hfaultless⟩

end Session

end CanScript
