import CanScript.Proofs.Reserve

/-! # How a run opens

    A run begins with a task for each entry of its list of ports, which has a reader of its own on
    that port, a task for the hub if there are receive handlers, one for each interval handler and
    one for the main sequence. -/

namespace CanScript

open List

/-! ## Numbers of readers -/

def Channel.Regular {α : Type} (c : Channel α) : Prop :=
  ∀ p ∈ c.readers, p.1 < c.nextReader

namespace Channel.Regular

variable {α : Type} {c c' : Channel α} {r : ReaderId}

lemma subscribe (h : c.Regular) : c.subscribe.1.Regular := by
  intro p hp
  rcases mem_append.mp hp with hold | hnew
  · exact Nat.lt_succ_of_lt (h p hold)
  · rw [mem_singleton.mp hnew]
    exact Nat.lt_succ_self _

lemma unsubscribe (h : c.Regular) (r) : (c.unsubscribe r).Regular :=
  fun p hp => h p (mem_filter.mp hp).1

lemma receive? {got} (h : c.Regular) (hgot : c.receive? r = some (got, c')) : c'.Regular := by
  unfold Channel.receive? at hgot
  split at hgot
  · cases hgot
  · obtain ⟨⟨got', place⟩, -, heq⟩ := Option.map_eq_some_iff.mp hgot
    obtain ⟨-, rfl⟩ := Prod.mk.inj heq
    intro p hp
    obtain ⟨q, hq, rfl⟩ := mem_map.mp hp
    split
    · next hr =>
        rw [← beq_iff_eq.mp hr]
        exact h q hq
    · exact h q hq

lemma place?_subscribe (h : c.Regular) :
    c.subscribe.1.place? c.nextReader = some c.history.size := by
  have hnone : c.readers.lookup c.nextReader = none := by
    refine lookup_eq_none_iff.mpr fun p hp => ?_
    exact bne_iff_ne.mpr (h p hp).ne'
  show (c.readers ++ [(c.nextReader, c.history.size)]).lookup c.nextReader = _
  rw [lookup_append, hnone]
  simp

end Channel.Regular

def Bus.Regular (b : Bus) : Prop :=
  ∀ port, (b.channel port).Regular

namespace Bus.Regular

variable {b : Bus} {port : String}

lemma ofCapacity (capacity : Nat) : (Bus.ofCapacity capacity).Regular :=
  fun _ => forall_mem_nil _

lemma setChannel (h : b.Regular) {c} (hc : c.Regular) : (b.setChannel port c).Regular := by
  intro other
  by_cases hport : other = port
  · subst hport
    rw [channel_setChannel_self]
    exact hc
  · rw [channel_setChannel_ne b hport]
    exact h other

lemma subscribe (h : b.Regular) (port : String) : (b.subscribe port).1.Regular :=
  h.setChannel (h port).subscribe

lemma unsubscribe (h : b.Regular) (port r) : (b.unsubscribe port r).Regular :=
  h.setChannel ((h port).unsubscribe r)

lemma deliver (h : b.Regular) (f : Frame) : (b.deliver f).Regular :=
  h.setChannel (h f.port)

lemma write (h : b.Regular) (now f) : (b.write now f).1.Regular := by
  unfold Bus.write
  split
  · exact h
  · dsimp only
    split
    · exact deliver (b := { b with sent := _ }) h _
    · exact h

lemma change {b : Bench} {op bus} (h : b.bus.Regular)
    (hchange : Bench.BusChange b op bus) : bus.Regular := by
  cases hchange with
  | nothing => exact h
  | leave port r => exact h.unsubscribe port r
  | got _ hgot =>
    obtain ⟨⟨_, c⟩, hc, heq⟩ := Option.map_eq_some_iff.mp hgot
    cases heq
    exact h.setChannel ((h _).receive? hc)
  | transmit f => exact h.write _ f

end Bus.Regular

variable {limits : RunConfig} {capacity writeTime : Nat}

namespace Session

variable {s : Session}

lemma addForwarder_bus (s : Session) (port) :
    (s.addForwarder port).bench.bus = (s.bench.bus.subscribe port).1 := rfl

lemma addForwarders_regular (h : s.bench.bus.Regular) (ports : List String) :
    (ports.foldl addForwarder s).bench.bus.Regular :=
  foldlRecOn (motive := fun s => s.bench.bus.Regular) ports addForwarder h
    fun _ hs port _ => hs.subscribe port

lemma clear_regular (h : s.bench.bus.Regular) : (clear s).bench.bus.Regular :=
  leavePorts_keeps (fun hbus port r => hbus.unsubscribe port r) h

lemma Reachable.regular (h : Reachable limits (.ofCapacity capacity) writeTime s) :
    s.bench.bus.Regular := by
  refine h.invariant (P := fun s => s.bench.bus.Regular) (.ofCapacity capacity) ?_ ?_
    (fun _ _ _ _ _ hs => hs) ?_
  · intro who s s' _ hstep hs
    refine hstep.keeps (P := fun b => b.bus.Regular) (fun _ _ _ hchange => ?_) (fun _ => hs)
      fun b hb => ?_
    · exact hs.change hchange.traffic.2
    · cases hb with
      | frame f => exact hs.deliver f
      | _ => exact hs
  · exact fun s hs => clear_regular hs
  · intro s _ hs program ports
    obtain ⟨events, heq⟩ := beginRun_eq s.bench (s.settingOf program ports)
    have hbegun : (beginRun s.bench (s.settingOf program ports)).bus.Regular := by
      rw [heq]
      exact hs
    rw [launch_eq]
    show (addDispatcher _ _).bench.bus.Regular
    rw [addDispatcher]
    split <;> exact addForwarders_regular hbegun ports

end Session

/-! ## Forwarders -/

/-- A task that forwards the frames of a port, and its reader. -/
structure Line where
  task : TaskId
  port : String
  reader : ReaderId

def Line.toTask (line : Line) : Task :=
  ⟨line.task, forwarder line.port line.reader⟩

namespace Session

/-- A session to which forwarders were added. -/
structure Connected (s : Session) (lines : List Line) (s' : Session) : Prop where
  tasks : s'.tasks = s.tasks ++ lines.map Line.toTask
  hub : s'.bench.hub = s.bench.hub
  history : ∀ port, (s'.bench.bus.channel port).history = (s.bench.bus.channel port).history
  known : ∀ port, (s.bench.bus.channel port).nextReader ≤ (s'.bench.bus.channel port).nextReader
  places : ∀ port r, r < (s.bench.bus.channel port).nextReader →
    (s'.bench.bus.channel port).place? r = (s.bench.bus.channel port).place? r
  fresh : ∀ line ∈ lines, (s.bench.bus.channel line.port).nextReader ≤ line.reader
  given : ∀ line ∈ lines, line.reader < (s'.bench.bus.channel line.port).nextReader
  ready : ∀ line ∈ lines, (s'.bench.bus.channel line.port).place? line.reader
    = some (s'.bench.bus.channel line.port).history.size
  distinct : (lines.map fun line => (line.port, line.reader)).Nodup

variable {s' : Session} {ports : List String}

namespace Connected

lemma refl (s) : Connected s [] s where
  tasks := (append_nil _).symm
  hub := rfl
  history _ := rfl
  known _ := le_rfl
  places _ _ _ := rfl
  fresh := forall_mem_nil _
  given := forall_mem_nil _
  ready := forall_mem_nil _
  distinct := nodup_nil

lemma trans {s s'' lines lines'} (h : Connected s lines s')
    (h' : Connected s' lines' s'') : Connected s (lines ++ lines') s'' where
  tasks := by rw [h'.tasks, h.tasks, append_assoc, map_append]
  hub := h'.hub.trans h.hub
  history port := (h'.history port).trans (h.history port)
  known port := (h.known port).trans (h'.known port)
  places port r hr :=
    (h'.places port r (hr.trans_le (h.known port))).trans (h.places port r hr)
  fresh := forall_mem_append.mpr ⟨h.fresh, fun line hmem =>
    (h.known line.port).trans (h'.fresh line hmem)⟩
  given := forall_mem_append.mpr ⟨fun line hmem =>
    (h.given line hmem).trans_le (h'.known line.port), h'.given⟩
  ready := by
    refine forall_mem_append.mpr ⟨fun line hmem => ?_, h'.ready⟩
    rw [h'.places _ _ (h.given line hmem), h'.history]
    exact h.ready line hmem
  distinct := by
    rw [map_append]
    refine nodup_append.mpr ⟨h.distinct, h'.distinct, ?_⟩
    -- the readers of the later ones were not given out before
    intro p hp q hq heq
    obtain ⟨line, hline, rfl⟩ := mem_map.mp hp
    obtain ⟨line', hline', rfl⟩ := mem_map.mp hq
    obtain ⟨hport, hreader⟩ := Prod.mk.inj heq
    have hgiven := h.given line hline
    rw [hport, hreader] at hgiven
    exact absurd (h'.fresh line' hline') hgiven.not_ge

/-- One forwarder. -/
lemma add {s} (h : s.bench.bus.Regular) (port) :
    Connected s [⟨s.bench.nextTask, port, (s.bench.bus.channel port).nextReader⟩]
      (s.addForwarder port) := by
  have hchannel : ((s.addForwarder port).bench.bus.channel port)
      = (s.bench.bus.channel port).subscribe.1 := by
    rw [addForwarder_bus, Bus.subscribe]
    exact Bus.channel_setChannel_self _ _ _
  have hother : ∀ other, other ≠ port →
      (s.addForwarder port).bench.bus.channel other = s.bench.bus.channel other := by
    intro other hne
    rw [addForwarder_bus, Bus.subscribe]
    exact Bus.channel_setChannel_ne _ hne _
  refine ⟨rfl, rfl, fun other => ?_, fun other => ?_, fun other r hr => ?_, ?_, ?_, ?_,
    nodup_singleton _⟩
  · by_cases hport : other = port
    · rw [hport, hchannel]
      rfl
    · rw [hother other hport]
  · by_cases hport : other = port
    · rw [hport, hchannel]
      exact Nat.le_succ _
    · exact (congrArg Channel.nextReader (hother other hport).symm).le
  · by_cases hport : other = port
    · subst hport
      rw [hchannel]
      exact Channel.place?_subscribe hr
    · rw [hother other hport]
  · exact forall_mem_singleton.mpr le_rfl
  · refine forall_mem_singleton.mpr ?_
    rw [hchannel]
    exact Nat.lt_succ_self _
  · refine forall_mem_singleton.mpr ?_
    rw [hchannel]
    exact (h port).place?_subscribe

end Connected

lemma addForwarders_connected {s} (h : s.bench.bus.Regular) (ports) :
    ∃ lines, lines.map Line.port = ports ∧ Connected s lines (ports.foldl addForwarder s) := by
  induction ports generalizing s with
  | nil => exact ⟨[], rfl, .refl s⟩
  | cons port ports ih =>
    obtain ⟨lines, hports, hconnected⟩ := ih (s := s.addForwarder port) (h.subscribe port)
    refine ⟨_ :: lines, ?_, (Connected.add h port).trans hconnected⟩
    rw [map_cons, hports]

/-! ## All tasks -/

/-- What a task of a run that has just begun is there for: it is one of the forwarders, or the
    dispatcher, or it executes a part of the script. -/
inductive Part (setting : Setting) (lines : List Line) (d : TaskId) : Task → Prop where
  | forwards {line : Line} : line ∈ lines → Part setting lines d line.toTask
  | dispatches : setting.program.receiveHandlers ≠ [] →
      Part setting lines d ⟨d, dispatcher setting 0⟩
  | executes {task : Task} : task.id ≠ d → (task.rest = mainTask setting ∨
        ∃ i, ∃ h ∈ setting.program.intervalHandlers, task.rest = intervalTask setting i h) →
      Part setting lines d task

/-- The tasks and readers that a run begins with: a forwarder for each entry of the list of ports,
    at the end of what has arrived there, and a dispatcher with a reader of the hub, which is empty.
    -/
structure Opened (setting : Setting) (lines : List Line) (d : TaskId) (s : Session) : Prop where
  current : s.bench.setting? = some setting
  ports : lines.map Line.port = setting.ports
  forwarders : ∀ line ∈ lines, line.toTask ∈ s.tasks
  others : ∀ line ∈ lines, line.task ≠ d
  numbers : (lines.map Line.task).Nodup
  readers : (lines.map fun line => (line.port, line.reader)).Nodup
  ready : ∀ line ∈ lines, (s.bench.bus.channel line.port).place? line.reader
    = some (s.bench.bus.channel line.port).history.size
  parts : ∀ task ∈ s.tasks, Part setting lines d task
  hub : s.bench.hub.history = #[]
  dispatches : setting.program.receiveHandlers ≠ [] → ⟨d, dispatcher setting 0⟩ ∈ s.tasks ∧
    s.bench.hub.place? 0 = some 0 ∧ 0 < s.bench.hub.nextReader

lemma Opened.addMain {setting lines d s}
    (h : Opened setting lines d s) (horderly : s.Orderly) (hd : d < s.bench.nextTask ∨
      (s.addTasks (intervalTasks setting ++ [mainTask setting])).bench.nextTask ≤ d) :
    Opened setting lines d (s.addTasks (intervalTasks setting ++ [mainTask setting])) := by
  refine { h with
    forwarders := fun line hline => mem_append_left _ (h.forwarders line hline)
    parts := fun task hmem => ?_
    dispatches := fun hhandlers => ?_ }
  · rcases mem_addTasks hmem with hold | ⟨hnew, hrest⟩
    · exact h.parts task hold
    · have hbelow := (horderly.addTasks _).below _ (mem_map_of_mem hmem)
      have hne : task.id ≠ d := by
        rcases hd with hbefore | hbehind
        · exact (hbefore.trans_le hnew).ne'
        · exact (hbelow.trans_le hbehind).ne
      refine .executes hne ?_
      rcases mem_append.mp hrest with hinterval | hmain
      · obtain ⟨⟨handler, i⟩, hhandler, heq⟩ := mem_map.mp hinterval
        exact .inr ⟨i, handler, fst_mem_of_mem_zipIdx hhandler, heq.symm⟩
      · exact .inl (mem_singleton.mp hmain)
  · obtain ⟨hmem, hplace⟩ := h.dispatches hhandlers
    exact ⟨mem_append_left _ hmem, hplace⟩

/-- A run that has its forwarders, and no other task yet. -/
structure Wired (setting : Setting) (lines : List Line) (s : Session) : Prop where
  launched : Launched setting s
  ports : lines.map Line.port = setting.ports
  tasks : s.tasks = lines.map Line.toTask
  readers : (lines.map fun line => (line.port, line.reader)).Nodup
  ready : ∀ line ∈ lines, (s.bench.bus.channel line.port).place? line.reader
    = some (s.bench.bus.channel line.port).history.size
  hub : ∃ capacity, s.bench.hub = .ofCapacity capacity

namespace Wired

variable {setting : Setting} {lines : List Line} {s : Session} (h : Wired setting lines s)

include h

lemma current : s.bench.setting? = some setting := by
  obtain ⟨run, hrun, -, rfl⟩ := h.launched.run
  rw [Bench.setting?, hrun]
  rfl

lemma numbers : (lines.map Line.task).Nodup := by
  have hdistinct := h.launched.orderly.distinct
  rw [h.tasks, map_map] at hdistinct
  exact hdistinct

lemma below : ∀ line ∈ lines, line.task < s.bench.nextTask := by
  intro line hline
  refine h.launched.orderly.below _ ?_
  rw [h.tasks, map_map]
  exact mem_map_of_mem hline

lemma parts (d) : ∀ task ∈ s.tasks, Part setting lines d task := by
  intro task hmem
  rw [h.tasks] at hmem
  obtain ⟨line, hline, rfl⟩ := mem_map.mp hmem
  exact .forwards hline

lemma opened (hhandlers : setting.program.receiveHandlers = [])
    {d} (hd : s.bench.nextTask ≤ d) : Opened setting lines d s where
  current := h.current
  ports := h.ports
  forwarders line hline := h.tasks ▸ mem_map_of_mem hline
  others line hline := ((h.below line hline).trans_le hd).ne
  numbers := h.numbers
  readers := h.readers
  ready := h.ready
  parts := h.parts d
  hub := by
    obtain ⟨capacity, hhub⟩ := h.hub
    rw [hhub]
    rfl
  dispatches hne := absurd hhandlers hne

/-- With receive handlers there is one, which has the first reader of the hub. -/
lemma addDispatcher_opened (hhandlers : setting.program.receiveHandlers ≠ []) :
    Opened setting lines s.bench.nextTask (s.addDispatcher setting) := by
  obtain ⟨capacity, hhub⟩ := h.hub
  have hadd : s.addDispatcher setting
      = (s.update fun b => { b with hub := s.bench.hub.subscribe.1 }).addTasks
        [dispatcher setting 0] := by
    rw [addDispatcher, if_neg (by simpa using hhandlers), hhub]
    rfl
  rw [hadd]
  exact {
    current := h.current
    ports := h.ports
    forwarders := fun line hline =>
      mem_append_left _ (h.tasks ▸ mem_map_of_mem hline)
    others := fun line hline => (h.below line hline).ne
    numbers := h.numbers
    readers := h.readers
    ready := h.ready
    parts := fun task hmem => by
      rcases mem_append.mp hmem with hline | hdispatcher
      · exact h.parts _ task hline
      · rw [mem_singleton.mp hdispatcher]
        exact .dispatches hhandlers
    hub := by
      show s.bench.hub.subscribe.1.history = _
      rw [hhub]
      rfl
    dispatches := fun _ => by
      refine ⟨mem_append_right _ (mem_singleton.mpr rfl), ?_⟩
      show s.bench.hub.subscribe.1.place? 0 = _ ∧ 0 < s.bench.hub.subscribe.1.nextReader
      rw [hhub]
      exact ⟨rfl, Nat.one_pos⟩ }

end Wired

variable {s : Session}

lemma addForwarders_wired (hs : s.Bare) (hbus : s.bench.bus.Regular) (program ports) :
    ∃ lines, Wired (s.settingOf program ports) lines
      (ports.foldl addForwarder ⟨beginRun s.bench (s.settingOf program ports), s.tasks⟩) := by
  obtain ⟨events, hbegin⟩ := beginRun_eq s.bench (s.settingOf program ports)
  have hbegun : Launched (s.settingOf program ports)
      ⟨beginRun s.bench (s.settingOf program ports), s.tasks⟩ := by
    rw [hbegin, hs.tasks]
    exact ⟨rfl, ⟨_, rfl, rfl, rfl⟩, hs.spawned, ⟨nodup_nil, forall_mem_nil _⟩, forall_mem_nil _⟩
  obtain ⟨lines, hports, hconnected⟩ :=
    addForwarders_connected (s := ⟨beginRun s.bench (s.settingOf program ports), s.tasks⟩)
      (by rw [hbegin]; exact hbus) ports
  refine ⟨lines, hbegun.addForwarders ports, hports, ?_, hconnected.distinct, hconnected.ready,
    max s.bench.limits.frameBuffer 1, hconnected.hub.trans (by rw [hbegin])⟩
  rw [hconnected.tasks]
  show s.tasks ++ _ = _
  rw [hs.tasks, nil_append]

lemma launch_opened (hs : s.Bare) (hbus : s.bench.bus.Regular) (program ports) :
    ∃ lines d, Opened (s.settingOf program ports) lines d (s.launch program ports).1 := by
  obtain ⟨lines, hwired⟩ := addForwarders_wired hs hbus program ports
  rw [launch_eq]
  generalize s.settingOf program ports = setting at *
  generalize ports.foldl addForwarder ⟨beginRun s.bench setting, s.tasks⟩ = s1 at *
  by_cases hhandlers : setting.program.receiveHandlers = []
  · have hnone : s1.addDispatcher setting = s1 := by
      rw [addDispatcher, hhandlers]
      rfl
    rw [hnone]
    -- no task has the number that comes after all others
    exact ⟨lines, _, (hwired.opened hhandlers (Nat.le_add_right _ _)).addMain
      hwired.launched.orderly (.inr le_rfl)⟩
  · have hnext : s1.bench.nextTask < (s1.addDispatcher setting).bench.nextTask := by
      rw [addDispatcher, if_neg (by simpa using hhandlers)]
      exact Nat.lt_succ_self _
    exact ⟨lines, _, (hwired.addDispatcher_opened hhandlers).addMain
      hwired.launched.addDispatcher.orderly (.inl hnext)⟩

lemma Reachable.ready_regular (h : Reachable limits (.ofCapacity capacity) writeTime s)
    (hports : s.startRefusal? ports = none) : s.ready.bench.bus.Regular := by
  show s.retire.bench.bus.Regular
  rw [retire_eq (inactive_of_startRefusal? hports)]
  split
  · have hcalled := h.step (.external (.callOff s))
    exact clear_regular (hcalled.steps (settleWithin_steps _ _)).regular
  · exact h.regular

lemma Reachable.startProgram_launch (h : Reachable limits (.ofCapacity capacity) writeTime s)
    {program id} (hstart : s.startProgram program ports = (s', .ok id)) :
    s' = (s.ready.launch program ports).1 ∧ s.ready.Bare ∧ s.ready.bench.bus.Regular ∧
      s.ready.settingOf program ports = ⟨program, ports, limits⟩ := by
  have hreachable := h.startProgram program ports
  rw [hstart] at hreachable
  cases hports : s.startRefusal? ports with
  | some e =>
    rw [startProgram_of_some hports] at hstart
    cases hstart
  | none =>
    rw [startProgram_of_none hports] at hstart
    cases hstart
    have hconstants := hreachable.constants
    rw [launch_constants] at hconstants
    refine ⟨rfl, (ready_bare h.sound).1, h.ready_regular hports, ?_⟩
    rw [settingOf, show s.ready.bench.limits = limits from congrArg Prod.fst hconstants]

lemma startProgram_opened (h : Reachable limits (.ofCapacity capacity) writeTime s)
    {program id} (hstart : s.startProgram program ports = (s', .ok id)) :
    Reachable limits (.ofCapacity capacity) writeTime s' ∧
    ∃ lines d, Opened ⟨program, ports, limits⟩ lines d s' := by
  have hreachable := h.startProgram program ports
  rw [hstart] at hreachable
  obtain ⟨hlaunch, hbare, hregular, hsetting⟩ := h.startProgram_launch hstart
  rw [← hsetting]
  exact ⟨hreachable, hlaunch ▸ launch_opened hbare hregular program ports⟩

end Session

end CanScript
