import CanScript.Proofs.Ending

/-! # Silence after a stop

    When a stop has returned nothing of the run is left: its tasks have ended, and its readers have
    left the ports.  So whatever time passes and whatever frames arrive, nothing is sent, printed,
    reported, announced or changed until a script is started again. -/

namespace CanScript

open List Bench

/-! ## The readers of a run -/

variable {port : String} {r : ReaderId} {bus : Bus}

namespace Bus

lemma readerIds_unsubscribe_ne {b : Bus} {other r'}
    (h : r' ∈ (b.unsubscribe port r).readerIds other) : (other, r') ≠ (port, r) := by
  rintro heq
  cases heq
  rw [readerIds, unsubscribe, channel_setChannel_self] at h
  obtain ⟨p, hp, hid⟩ := mem_map.mp h
  exact absurd hid (bne_iff_ne.mp (mem_filter.mp hp).2)

lemma readerIds_subscribe {b : Bus} {other} (h : r ∈ (b.subscribe port).1.readerIds other) :
    r ∈ b.readerIds other ∨ (other, r) = (port, (b.subscribe port).2) := by
  by_cases hport : other = port
  · subst hport
    rw [readerIds, subscribe, channel_setChannel_self] at h
    rcases mem_append.mp (map_append ▸ h) with hold | hnew
    · exact .inl hold
    · rw [mem_singleton.mp hnew]
      exact .inr rfl
  · rw [readerIds, subscribe, channel_setChannel_ne b hport] at h
    exact .inl h

end Bus

namespace Bench

/-- The readers that the run has on its ports. -/
def readers (b : Bench) : List (String × ReaderId) :=
  (b.run.map (·.readers)).getD []

lemma cancel_readers (b : Bench) : b.cancel.readers = b.readers := by
  rw [readers, readers, cancel]
  cases b.run with
  | none => rfl
  | some run => rfl

lemma Change.readers {t b b' op} (h : Change t b op b') : b'.readers = b.readers := by
  cases h with
  | finish => exact b.cancel_readers
  | _ => rfl

lemma unsubscribe_all (readers : List (String × ReaderId))
    (h : r ∈ (readers.foldl (fun bus p => bus.unsubscribe p.1 p.2) bus).readerIds port) :
    r ∈ bus.readerIds port ∧ (port, r) ∉ readers := by
  induction readers generalizing bus with
  | nil => exact ⟨h, not_mem_nil⟩
  | cons p readers ih =>
    obtain ⟨hmem, hrest⟩ := ih h
    refine ⟨Bus.readerIds_unsubscribe hmem, fun hp => ?_⟩
    rcases mem_cons.mp hp with heq | hp
    · exact Bus.readerIds_unsubscribe_ne hmem heq
    · exact hrest hp

end Bench

namespace Session

variable {s s' : Session}

lemma clear_readerIds (h : r ∈ (clear s).bench.bus.readerIds port) :
    r ∈ s.bench.bus.readerIds port ∧ (port, r) ∉ s.bench.readers :=
  unsubscribe_all s.bench.readers h

/-- The readers of the run are the same, and no port has a new reader. -/
structure KeepsReaders (s s' : Session) : Prop where
  readers : s'.bench.readers = s.bench.readers
  noneNew : ∀ port r, r ∈ s'.bench.bus.readerIds port → r ∈ s.bench.bus.readerIds port

lemma KeepsReaders.trans {s''} (h : KeepsReaders s s') (h' : KeepsReaders s' s'') :
    KeepsReaders s s'' :=
  ⟨h'.readers.trans h.readers, fun port r hr => h.noneNew port r (h'.noneNew port r hr)⟩

lemma Step.keepsReaders {who} (h : Step who s s') : KeepsReaders s s' := by
  suffices hkeeps : s'.bench.readers = s.bench.readers ∧
      ∀ port r, r ∈ s'.bench.bus.readerIds port → r ∈ s.bench.bus.readerIds port from
    ⟨hkeeps.1, hkeeps.2⟩
  refine h.keeps (P := fun b => b.readers = s.bench.readers ∧
      ∀ port r, r ∈ b.bus.readerIds port → r ∈ s.bench.bus.readerIds port)
    (fun _ _ _ hchange => ⟨hchange.readers, fun _ _ => hchange.readerIds⟩)
    (fun _ => ⟨rfl, fun _ _ hr => hr⟩) fun b hb => ?_
  cases hb with
  | callOff => exact ⟨s.bench.cancel_readers, fun _ _ hr => hr⟩
  | frame f => exact ⟨rfl, fun _ _ => Bus.readerIds_deliver _ f⟩
  | _ => exact ⟨rfl, fun _ _ hr => hr⟩

lemma Steps.keepsReaders (h : Steps s s') : KeepsReaders s s' := by
  induction h with
  | refl => exact ⟨rfl, fun _ _ hr => hr⟩
  | tail _ hstep ih => exact ih.trans hstep.keepsReaders

def Attended (bus : Bus) (s : Session) : Prop :=
  ∀ port r, r ∈ s.bench.bus.readerIds port →
    r ∈ bus.readerIds port ∨ (port, r) ∈ s.bench.readers

lemma Attended.of_keeps (hs : s.Attended bus) (h : KeepsReaders s s') : s'.Attended bus := by
  intro port r hr
  rw [h.readers]
  exact hs port r (h.noneNew port r hr)

lemma Attended.clear (hs : s.Attended bus) : (Session.clear s).Attended bus := by
  intro port r hr
  obtain ⟨hmem, hleft⟩ := clear_readerIds hr
  exact .inl ((hs port r hmem).resolve_right hleft)

lemma Attended.addForwarder (hs : s.Attended bus) {run} (hrun : s.bench.run = some run)
    (port : String) : (s.addForwarder port).Attended bus := by
  have hreaders : (s.addForwarder port).bench.readers
      = s.bench.readers ++ [(port, (s.bench.bus.subscribe port).2)] := by
    rw [readers, readers, hrun,
      show (s.addForwarder port).bench.run = _ from congrArg (Option.map _) hrun]
    rfl
  intro other r hr
  rw [hreaders]
  rcases Bus.readerIds_subscribe hr with hold | hnew
  · exact (hs other r hold).imp_right (mem_append_left _)
  · rw [hnew]
    exact .inr (mem_append_right _ mem_cons_self)

lemma Attended.addForwarders (hs : s.Attended bus) {run} (hrun : s.bench.run = some run)
    (ports : List String) : (ports.foldl Session.addForwarder s).Attended bus := by
  induction ports generalizing s run with
  | nil => exact hs
  | cons port ports ih =>
    exact ih (hs.addForwarder hrun port) (congrArg (Option.map _) hrun)

lemma Attended.addDispatcher (hs : s.Attended bus) (setting) :
    (s.addDispatcher setting).Attended bus := by
  rw [Session.addDispatcher]
  split <;> exact hs

lemma Attended.launch (hs : s.Attended bus) (hbare : s.Bare) (program ports) :
    (s.launch program ports).1.Attended bus := by
  obtain ⟨events, heq⟩ := beginRun_eq s.bench (s.settingOf program ports)
  rw [launch_eq]
  refine (Attended.addForwarders ?_ rfl ports).addDispatcher _
  intro port r hr
  rw [heq] at hr
  refine .inl ((hs port r hr).resolve_right ?_)
  rw [readers, hbare.run]
  exact not_mem_nil

lemma Reachable.attended {limits writeTime}
    (h : Reachable limits bus writeTime s) : s.Attended bus :=
  h.invariant (fun _ _ hr => .inl hr) (fun _ _ _ _ hstep hs => hs.of_keeps hstep.keepsReaders)
    (fun _ hs => hs.clear) (fun _ _ _ _ _ hs => hs) (fun _ hbare hs => hs.launch hbare)

/-! ## What a host can see -/

/-- Nothing was sent, printed, reported, recorded or announced, and no variable has changed. -/
structure Silent (s s' : Session) : Prop where
  sent : s'.bench.bus.sent = s.bench.bus.sent
  output : s'.bench.log.output = s.bench.log.output
  errors : s'.bench.log.errors = s.bench.log.errors
  errorCount : s'.bench.log.errorCount = s.bench.log.errorCount
  records : s'.bench.log.records = s.bench.log.records
  globals : s'.bench.globals = s.bench.globals
  events : s'.bench.log.events.history = s.bench.log.events.history

lemma Silent.refl (s) : Silent s s :=
  ⟨rfl, rfl, rfl, rfl, rfl, rfl, rfl⟩

lemma Silent.trans {s''} (h : Silent s s') (h' : Silent s' s'') : Silent s s'' :=
  ⟨h'.sent.trans h.sent, h'.output.trans h.output, h'.errors.trans h.errors,
    h'.errorCount.trans h.errorCount, h'.records.trans h.records, h'.globals.trans h.globals,
    h'.events.trans h.events⟩

/-- A session is idle and has nothing to do. -/
structure Resting (s : Session) : Prop where
  idle : s.bench.state = .idle
  bare : s.Bare

lemma Resting.inactive (hs : s.Resting) : s.bench.state.isActive = false := by
  rw [hs.idle]
  rfl

lemma Resting.not_isSome (hs : s.Resting) : ¬ s.bench.run.isSome := by
  rw [hs.bare.run]
  exact Bool.false_ne_true

lemma stop_resting {limits} (hs : s.Sound limits) : s.stop.Resting := by
  obtain ⟨events, heq⟩ := setState_eq
    (if s.bench.run.isSome then clear s.callOff.settle else s : Session).bench s.bench.runId? .idle
  rw [stop_eq, update, heq]
  refine ⟨rfl, ?_⟩
  by_cases hrun : s.bench.run.isSome
  · rw [if_pos hrun]
    exact ⟨rfl, rfl, rfl⟩
  · rw [if_neg hrun]
    obtain ⟨hnone, htasks, hspawned⟩ := hs.bare (Option.not_isSome_iff_eq_none.mp hrun)
    exact ⟨hnone, htasks, hspawned⟩

lemma Resting.stop (hs : s.Resting) : s.stop = s := by
  rw [stop_eq, if_neg hs.not_isSome, update, setState, if_pos hs.idle]

lemma External.silent (h : External s s') (hs : s.Resting) : s'.Resting ∧ Silent s s' := by
  have hinactive := hs.inactive
  obtain ⟨b, rfl, hb⟩ := h.influence
  cases hb with
  | state hactive => cases hinactive.symm.trans hactive
  | callOff =>
    rw [← finish_eq, finish_of_inactive hinactive, cancel_of_none hs.bare.run]
    exact ⟨hs, .refl s⟩
  | log _ hevents =>
    exact ⟨⟨hs.idle, hs.bare.run, hs.bare.tasks, hs.bare.spawned⟩,
      rfl, rfl, rfl, rfl, rfl, rfl, hevents⟩
  | _ =>
    exact ⟨⟨hs.idle, hs.bare.run, hs.bare.tasks, hs.bare.spawned⟩,
      rfl, rfl, rfl, rfl, rfl, rfl, rfl⟩

lemma Step.silent {who} (h : Step who s s') (hs : s.Resting) : s'.Resting ∧ Silent s s' := by
  cases h with
  | move before task behind =>
    have htasks : before ++ task :: behind = [] := hs.bare.tasks
    exact absurd htasks (by simp)
  | spawn =>
    rw [Machine.startTasks, hs.bare.run]
    exact ⟨⟨hs.idle, hs.bare.run, hs.bare.tasks, rfl⟩, rfl, rfl, rfl, rfl, rfl, rfl, rfl⟩
  | external h => exact h.silent hs

/-- What can become of a session without a start. -/
inductive Later (s : Session) : Session → Prop where
  | refl : Later s s
  | step {who s' s''} : Later s s' → Step who s' s'' → Later s s''
  | stop {s' : Session} : Later s s' → Later s s'.stop

lemma Later.silent (h : Later s s') (hs : s.Resting) : s'.Resting ∧ Silent s s' ∧
    ∀ port r, r ∈ s'.bench.bus.readerIds port → r ∈ s.bench.bus.readerIds port := by
  induction h with
  | refl => exact ⟨hs, .refl s, fun _ _ hr => hr⟩
  | step _ hstep ih =>
    obtain ⟨hrests, hsilent, hreaders⟩ := ih
    obtain ⟨hrests', hsilent'⟩ := hstep.silent hrests
    exact ⟨hrests', hsilent.trans hsilent', fun port r hr =>
      hreaders port r (hstep.keepsReaders.noneNew port r hr)⟩
  | stop _ ih =>
    rw [ih.1.stop]
    exact ih

lemma Steps.later (h : Steps s s') : Later s s' := by
  induction h with
  | refl => exact .refl
  | tail _ hstep ih => exact ih.step hstep

/-! ## Stops -/

lemma cleared_readerIds (hs : s.Attended bus)
    (hr : r ∈ (if s.bench.run.isSome then clear s.callOff.settle
      else s : Session).bench.bus.readerIds port) :
    r ∈ bus.readerIds port ∧ (port, r) ∉ s.bench.readers := by
  by_cases hrun : s.bench.run.isSome
  · rw [if_pos hrun] at hr
    obtain ⟨hmem, hleft⟩ := clear_readerIds hr
    have hkeeps : KeepsReaders s s.callOff.settle :=
      (Step.external (.callOff s)).keepsReaders.trans
        (settleWithin_steps passLimit s.callOff).keepsReaders
    rw [hkeeps.readers] at hleft
    exact ⟨(hs port r (hkeeps.noneNew port r hmem)).resolve_right hleft, hleft⟩
  · rw [if_neg hrun] at hr
    have hnone : s.bench.readers = [] := by
      rw [readers, Option.not_isSome_iff_eq_none.mp hrun]
      rfl
    rw [hnone]
    exact ⟨(hs port r hr).resolve_right (hnone ▸ not_mem_nil), not_mem_nil⟩

lemma stop_readerIds (hs : s.Attended bus) (hr : r ∈ s.stop.bench.bus.readerIds port) :
    r ∈ bus.readerIds port ∧ (port, r) ∉ s.bench.readers := by
  rw [stop_eq] at hr
  obtain ⟨events, heq⟩ := setState_eq
    (if s.bench.run.isSome then clear s.callOff.settle else s : Session).bench s.bench.runId? .idle
  rw [update, heq] at hr
  exact cleared_readerIds hs hr

lemma inject_count (s : Session) (f) : (s.inject f).2 = (s.bench.bus.readerIds f.port).length := by
  have hport : (if f.timestamp = 0 then { f with timestamp := s.bench.now } else f).port
      = f.port := by
    split <;> rfl
  show (s.bench.bus.channel _).readers.length = _
  rw [hport, Bus.readerIds, length_map]

/-- Wherever the tasks of a run have got to, they all end by themselves when the run is called off.
    After a stop, whatever happens until a script is started again, nothing is sent, printed,
    reported or announced, and no variable changes.  A frame that arrives then is counted for
    readers that were there before the first run, none of which belongs to the run. -/
theorem silent_after_stop {limits : RunConfig} {bus : Bus} {writeTime : Nat} {s : Session}
    (hs : Reachable limits bus writeTime s) :
    Settles s.callOff.startTasks ∧ (s.bench.spawned = [] → Settles s.callOff) ∧
    ∀ s', Later s.stop s' →
      s'.Resting ∧ Silent s.stop s' ∧
      ∀ f, (s'.inject f).2 = (s'.bench.bus.readerIds f.port).length ∧
        ∀ r ∈ s'.bench.bus.readerIds f.port,
          r ∈ bus.readerIds f.port ∧ (f.port, r) ∉ s.bench.readers := by
  obtain ⟨hstarted, hsettles⟩ := hs.settles
  refine ⟨hstarted, hsettles, fun s' hlater => ?_⟩
  obtain ⟨hrests, hsilent, hreaders⟩ := hlater.silent (stop_resting hs.sound)
  exact ⟨hrests, hsilent, fun f => ⟨inject_count s' f, fun r hr =>
    stop_readerIds hs.attended (hreaders f.port r hr)⟩⟩

/-! ## A busy run that is stopped -/

def busyScript : String :=
  "on_interval(5) \x7b send(0x200, 0x01) \x7d\n"
    ++ "on_receive(true) \x7b send(0x300, 0x02) \x7d\ndelay(1000)"

/-- The session after eleven milliseconds, when the second activation is still writing and a frame
    has arrived. -/
def busySession : Session :=
  let s := ((ofLimits {} (.ofCapacity 16) 3).start busyScript ["can0"]).1
  (Session.inject (s.advance 11) ⟨1, [], false, "can0", 0⟩).1

/-- The run has five tasks and has sent a frame.  Once it is stopped nothing more happens, and
    frames have no reader. -/
theorem silent_after_stop_busy :
    busySession.tasks.length = 5 ∧ busySession.bench.bus.sent.size = 1 ∧
    Settles busySession.callOff ∧
    Silent busySession.stop (busySession.stop.advance 100) ∧
    ∀ f, (Session.inject (busySession.stop.advance 100) f).2 = 0 := by
  have hreachable : Reachable {} (.ofCapacity 16) 3 busySession :=
    ((Reachable.init.start busyScript ["can0"]).steps (advance_steps _ 11)).step
      (.external (.inject _ _))
  obtain ⟨-, hsettles, hlater⟩ := silent_after_stop hreachable
  obtain ⟨-, hsilent, hreaders⟩ := hlater _ (advance_steps busySession.stop 100).later
  refine ⟨by decide +kernel, by decide +kernel, hsettles (by decide +kernel), hsilent, fun f => ?_⟩
  obtain ⟨hcount, hbus⟩ := hreaders f
  rw [hcount, length_eq_zero_iff]
  exact eq_nil_iff_forall_not_mem.mpr fun r hr => absurd (hbus r hr).1 not_mem_nil

end Session

end CanScript
