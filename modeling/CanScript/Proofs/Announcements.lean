import CanScript.Proofs.Silence
import Mathlib.Data.List.Chain

/-! # Announced states

    The state of a session changes when the host calls and when a run ends from inside, and each
    place announces the change on its own.  No announcement is lost or made twice, and those of one
    run tell its whole course. -/

namespace CanScript

def Event.state? : Event → Option (Option RunId × ExecutionState)
  | .state run s => some (run, s)
  | _ => none

namespace Log

/-- The states that were announced, with the runs that they belong to. -/
def states (l : Log) : List (Option RunId × ExecutionState) :=
  l.events.history.toList.filterMap Event.state?

/-- The states that were announced for a run. -/
def statesOf (l : Log) (run : RunId) : List ExecutionState :=
  l.states.filterMap fun p => if p.1 = some run then some p.2 else none

lemma recordErrors_states (l : Log) (run ds) : (l.recordErrors run ds).states = l.states := by
  rw [states, (recordErrors_streams run l ds).1, List.filterMap_append, List.filterMap_map]
  simp [states, Function.comp_def, Event.state?]

lemma recordOutput_states (l : Log) (run text) : (l.recordOutput run text).states = l.states := by
  show (l.events.history.push _).toList.filterMap Event.state? = _
  simp [states, Event.state?]

end Log

/-- Running and paused by turns, `n` times after the start. -/
def alternation : Nat → List ExecutionState
  | 0 => [.running]
  | n + 1 => alternation n ++ [if n % 2 = 0 then .paused else .running]

/-- The states that a run goes through, up to the one that it is in. -/
inductive Course : List ExecutionState → ExecutionState → Prop where
  | active (n : Nat) : Course (alternation n) (if n % 2 = 0 then .running else .paused)
  | stopped (n : Nat) : Course (alternation n ++ [.stopped]) .stopped
  | idle (n : Nat) : Course (alternation n ++ [.stopped, .idle]) .idle

lemma Course.next {ss s s'} (h : Course ss s) (hactive : s.isActive)
    (hs : s'.isActive ∨ s' = .stopped) (hne : s ≠ s') : Course (ss ++ [s']) s' := by
  cases h with
  | active n =>
    rcases hs with hs | rfl
    · have hturn : s' = if n % 2 = 0 then .paused else .running := by
        cases s' <;> split <;> simp_all [ExecutionState.isActive]
      have hnext := Course.active (n + 1)
      rw [alternation, ← hturn] at hnext
      convert hnext
      rw [hturn]
      split <;> split <;> first | rfl | omega
    · exact .stopped n
  | stopped | idle => cases hactive

lemma Course.clear {ss} (h : Course ss .stopped) : Course (ss ++ [.idle]) .idle := by
  generalize hs : ExecutionState.stopped = s at h
  cases h with
  | active n => split at hs <;> cases hs
  | stopped n => simpa using Course.idle n
  | idle => cases hs

lemma Course.ne_nil {ss s} (h : Course ss s) : ss ≠ [] := by
  cases h with
  | active n => cases n <;> simp [alternation]
  | stopped | idle => simp

lemma Course.prefix_alternation {ss s}
    (h : Course ss s) : ∃ n, ss <+: alternation n ++ [.stopped, .idle] := by
  cases h with
  | active n => exact ⟨n, List.prefix_append _ _⟩
  | stopped n | idle n => exact ⟨n, by simp⟩

namespace Bench

/-- The announced states tell the state of the session, and those of each of its runs tell the
    course of that run. -/
structure Mirrors (runs : Nat) (b : Bench) : Prop where
  count : b.runs = runs
  current : ∀ id, b.runId? = some id → id = runs
  state : b.state = (b.log.states.map Prod.snd).getLastD .idle
  differ : (b.log.states.map Prod.snd).IsChain (· ≠ ·)
  course : b.state.isActive = true ∨ b.state = .stopped → Course (b.log.statesOf runs) b.state
  begun : ∀ id, id ≤ runs → (id = 0 ∧ b.log.statesOf id = []) ∨ ∃ s, Course (b.log.statesOf id) s
  fresh : ∀ id, runs < id → b.log.statesOf id = []

variable {runs : Nat} {b b' : Bench} {s : ExecutionState}

lemma Mirrors.of_same (h : b.Mirrors runs) (hcount : b'.runs = b.runs)
    (hstate : b'.state = b.state) (hstates : b'.log.states = b.log.states)
    (hrun : ∀ id, b'.runId? = some id → b.runId? = some id) : b'.Mirrors runs := by
  have hof : b'.log.statesOf = b.log.statesOf := by
    funext id
    rw [Log.statesOf, hstates, Log.statesOf]
  obtain ⟨hruns, hcurrent, htold, hdiffer, hcourse, hbegun, hfresh⟩ := h
  rw [← hstate, ← hstates] at htold
  rw [← hstates] at hdiffer
  rw [← hof] at hcourse hbegun hfresh
  rw [← hstate] at hcourse
  exact ⟨hcount.trans hruns, fun id hid => hcurrent id (hrun id hid), htold, hdiffer, hcourse,
    hbegun, hfresh⟩

lemma Mirrors.differ_append (h : b.Mirrors runs) (hne : b.state ≠ s) (run) :
    ((b.log.states ++ [(run, s)]).map Prod.snd).IsChain (· ≠ ·) := by
  rw [List.map_append]
  refine h.differ.append (.singleton _) fun last hlast next hnext => ?_
  have hstate := h.state
  rw [List.getLastD_eq_getLast?, Option.mem_def.mp hlast] at hstate
  cases hnext
  exact fun heq => hne (hstate.trans heq)

lemma Mirrors.announce (h : b.Mirrors runs) (hne : b.state ≠ s) {id}
    (hid : id = runs ∨ id = runs + 1) (hcourse : Course (b.log.statesOf id ++ [s]) s)
    (hcount : b'.runs = id) (hcurrent : ∀ i, b'.runId? = some i → i = id) (hstate : b'.state = s)
    (hstates : b'.log.states = b.log.states ++ [(some id, s)]) : b'.Mirrors id := by
  have hown : b'.log.statesOf id = b.log.statesOf id ++ [s] := by
    simp [Log.statesOf, hstates]
  have hother : ∀ i, i ≠ id → b'.log.statesOf i = b.log.statesOf i := fun i hi => by
    simp [Log.statesOf, hstates, Ne.symm hi]
  refine ⟨hcount, hcurrent, ?_, ?_, fun _ => by rwa [hown, hstate], fun i hi => ?_, fun i hi => ?_⟩
  · simp [hstate, hstates]
  · rw [hstates]
    exact h.differ_append hne _
  · by_cases heq : i = id
    · rw [heq, hown]
      exact .inr ⟨s, hcourse⟩
    · rw [hother i heq]
      exact h.begun i (by omega)
  · rw [hother i (by omega)]
    exact h.fresh i (by omega)

lemma setState_states (hne : b.state ≠ s) (run) :
    (b.setState run s).log.states = b.log.states ++ [(run, s)] := by
  rw [setState, if_neg hne]
  show (b.log.events.history.push _).toList.filterMap Event.state? = _
  simp [Log.states, Event.state?]

lemma Mirrors.setState (h : b.Mirrors runs)
    (hcourse : b.state ≠ s → Course (b.log.statesOf runs ++ [s]) s) :
    (b.setState (some runs) s).Mirrors runs := by
  by_cases hsame : b.state = s
  · rw [Bench.setState, if_pos hsame]
    exact h
  · obtain ⟨events, heq⟩ := Session.setState_eq b (some runs) s
    refine h.announce hsame (.inl rfl) (hcourse hsame) ?_ ?_ ?_ (setState_states hsame _)
    all_goals rw [heq]
    · exact h.count
    · exact h.current

lemma Mirrors.setState_none (h : b.Mirrors runs) (hs : s = .error ∨ s = .idle) :
    (b.setState none s).Mirrors runs := by
  by_cases hsame : b.state = s
  · rw [Bench.setState, if_pos hsame]
    exact h
  · have hstates := setState_states hsame none
    obtain ⟨events, heq⟩ := Session.setState_eq b none s
    have hstate : (b.setState none s).state = s := by rw [heq]
    have hof : (b.setState none s).log.statesOf = b.log.statesOf := by
      funext id
      simp [Log.statesOf, hstates]
    refine ⟨?_, ?_, ?_, ?_, fun hactive => ?_, ?_, ?_⟩
    · rw [heq]
      exact h.count
    · rw [heq]
      exact h.current
    · simp [hstate, hstates]
    · rw [hstates]
      exact h.differ_append hsame none
    · rw [hstate] at hactive
      rcases hs with rfl | rfl <;> simp [ExecutionState.isActive] at hactive
    · rw [hof]
      exact h.begun
    · rw [hof]
      exact h.fresh

lemma Mirrors.setState_active (h : b.Mirrors runs) (hactive : b.state.isActive)
    (hs : s.isActive ∨ s = .stopped) : (b.setState (some runs) s).Mirrors runs :=
  h.setState fun hne => (h.course (.inl hactive)).next hactive hs hne

lemma Mirrors.cancel (h : b.Mirrors runs) : b.cancel.Mirrors runs :=
  h.of_same rfl rfl rfl fun _ hid => b.cancel_runId? ▸ hid

lemma Mirrors.runId_of_active (h : b.Mirrors runs) (hb : b.Consistent)
    (hactive : b.state.isActive) : b.runId? = some runs := by
  obtain ⟨run, hrun, -⟩ := hb.active.mp hactive
  have hid : b.runId? = some run.id := by rw [runId?, hrun]; rfl
  rw [hid, h.current _ hid]

lemma Mirrors.finish (h : b.Mirrors runs) (hb : b.Consistent) : b.finish.Mirrors runs := by
  rw [Bench.finish]
  split
  · next hactive =>
    rw [cancel_runId?, h.runId_of_active hb hactive]
    exact h.cancel.setState_active hactive (.inr rfl)
  · exact h.cancel

lemma Change.mirrors {t op} (h : Change t b op b') (hb : b.Consistent)
    (hm : b.Mirrors runs) : b'.Mirrors runs := by
  cases h with
  | finish => exact b.finish_eq ▸ hm.finish hb
  | report d => exact hm.of_same rfl rfl (b.log.recordErrors_states b.runId? [d]) fun _ hid => hid
  | print text => exact hm.of_same rfl rfl (b.log.recordOutput_states _ _) fun _ hid => hid
  | _ => exact hm.of_same rfl rfl rfl fun _ hid => hid

end Bench

namespace Session

variable {runs : Nat} {s s' : Session} {who : Option TaskId}

lemma Influence.mirrors {b b'} (h : Influence b b') (hb : b.Consistent)
    (hm : b.Mirrors runs) : b'.Mirrors runs := by
  cases h with
  | state hactive hstate hne =>
    have hset := hm.setState_active hactive (.inl hstate)
    rw [Bench.setState, if_neg hne, ← hm.runId_of_active hb hactive] at hset
    exact hset
  | callOff => exact b.finish_eq ▸ hm.finish hb
  | log _ hevents =>
    refine hm.of_same rfl rfl ?_ fun _ hid => hid
    show List.filterMap _ (Array.toList _) = _
    rw [hevents]
    rfl
  | _ => exact hm.of_same rfl rfl rfl fun _ hid => hid

lemma Step.mirrors (h : Step who s s') (hs : s.bench.Consistent)
    (hm : s.bench.Mirrors runs) : s'.bench.Mirrors runs :=
  h.keeps (fun _ _ _ hchange => hchange.mirrors hs hm)
    (fun _ => hm.of_same rfl rfl rfl fun _ hid => hid) fun _ hb => hb.mirrors hs hm

variable {limits : RunConfig} {bus : Bus} {writeTime : Nat}

/-- A run that was called off and whose tasks have had time to end is stopped. -/
lemma settle_mirrors (hs : s.Sound limits) (hm : s.bench.Mirrors runs)
    (hrun : s.bench.run.isSome) : s.callOff.settle.bench.Mirrors runs ∧
    s.callOff.settle.bench.state = .stopped ∧ s.bench.runId? = some runs := by
  have hcancelled : s.callOff.settle.bench.isCancelled :=
    (settleWithin_steps _ _).keeps (fun _ _ _ hstep => hstep.isCancelled) (callOff_cancelled s)
  have hsteps : Steps s s.callOff.settle :=
    (Steps.single (.external (.callOff s))).trans (settleWithin_steps _ _)
  obtain ⟨hsound, hmirrors⟩ : Sound limits s.callOff.settle ∧ s.callOff.settle.bench.Mirrors runs :=
    hsteps.keeps (P := fun s => s.Sound limits ∧ s.bench.Mirrors runs)
      (fun _ _ _ hstep h => ⟨hstep.sound h.1, hstep.mirrors h.1.consistent h.2⟩) ⟨hs, hm⟩
  have hsetting : s.callOff.settle.bench.setting? = s.bench.setting? :=
    hsteps.keeps (P := fun s' => s'.bench.setting? = s.bench.setting?)
      (fun _ _ _ hstep h => hstep.setting?.trans h) rfl
  obtain ⟨run, hsome⟩ := Option.isSome_iff_exists.mp hrun
  have hid : s.bench.runId? = some run.id := by rw [Bench.runId?, hsome]; rfl
  refine ⟨hmirrors, ?_, by rw [hid, hm.current _ hid]⟩
  -- the run is still there, and was told to end
  have hstill : s.callOff.settle.bench.run ≠ none := fun hnone =>
    absurd ((run_eq_none_iff _).mp (hsetting ▸ (run_eq_none_iff _).mpr hnone))
      (Option.isSome_iff_ne_none.mp hrun)
  have hinactive : ¬ s.callOff.settle.bench.state.isActive := fun hactive => by
    obtain ⟨run', hsome', hgoing⟩ := hsound.consistent.active.mp hactive
    rw [Bench.isCancelled, hsome', Option.all_some, hgoing] at hcancelled
    cases hcancelled
  cases hstate : s.callOff.settle.bench.state with
  | stopped => rfl
  | idle => exact absurd (hsound.consistent.idle hstate) hstill
  | error => exact absurd (hsound.consistent.error hstate) hstill
  | running | paused => exact absurd (by rw [hstate]; rfl) hinactive

lemma stop_mirrors (hs : s.Sound limits) (hm : s.bench.Mirrors runs) :
    s.stop.bench.Mirrors runs := by
  rw [stop_eq]
  by_cases hrun : s.bench.run.isSome
  · obtain ⟨hsettled, hstopped, hid⟩ := settle_mirrors hs hm hrun
    have hcleared : (clear s.callOff.settle).bench.Mirrors runs :=
      hsettled.of_same rfl rfl rfl fun _ hid => by cases hid
    rw [if_pos hrun, hid]
    refine hcleared.setState fun _ => Course.clear ?_
    rw [← hstopped]
    exact hcleared.course (.inr hstopped)
  · rw [if_neg hrun, Bench.runId?, Option.not_isSome_iff_eq_none.mp hrun]
    exact hm.setState_none (.inr rfl)

lemma ready_mirrors {ports} (hs : s.Sound limits) (hm : s.bench.Mirrors runs)
    (hports : s.startRefusal? ports = none) :
    s.ready.bench.Mirrors runs ∧ s.ready.bench.state.isActive = false := by
  have hinactive := inactive_of_startRefusal? hports
  rw [ready, retire_eq hinactive]
  split
  · next hrun =>
    obtain ⟨hsettled, hstopped, -⟩ := settle_mirrors hs hm hrun
    refine ⟨hsettled.of_same rfl rfl rfl (fun _ hid => by cases hid), ?_⟩
    show s.callOff.settle.bench.state.isActive = false
    rw [hstopped]
    rfl
  · exact ⟨hm.of_same rfl rfl rfl fun _ hid => hid, hinactive⟩

lemma launch_mirrors (hm : s.bench.Mirrors runs) (hinactive : s.bench.state.isActive = false)
    (program : Program) (ports) : (s.launch program ports).1.bench.Mirrors (runs + 1) := by
  have hne : s.bench.state ≠ .running := fun h => by
    rw [h] at hinactive
    cases hinactive
  obtain ⟨bus, run, hub, nextTask, heq, -, hid⟩ := launch_bench s program ports
  obtain ⟨events, hbegun⟩ := beginRun_eq s.bench (s.settingOf program ports)
  rw [hm.count] at hid
  refine hm.announce hne (.inr rfl) ?_ ?_ (fun i hi => ?_) ?_ ?_
  · rw [hm.fresh (runs + 1) (Nat.lt_succ_self _)]
    exact .active 0
  · rw [heq, hbegun, ← hm.count]
  · rw [heq] at hi
    exact Option.some.inj (hi.symm.trans hid)
  · rw [heq, hbegun]
  · rw [heq, ← hm.count]
    exact Bench.setState_states (b := { s.bench with
      runs := s.bench.runs + 1
      globals := []
      hub := .ofCapacity (max s.bench.limits.frameBuffer 1) }) hne _

lemma Reachable.mirrors (h : Reachable limits bus writeTime s) : ∃ runs, s.bench.Mirrors runs := by
  refine h.induct (P := fun s => ∃ runs, s.bench.Mirrors runs) ⟨0, rfl, fun _ hid => ?_, rfl, .nil,
    ?_, fun id hid => .inl ⟨Nat.le_zero.mp hid, rfl⟩, fun _ _ => rfl⟩ ?_ ?_ ?_ ?_
  · cases hid
  · rintro (hactive | hstopped)
    · cases hactive
    · cases hstopped
  · rintro who s s' hs hstep ⟨runs, hm⟩
    exact ⟨runs, hstep.mirrors hs.sound.consistent hm⟩
  · rintro s hs ⟨runs, hm⟩
    exact ⟨runs, stop_mirrors hs.sound hm⟩
  · rintro s program ports hs hports ⟨runs, hm⟩
    obtain ⟨hready, hinactive⟩ := ready_mirrors hs.sound hm hports
    exact ⟨runs + 1, launch_mirrors hready hinactive program ports⟩
  · rintro s errors ports hs hports ⟨runs, hm⟩
    obtain ⟨hready, -⟩ := ready_mirrors hs.sound hm hports
    refine ⟨runs, Bench.Mirrors.setState_none ?_ (.inl rfl)⟩
    exact hready.of_same rfl rfl (Log.recordErrors_states _ _ _) fun _ hid => hid

/-- **Announced states tell the state.**  Whatever the host calls and however scripts end, the state
    of a session is the one that was announced last, no state is announced twice in a row, and the
    states that are announced for a run are the beginning of its course: running, then paused and
    running by turns, stopped, idle.  Every run that was started is announced. -/
theorem states_announced {limits : RunConfig} {bus : Bus} {writeTime : Nat} {s : Session}
    (hs : Reachable limits bus writeTime s) :
    s.bench.state = (s.bench.log.states.map Prod.snd).getLastD .idle ∧
    (s.bench.log.states.map Prod.snd).IsChain (· ≠ ·) ∧
    (∀ run, ∃ n, s.bench.log.statesOf run <+: alternation n ++ [.stopped, .idle]) ∧
    ∀ run, 0 < run → run ≤ s.bench.runs → s.bench.log.statesOf run ≠ [] := by
  obtain ⟨runs, hm⟩ := hs.mirrors
  refine ⟨hm.state, hm.differ, fun run => ?_, fun run hpos hrun hnil => ?_⟩
  · by_cases hrun : run ≤ runs
    · rcases hm.begun run hrun with ⟨-, hnil⟩ | ⟨state, hcourse⟩
      · exact ⟨0, hnil ▸ List.nil_prefix⟩
      · exact hcourse.prefix_alternation
    · exact ⟨0, hm.fresh run (Nat.lt_of_not_le hrun) ▸ List.nil_prefix⟩
  · rcases hm.begun run (hm.count ▸ hrun) with ⟨hzero, -⟩ | ⟨state, hcourse⟩
    · exact absurd hzero (Nat.pos_iff_ne_zero.mp hpos)
    · exact hcourse.ne_nil hnil

/-- A session with a run that was paused, resumed and stopped, a script with an error, and a run
    that has ended by itself. -/
def twoRuns : Session :=
  ((pausedSession.resume.1.stop.start "\x7d" ["can0"]).1.start "stop()" ["can0"]).1.settle

theorem states_announced_twoRuns :
    twoRuns.bench.log.states = [(some 1, .running), (some 1, .paused), (some 1, .running),
      (some 1, .stopped), (some 1, .idle), (none, .error), (some 2, .running), (some 2, .stopped)] ∧
    twoRuns.bench.state = .stopped ∧ ∃ n, twoRuns.bench.log.statesOf 1 <+: alternation n ++
      [.stopped, .idle] := by
  have hreachable : Reachable {} (.ofCapacity 16) 0 twoRuns :=
    .steps (.start _ _ (.start _ _ (.stop (.step (.step (.startProgram _ _ .init)
      (.external (.pause _))) (.external (.resume _)))))) (settleWithin_steps _ _)
  have hstates : twoRuns.bench.log.states = [(some 1, .running), (some 1, .paused),
      (some 1, .running), (some 1, .stopped), (some 1, .idle), (none, .error), (some 2, .running),
      (some 2, .stopped)] := by decide +kernel
  obtain ⟨hstate, -, hcourses, -⟩ := states_announced hreachable
  rw [hstates] at hstate
  exact ⟨hstates, hstate, hcourses 1⟩

end Session

end CanScript
