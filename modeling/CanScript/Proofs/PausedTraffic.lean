import CanScript.Proofs.Visits

/-! # Traffic during a pause

    Whether the run is paused is asked when the dispatcher takes a frame from the hub, not when the
    frame enters it.  A frame that enters during a pause is passed over if the dispatcher comes to
    it before the run is resumed.  It does unless it is held up with an earlier frame, in a
    predicate that calls a function which waits. -/

namespace CanScript

open Session

namespace Session

lemma External.state_running {s s'} (h : External s s') (hrunning : s'.bench.state = .running) :
    s.bench.state = .running ∨ s.bench.state = .paused := by
  obtain ⟨b, rfl, hb⟩ := h.influence
  cases hb with
  | state hactive =>
    cases hstate : s.bench.state with
    | running => exact .inl rfl
    | paused => exact .inr rfl
    | _ =>
      rw [hstate] at hactive
      cases hactive
  | callOff =>
    dsimp only at hrunning
    split at hrunning
    · cases hrunning
    · exact .inl hrunning
  | _ => exact .inl hrunning

end Session

namespace History

variable {H : History} {i j n : Nat}

lemma running_step (hrunning : (H.bench (n + 1)).state = .running) :
    (H.bench n).state = .running ∨ (H.bench n).state = .paused ∧ H.mover n = none := by
  cases hmover : H.mover n with
  | some t =>
    obtain ⟨op, hchange⟩ := changed hmover
    by_contra hnot
    exact hchange.state_ne (fun hstate => hnot (.inl hstate)) hrunning
  | none =>
    have hstep := step_of hmover
    generalize hs' : H.session (n + 1) = s' at hstep
    rw [bench, hs'] at hrunning
    cases hstep with
    | spawn =>
      obtain ⟨processes, heq, -⟩ := startTasks_eq (H.session n)
      rw [heq] at hrunning
      exact .inl hrunning
    | external hexternal =>
      exact (hexternal.state_running hrunning).imp_right fun hpaused => ⟨hpaused, rfl⟩

lemma resumed (hij : i ≤ j) (hi : (H.bench i).state ≠ .running)
    (hj : (H.bench j).state = .running) :
    ∃ n, i ≤ n ∧ n < j ∧ (H.bench n).state = .paused ∧ (H.bench (n + 1)).state = .running ∧
      H.mover n = none := by
  induction hij with
  | refl => exact absurd hj hi
  | @step j hij ih =>
    rcases running_step hj with hrunning | ⟨hpaused, hmover⟩
    · obtain ⟨n, hin, hnj, hn⟩ := ih hrunning
      exact ⟨n, hin, Nat.lt_succ_of_lt hnj, hn⟩
    · exact ⟨j, hij, Nat.lt_succ_self j, hpaused, hj, hmover⟩

lemma moves_of_enters {f}
    (henters : (H.bench (n + 1)).hub.history = (H.bench n).hub.history.push f) :
    H.mover n ≠ none := by
  intro hmover
  have hsame : (H.bench (n + 1)).hub = (H.bench n).hub := (step_of hmover).traffic_of_none.1
  have hsize := congrArg Array.size henters
  rw [hsame, Array.size_push] at hsize
  exact Nat.succ_ne_self _ hsize.symm

/-- While the dispatcher is busy with a frame, it does not wait for one. -/
lemma Drained.not_considers {setting lines d} (h : Session.Opened setting lines d (H.session 0))
    (hhandlers : setting.program.receiveHandlers ≠ []) {w} (hw : H.Drained w) {f l op}
    (hbegun : H.Has d i (((considers setting f).start l).bind (nextRound setting 0)))
    (hasks : H.Asks d i ((considers setting f).start l) j op) (hiw : i ≤ w) (hwj : w ≤ j) :
    False := by
  obtain ⟨e, halong, he⟩ := hasks
  obtain ⟨e', hfirst, hrest⟩ := halong.split hiw hwj
  obtain ⟨t, next, hnext, -⟩ := hw
  have hreserved : (Request.receive (.hub 0)).Reserved (OfDispatcher setting) :=
    ⟨0, ⟨rfl, hhandlers⟩, rfl⟩
  obtain ⟨rfl, -⟩ := dispatcher_of_reserved h hnext hreserved
  have hgoing : e'.isDone = false := by
    cases e' with
    | pure a =>
      rw [hrest.eq_of_pure] at he
      cases he
    | act op next => rfl
    | iter body s next => rfl
  have hasks' : H.Asks t i ((considers setting f).start l) w (.receive (.hub 0)) := by
    refine ⟨e', hfirst, ?_⟩
    rw [← request?_bind hgoing (nextRound setting 0), (hfirst.has hbegun).unique hnext]
    rfl
  rcases considers_asks h hbegun hasks' with hnot | ⟨⟨a, ha⟩, -⟩
  · exact hnot hreserved
  · cases ha

/-- A frame that enters the hub while the run is paused starts no activation, at whatever later
    moment, if at each resume the dispatcher has come to wait for a frame since, or no predicate
    calls a function and the host resumes the run when no task can go on.  An activation is always
    for the frame that the dispatcher has taken last. -/
theorem paused_traffic_passed_over {limits : RunConfig} {capacity writeTime : Nat} {s : Session}
    (hs : Session.Reachable limits (.ofCapacity capacity) writeTime s) {program : Program}
    {ports : List String} {id : RunId} {H : History}
    (hstart : s.startProgram program ports = (H.session 0, .ok id)) {m : Nat} {f : Frame}
    (hpaused : (H.bench m).state = .paused)
    (henters : (H.bench (m + 1)).hub.history = (H.bench m).hub.history.push f)
    (hresume : ∀ n, m < n → (H.bench n).state = .paused → (H.bench (n + 1)).state = .running →
      (∃ w, m < w ∧ w ≤ n ∧ H.Drained w) ∨
      (program.TestsCallNothing ∧ (H.session n).isWaiting = true)) :
    ∀ j a g, .receive a g ∈ H.starts j → ∃ k, (H.bench j).hub.place? 0 = some (k + 1) ∧
      (H.bench j).hub.history[k]? = some g ∧ k ≠ (H.bench m).hub.history.size := by
  obtain ⟨hH, lines, d, h⟩ := Session.startProgram_opened hs hstart
  intro j a g ha
  obtain ⟨hhandlers, c, k, l, hcj, htakes, hbegun, hasks, hplace, n, hcn, hnj, hrunning⟩ :=
    source_of_starts h hH ha
  refine ⟨k, hplace, frame_later htakes.frame (Nat.le_of_lt hcj), fun hk => ?_⟩
  have hsize : (H.bench (m + 1)).hub.history.size = k + 1 := by
    rw [henters, Array.size_push, hk]
  -- the frame was taken after it had entered, and by then the run was resumed
  have hmc : m < c := by
    by_contra hcm
    have hbelow : k < (H.bench c).hub.history.size :=
      (Array.getElem?_eq_some_iff.mp htakes.frame).1
    have hle := H.size_mono (Nat.le_of_not_lt hcm)
    omega
  have hstill : (H.bench (m + 1)).state ≠ .running := by
    intro hstate
    rcases running_step hstate with hbefore | ⟨-, hmover⟩
    · cases hpaused.symm.trans hbefore
    · exact moves_of_enters henters hmover
  have hstate : (H.bench n).state = .running :=
    (reachable hH n).sound.consistent.standing_iff.mp hrunning
  obtain ⟨n₁, hmn₁, hn₁n, hn₁, hafter, -⟩ := resumed (by omega : m + 1 ≤ n) hstill hstate
  -- before that the dispatcher has waited for a frame
  obtain ⟨w, hmw, hwn, hw⟩ : ∃ w, m < w ∧ w ≤ n₁ ∧ H.Drained w := by
    rcases hresume n₁ hmn₁ hn₁ hafter with hdrained | ⟨hcalls, hwaiting⟩
    · exact hdrained
    · refine ⟨n₁, hmn₁, Nat.le_refl n₁, .of_waiting h hH hhandlers hcalls hwaiting ?_⟩
      refine going_before (Nat.le_of_lt hn₁n) (Bool.eq_false_iff.mpr fun hcancelled => ?_)
      cases hrunning.symm.trans (Bench.standing_eq_stopped_iff.mpr hcancelled)
  obtain ⟨-, -, place, hplace', hall⟩ := hw.settled h hH hhandlers
  -- so it had taken the frame, and was still busy with it
  have hcw : c < w := by
    by_contra hwc
    obtain ⟨place', hplace'', hle⟩ := place_later h hH hhandlers hplace' (Nat.le_of_not_lt hwc)
    cases hplace''.symm.trans htakes.place
    have hmore := H.size_mono (show m + 1 ≤ w from hmw)
    omega
  exact hw.not_considers h hhandlers hbegun hasks hcw
    (Nat.le_trans hwn (Nat.le_of_lt (Nat.lt_trans hn₁n hnj)))

end History

/-! ## A pause between two frames -/

/-- After the last incident nothing happens. -/
lemma Session.atMoment_after {s : Session} {incidents n} (h : incidents.length ≤ n) :
    s.atMoment incidents (n + 1) = s.atMoment incidents n := by
  induction incidents generalizing s n with
  | nil => rfl
  | cons incident incidents ih =>
    cases n with
    | zero => cases h
    | succ n => exact ih (Nat.le_of_succ_le_succ h)

def listeningProgram : Program where
  receiveHandlers := [⟨⟨1, 1⟩, .literal ⟨1, 12⟩ (.bool true), []⟩]

def passingHistory : History :=
  .ofRun ⟨listeningProgram, ["can0"], {}⟩ <|
    [.inject ⟨1, [], false, "can0", 0⟩, .pause] ++ movesOf 0 4 ++ movesOf 1 4 ++ movesOf 2 2 ++
    [.resume, .inject ⟨2, [], false, "can0", 0⟩] ++ movesOf 0 2 ++ movesOf 1 16

/-- The activation that is started is for the second frame. -/
theorem paused_traffic_passed_over_once :
    (passingHistory.bench 4).state = .paused ∧
    (passingHistory.bench 5).hub.history = (passingHistory.bench 4).hub.history.push
      ⟨1, [], false, "can0", 0⟩ ∧
    (passingHistory.bench 13).state = .running ∧
    .receive 0 ⟨2, [], false, "can0", 0⟩ ∈ passingHistory.starts 31 ∧
    ∀ j a g, .receive a g ∈ passingHistory.starts j → ∃ k,
      (passingHistory.bench j).hub.place? 0 = some (k + 1) ∧
      (passingHistory.bench j).hub.history[k]? = some g ∧ k ≠ 0 := by
  have hpaused : (passingHistory.bench 4).state = .paused := by decide +kernel
  have henters : (passingHistory.bench 5).hub.history = (passingHistory.bench 4).hub.history.push
      ⟨1, [], false, "can0", 0⟩ := by decide +kernel
  have hempty : (passingHistory.bench 4).hub.history.size = 0 := by decide +kernel
  have hstart : (Session.ofLimits {} (.ofCapacity 16)).startProgram listeningProgram ["can0"] =
      (passingHistory.session 0, .ok 1) := by with_unfolding_all rfl
  have hresume : ∀ n, 4 < n → (passingHistory.bench n).state = .paused →
      (passingHistory.bench (n + 1)).state = .running →
      (∃ w, 4 < w ∧ w ≤ n ∧ passingHistory.Drained w) ∨
        listeningProgram.TestsCallNothing ∧ (passingHistory.session n).isWaiting = true := by
    intro n _ hbefore hafter
    -- the run is resumed once, when no task can go on
    have hn : n < 32 := by
      refine Nat.lt_of_not_le fun hge => ?_
      rw [History.bench, show passingHistory.session (n + 1) = passingHistory.session n from
        Session.atMoment_after hge] at hafter
      cases hbefore.symm.trans hafter
    have honce : ∀ n < 32, (passingHistory.bench n).state = .paused →
        (passingHistory.bench (n + 1)).state = .running → n = 12 := by decide +kernel
    cases honce n hn hbefore hafter
    refine .inr ⟨?_, by decide +kernel⟩
    intro handler hmem name hname
    rw [List.mem_singleton.mp hmem] at hname
    cases hname
  refine ⟨hpaused, henters, by decide +kernel, by decide +kernel, ?_⟩
  simpa only [hempty] using
    History.paused_traffic_passed_over .init hstart hpaused henters hresume

/-! ## A dispatcher that is held up -/

def slowScript : String :=
  "function slow() \x7b delay(100)\nreturn true \x7d\non_receive(slow()) \x7b print(id) \x7d"

/-- The session in which the dispatcher waits in the predicate for a first frame, and the run is
    paused. -/
def slowSession : Session :=
  let s := ((Session.ofLimits {} (.ofCapacity 256)).start slowScript ["can0"]).1
  Session.pause (Machine.advance (Session.inject s ⟨1, [], false, "can0", 0⟩).1 50) |>.1

/-- The session after a second frame has entered the hub. -/
def heldUpSession : Session :=
  Machine.advance (Session.inject slowSession ⟨2, [], false, "can0", 0⟩).1 10

/-- A frame that enters the hub while the run is paused is tested when the run has been resumed and
    the dispatcher comes to it, and starts an activation. -/
theorem held_up_frame_dispatched :
    slowSession.bench.state = .paused ∧ slowSession.bench.hub.history.size = 1 ∧
    heldUpSession.bench.state = .paused ∧ heldUpSession.isWaiting = true ∧
    heldUpSession.bench.hub.history.map Frame.id = #[1, 2] ∧
    (heldUpSession.resume.1.advance 300).bench.log.output = #["1", "2"] := by
  decide +kernel

end CanScript
