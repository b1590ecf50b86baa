import CanScript.Proofs.Timing

/-! # Waits for a frame

    A wait for a frame goes round by round: a round first waits until something arrives, and then
    deals with it.  Paused time moves the deadline away only where the round waits.  While a frame
    is put to the test the deadline stays where it is, and a test may take time. -/

namespace CanScript

open Eval Bench History.Finishes

def standBy : Eval Nat := do
  let held ← clock
  orStopped (← ask .awaitRunning)
  let now ← clock
  return now - held

section Rounds

variable (s : Setting) (call : Caller) (scope : Option ScopeId) (predicate : Expr)

/-- What a round does with what has arrived. -/
def sift (deadline : Nat) : Arrival → Eval (Nat ⊕ Bool)
  | .stopped => throw .stopped
  | .expired => return .inr false
  | .paused => return .inl deadline
  | .lagged _ => return .inl deadline
  | .frame f => do
    if ← frameMatches s call scope predicate f then
      bindFrame scope f
      return .inr true
    else
      release
      return .inl deadline

lemma waitRound_eq (r deadline) : waitRound s call scope predicate r deadline = (do
      let extra ← standBy
      let arrival ← ask (.nextFrame r (deadline + extra))
      sift s call scope predicate (deadline + extra) arrival) := by
  rw [waitRound, standBy]
  simp only [bind_assoc, pure_bind]
  refine congrArg _ (funext fun held => congrArg _ (funext fun going => congrArg _ (funext fun _ =>
    congrArg _ (funext fun now => congrArg _ (funext fun arrival => ?_)))))
  cases arrival <;> rfl

def waitOrElse (pos : Pos) (fallback : Option (List Stmt)) (millis : Nat) : Eval Flow := do
  if ← waitForFrame s call scope predicate millis then return .normal
  else
    acquire
    if fallback.isNone then ask (.report ((Fault.waitTimedOut millis).toDiagnostic pos))
    execOptional s call scope fallback

lemma execStmt_waitFor (pos timeout fallback) :
    execStmt s call scope (.waitFor pos predicate timeout fallback) = (do
      let v ← evalExpr s call scope timeout let millis ← ofResult timeout.pos v.asMillis
      waitOrElse s call scope predicate pos fallback millis) := by
  rw [execStmt]
  rfl

end Rounds

namespace Bench

variable {b b' : Bench} {t : TaskId} {r : ReaderId} {deadline : Nat}

lemma awaitRunning_waits (h : (b.perform t .awaitRunning).answer? = none) :
    b.standing = .paused := by
  rw [perform] at h
  cases hstanding : b.standing with
  | paused => rfl
  | stopped | running =>
    rw [hstanding] at h
    cases h

lemma Delivers.of_stopped (h : b.Delivers r deadline b' .stopped) : b.isCancelled := by
  cases h with
  | stopped hcancelled => exact hcancelled

lemma Delivers.of_paused (h : b.Delivers r deadline b' .paused) : b' = b := by
  cases h with
  | paused => rfl

lemma Delivers.of_frame {f} (h : b.Delivers r deadline b' (.frame f)) :
    ∃ hub, b.hub.receive? r = some (.item f, hub) ∧ b' = { b with hub } := by
  cases h with
  | frame hreceived => exact ⟨_, hreceived, rfl⟩

lemma Delivers.of_expired (h : b.Delivers r deadline b' .expired) :
    b' = b ∧ b.isCancelled = false ∧ deadline ≤ b.now := by
  cases h with
  | expired hgoing hdue => exact ⟨rfl, hgoing, hdue⟩

end Bench

namespace History

variable {H : History} {α : Type} {t : TaskId} {i j m n : Nat}

/-! ## The waiting of a round -/

lemma Gets.clock_eq {reply} (h : H.Gets t i n .clock reply) : reply = (H.bench n).now :=
  (congrArg Prod.snd (Option.some.inj h.answer)).symm

section Rounds

variable (hH : H.Timed) {r : ReaderId} {deadline : Nat} {l : Local}

include hH

lemma Pending.of_awaitRunning (hij : i ≤ j) (h : H.Pending t i j .awaitRunning) :
    H.runningTime i j = 0 ∧ (H.bench j).now = (H.bench i).now + H.pausedTime i j := by
  have hpaused : ∀ m, i ≤ m → m < j → H.lapse m ≠ 0 → (H.bench m).standing = .paused :=
    fun m him hmj hlapse => awaitRunning_waits (hH.waits_of_lapse h him hmj hlapse)
  refine ⟨timeWhere_eq_zero fun m him hmj hrunning => ?_, now_eq_timeWhere hij hpaused⟩
  by_contra hlapse
  rw [hpaused m him hmj hlapse] at hrunning
  cases hrunning

lemma Gets.of_awaitRunning {reply} (h : H.Gets t i n .awaitRunning reply) :
    H.runningTime i (n + 1) = 0 ∧
      (H.bench (n + 1)).now = (H.bench i).now + H.pausedTime i (n + 1) := by
  have hlapse := lapse_of_mover h.mover
  rw [runningTime, pausedTime, timeWhere_succ_of_lapse h.le hlapse,
    timeWhere_succ_of_lapse h.le hlapse, ← now_add_lapse, hlapse]
  exact h.pending.of_awaitRunning hH h.le

lemma Pending.pausedTime_of_nextFrame (h : H.Pending t i j (.nextFrame r deadline)) :
    H.pausedTime i j = 0 := by
  refine timeWhere_eq_zero fun m him hmj hpaused => ?_
  by_contra hlapse
  rw [(nextFrame_waits (hH.waits_of_lapse h him hmj hlapse)).2.1] at hpaused
  cases hpaused

lemma Gets.pausedTime_of_nextFrame {reply}
    (h : H.Gets t m n (.nextFrame r deadline) reply) (him : i ≤ m) :
    H.pausedTime i (n + 1) = H.pausedTime i m := by
  have hnone := h.pending.pausedTime_of_nextFrame hH
  rw [pausedTime] at hnone
  rw [pausedTime, timeWhere_succ_of_lapse (him.trans h.le) (lapse_of_mover h.mover),
    ← timeWhere_trans him h.le, hnone]
  rfl

/-- Until the run goes on, no running time passes, and the paused time is the result. -/
lemma Finishes.of_standBy {result} (h : H.Finishes t i (standBy.start l) j result) :
    (result = (.error .stopped, l) ∧ (H.bench j).isCancelled) ∨
    result = (.ok (H.pausedTime i j), l) ∧ H.runningTime i j = 0 := by
  obtain ⟨n1, held, hheld, h⟩ := h.of_askBind
  obtain ⟨n2, going, hgoing, h⟩ := h.of_askBind
  rcases awaitRunning_answer hgoing.answer with ⟨hsame, ⟨rfl, hstopped⟩ | ⟨rfl, -⟩⟩
  · obtain ⟨rfl, rfl⟩ := of_pure h
    rw [← hsame] at hstopped
    exact .inl ⟨rfl, standing_eq_stopped_iff.mp hstopped⟩
  · obtain ⟨n3, now, hnow, h⟩ := of_askBind h
    obtain ⟨rfl, rfl⟩ := of_pure h
    obtain ⟨hrunning, hpaused⟩ := hgoing.of_awaitRunning hH
    have hstill1 := hH.still_of_gets hheld
    have hstill3 := hH.still_of_gets hnow
    have hle1 := Nat.le_succ_of_le hheld.le
    have hle2 := Nat.le_succ_of_le hgoing.le
    have hle3 := Nat.le_succ_of_le hnow.le
    have htime : ∀ standing, H.timeWhere (fun n => (H.bench n).standing = standing) i (n3 + 1)
        = H.timeWhere (fun n => (H.bench n).standing = standing) (n1 + 1) (n2 + 1) := by
      intro standing
      rw [← timeWhere_trans (hle1.trans hle2) hle3, ← timeWhere_trans hle1 hle2,
        hstill1.timeWhere, hstill3.timeWhere, Nat.zero_add, Nat.add_zero]
    refine .inr ⟨?_, (htime .running).trans hrunning⟩
    have hn3 : (H.bench n3).now = (H.bench (n2 + 1)).now :=
      Still.now (fun m him hmn => hstill3 m him (Nat.lt_succ_of_lt hmn)) hnow.le
    have hn1 : (H.bench (n1 + 1)).now = (H.bench n1).now :=
      Still.now (fun m him hmn => hstill1 m (hheld.le.trans him) hmn) (Nat.le_succ n1)
    have hpausedTime : H.pausedTime i (n3 + 1) = (H.bench n3).now - (H.bench n1).now := by
      rw [hn3, hpaused, hn1, Nat.add_sub_cancel_left]
      exact htime .paused
    rw [hpausedTime, hnow.clock_eq, hheld.clock_eq]

lemma Finishes.of_waitRound {s call scope predicate result}
    (h : H.Finishes t i ((waitRound s call scope predicate r deadline).start l) j result) :
    (result = (.error .stopped, l) ∧ (H.bench j).isCancelled) ∨
    ∃ m n arrival, H.Finishes t i (standBy.start l) m (.ok (H.pausedTime i m), l) ∧
      H.runningTime i m = 0 ∧ H.Gets t m n (.nextFrame r (deadline + H.pausedTime i m)) arrival ∧
      H.Finishes t (n + 1)
        ((sift s call scope predicate (deadline + H.pausedTime i m) arrival).start l) j result := by
  rw [waitRound_eq] at h
  rcases h.of_evalBind with ⟨e, l', hstandBy, rfl⟩ | ⟨m, extra, l', hstandBy, h⟩
  · rcases hstandBy.of_standBy hH with ⟨heq, hcancelled⟩ | ⟨heq, -⟩
    · cases heq
      exact .inl ⟨rfl, hcancelled⟩
    · cases heq
  · rcases hstandBy.of_standBy hH with ⟨heq, -⟩ | ⟨heq, hrunning⟩
    · cases heq
    · cases heq
      obtain ⟨n, arrival, hgets, h⟩ := of_askBind h
      exact .inr ⟨m, n, arrival, hstandBy, hrunning, hgets, h⟩

/-- Before that no running time has passed either, and a task that cannot go on waits for the run to
    be resumed. -/
lemma Course.of_standBy {e} (hgoes : e.isDone = false) (h : H.Course t i (standBy.start l) j e) :
    H.runningTime i j = 0 ∧
      (e.waits (H.bench j) t → (H.bench j).standing = .paused) := by
  rcases h.of_askBind with ⟨rfl, hclock⟩ | ⟨n1, held, hheld, h'⟩
  · have hstill := hH.still_of_pending hclock
    exact ⟨hstill.timeWhere, fun hwaits => by cases hwaits⟩
  · have hstill1 := hH.still_of_gets hheld
    have hle1 := Nat.le_succ_of_le hheld.le
    have hbegun : ∀ k, n1 + 1 ≤ k → H.runningTime i k = H.runningTime (n1 + 1) k := by
      intro k hk
      rw [← runningTime_trans hle1 hk, runningTime, hstill1.timeWhere, Nat.zero_add]
    rcases h'.of_askBind with ⟨rfl, hawait⟩ | ⟨n2, going, hgoing, h''⟩
    · refine ⟨(hbegun j h'.le).trans (hawait.of_awaitRunning hH h'.le).1, fun hwaits => ?_⟩
      exact awaitRunning_waits (Option.isNone_iff_eq_none.mp hwaits)
    · have hle2 := Nat.le_succ_of_le hgoing.le
      cases going with
      | false =>
        rw [(Course.of_pure h'').1] at hgoes
        cases hgoes
      | true =>
        rcases Course.of_askBind h'' with ⟨rfl, hclock⟩ | ⟨n3, now, -, h3⟩
        · have hstill := hH.still_of_pending hclock
          refine ⟨?_, fun hwaits => by cases hwaits⟩
          rw [hbegun j h'.le, ← runningTime_trans hle2 h''.le, (hgoing.of_awaitRunning hH).1,
            Nat.zero_add]
          exact hstill.timeWhere
        · rw [(Course.of_pure h3).1] at hgoes
          cases hgoes

lemma Course.of_waitRound {s call scope predicate e} (hgoes : e.isDone = false)
    (h : H.Course t i ((waitRound s call scope predicate r deadline).start l) j e) :
    (∃ d, d.isDone = false ∧ H.Course t i (standBy.start l) j d) ∨
    ∃ m, H.Finishes t i (standBy.start l) m (.ok (H.pausedTime i m), l) ∧ H.runningTime i m = 0 ∧
      ((m ≤ j ∧ H.Pending t m j (.nextFrame r (deadline + H.pausedTime i m))) ∨
      ∃ n arrival, H.Gets t m n (.nextFrame r (deadline + H.pausedTime i m)) arrival ∧
        H.Course t (n + 1)
          ((sift s call scope predicate (deadline + H.pausedTime i m) arrival).start l) j e) := by
  rw [waitRound_eq] at h
  rcases h.of_evalBind with ⟨d, hgoes', hd, -⟩ | ⟨_, _, _, -, rfl, -⟩ | ⟨m, extra, l', hstandBy, h⟩
  · exact .inl ⟨d, hgoes', hd⟩
  · cases hgoes
  · rcases hstandBy.of_standBy hH with ⟨heq, -⟩ | ⟨heq, hrunning⟩
    · cases heq
    · cases heq
      refine .inr ⟨m, hstandBy, hrunning, ?_⟩
      rcases Course.of_askBind h with ⟨-, hpending⟩ | ⟨n, arrival, hgets, h'⟩
      · exact .inl ⟨h.le, hpending⟩
      · exact .inr ⟨n, arrival, hgets, h'⟩

end Rounds

section Sift

variable {s : Setting} {call : Caller} {scope : Option ScopeId} {predicate : Expr} {deadline : Nat}
  {f : Frame} {l : Local}

lemma Finishes.of_sift {result}
    (h : H.Finishes t i ((sift s call scope predicate deadline (.frame f)).start l) j result) :
    (∃ e l', result = (.error e, l')) ∨
    ∃ m passes l', H.Finishes t i ((frameMatches s call scope predicate f).start l) m
        (.ok passes, l') ∧
      ((passes ∧ H.Finishes t m
          ((do bindFrame scope f; return .inr true : Eval (Nat ⊕ Bool)).start l') j result) ∨
      passes = false ∧ result = (.ok (.inl deadline), l') ∧
        ∃ n, H.Gets t m n .release () ∧ j = n + 1) := by
  rcases h.of_evalBind with ⟨e, l', -, heq⟩ | ⟨m, passes, l', htest, h⟩
  · exact .inl ⟨e, l', heq⟩
  · refine .inr ⟨m, passes, l', htest, ?_⟩
    cases passes with
    | true => exact .inl ⟨rfl, h⟩
    | false =>
      obtain ⟨n, _, hreleases, h⟩ := of_askBind h
      obtain ⟨rfl, rfl⟩ := of_pure h
      exact .inr ⟨rfl, rfl, n, hreleases, rfl⟩

end Sift

/-! ## How long a wait takes -/

variable (H)

/-- A task puts a frame to the test at a moment, and began to do so not before another one. -/
def InTest (t : TaskId) (test : Frame → Eval Bool) (i n : Nat) : Prop :=
  ∃ m f l e, i ≤ m ∧ e.isDone = false ∧ H.Course t m ((test f).start l) n e

open Classical in
/-- The time from one moment to another while the run is paused and a task puts a frame to the test.
    -/
noncomputable def pausedInTests (t : TaskId) (test : Frame → Eval Bool) (i j : Nat) : Nat :=
  H.timeWhere (fun n => (H.bench n).standing = .paused ∧ H.InTest t test i n) i j

/-- The deadline of a wait that began at one moment, at another: paused time has moved it away, but
    for what has passed in tests. -/
structure Deferred (t : TaskId) (test : Frame → Eval Bool) (millis i m deadline : Nat) : Prop where
  since : i ≤ m
  time : (H.bench i).now + millis + H.pausedTime i m ≤ deadline + H.pausedInTests t test i m

variable {H}

variable {result : Exit Bool}

section Deferred

variable {test : Frame → Eval Bool} {millis deadline : Nat}

lemma Finishes.inTest {f l} (h : H.Finishes t m ((test f).start l) j result)
    (him : i ≤ m) (hmn : m ≤ n) (hnj : n < j) : H.InTest t test i n := by
  obtain ⟨e, halong, -⟩ := h.course.along.split hmn hnj.le
  exact ⟨m, f, l, e, him, h.first n e hnj halong, h.course.begins, halong⟩

open Classical in
lemma pausedInTests_le (him : i ≤ m) (hmj : m ≤ j) :
    H.pausedInTests t test i m ≤ H.pausedInTests t test i j := by
  rw [pausedInTests, pausedInTests, ← timeWhere_trans him hmj]
  exact Nat.le_add_right _ _

open Classical in
lemma pausedInTests_eq_zero
    (h : ∀ n, i ≤ n → n < j → H.InTest t test i n → (H.bench n).standing ≠ .paused) :
    H.pausedInTests t test i j = 0 :=
  timeWhere_eq_zero fun n hin hnj hpaused => absurd hpaused.1 (h n hin hnj hpaused.2)

open Classical in
lemma Finishes.pausedInTests {f l} (h : H.Finishes t m ((test f).start l) j result) (him : i ≤ m) :
    H.pausedInTests t test i m + H.pausedTime m j ≤ H.pausedInTests t test i j := by
  rw [History.pausedInTests, History.pausedInTests, ← timeWhere_trans him h.le]
  exact Nat.add_le_add_left
    (timeWhere_le fun n hmn hnj hpaused => ⟨hpaused, h.inTest him hmn hnj⟩) _

namespace Deferred

lemma wait (h : H.Deferred t test millis i m deadline) (hmj : m ≤ j) :
    H.Deferred t test millis i j (deadline + H.pausedTime m j) := by
  refine ⟨h.since.trans hmj, ?_⟩
  have hpaused : H.pausedTime i m + H.pausedTime m j = H.pausedTime i j :=
    timeWhere_trans h.since hmj
  have htests : H.pausedInTests t test i m ≤ H.pausedInTests t test i j :=
    pausedInTests_le h.since hmj
  have htime := h.time
  omega

lemma still (h : H.Deferred t test millis i m deadline) (hmj : m ≤ j) (hstill : H.Still m j) :
    H.Deferred t test millis i j deadline := by
  have hnone : H.pausedTime m j = 0 := hstill.timeWhere
  have hlater := h.wait hmj
  rwa [hnone] at hlater

lemma tested {f l} (h : H.Deferred t test millis i m deadline)
    (htest : H.Finishes t m ((test f).start l) j result) :
    H.Deferred t test millis i j deadline := by
  refine ⟨h.since.trans htest.le, ?_⟩
  have hpaused : H.pausedTime i m + H.pausedTime m j = H.pausedTime i j :=
    timeWhere_trans h.since htest.le
  have htests := htest.pausedInTests h.since
  have htime := h.time
  omega

end Deferred

end Deferred

section Budget

variable (hH : H.Timed) {s : Setting} {call : Caller} {scope : Option ScopeId} {predicate : Expr}
  {millis deadline : Nat} {r : ReaderId} {l l' : Local}

include hH

/-- The pauses up to the moment when a round of a wait gets what it asks for defer the deadline. -/
lemma Deferred.waited {m1 n1 arrival}
    (h : H.Deferred t (frameMatches s call scope predicate) millis i m deadline)
    (henters : H.Enters t (waitRound s call scope predicate r) m n deadline l)
    (hle : n + 1 ≤ m1)
    (hgets : H.Gets t m1 n1 (.nextFrame r (deadline + H.pausedTime (n + 1) m1)) arrival) :
    H.Deferred t (frameMatches s call scope predicate) millis i (n1 + 1)
      (deadline + H.pausedTime (n + 1) m1) := by
  have hentered := h.still (j := n + 1) henters.next.le.step (hH.still_of_enters henters)
  have hwaited := hentered.wait (hle.trans hgets.le.step)
  rwa [hgets.pausedTime_of_nextFrame hH hle] at hwaited

/-- A round that leads to another one defers the deadline. -/
lemma Deferred.round {deadline'}
    (h : H.Deferred t (frameMatches s call scope predicate) millis i m deadline)
    (henters : H.Enters t (waitRound s call scope predicate r) m n deadline l)
    (hround : H.Finishes t (n + 1) ((waitRound s call scope predicate r deadline).start l) j
      (.ok (.inl deadline'), l')) :
    H.Deferred t (frameMatches s call scope predicate) millis i j deadline' := by
  rcases hround.of_waitRound hH with ⟨heq, -⟩ | ⟨m1, n1, arrival, hstandBy, -, hgets, hsift⟩
  · cases heq
  · have hwaited := h.waited hH henters hstandBy.le hgets
    cases arrival with
    | stopped | expired => cases hsift.of_pure.2
    | paused | lagged missed =>
      obtain ⟨rfl, heq⟩ := hsift.of_pure
      cases heq
      exact hwaited
    | frame f =>
      rcases hsift.of_sift with ⟨_, _, heq⟩ | ⟨m2, _, _, htest, ⟨-, hbind⟩ |
        ⟨-, heq, n2, hreleases, rfl⟩⟩
      · cases heq
      · rcases hbind.of_evalBind with ⟨_, _, -, heq⟩ | ⟨_, _, _, -, hlast⟩
        · cases heq
        · cases hlast.of_pure.2
      · cases heq
        exact (hwaited.tested htest).still hreleases.le.step (hH.still_of_gets hreleases)

/-- In the last round of a wait without a frame the deadline has come. -/
lemma Deferred.over (h : H.Deferred t (frameMatches s call scope predicate) millis i m deadline)
    (henters : H.Enters t (waitRound s call scope predicate r) m n deadline l)
    (hround : H.Finishes t (n + 1) ((waitRound s call scope predicate r deadline).start l) j
      (.ok (.inr false), l')) :
    millis ≤ H.runningTime i j + H.pausedInTests t (frameMatches s call scope predicate) i j := by
  rcases hround.of_waitRound hH with ⟨heq, -⟩ | ⟨m1, n1, arrival, hstandBy, -, hgets, hsift⟩
  · cases heq
  · cases arrival with
    | stopped | paused | lagged missed => cases hsift.of_pure.2
    | frame f =>
      rcases hsift.of_sift with ⟨_, _, heq⟩ | ⟨_, _, _, -, ⟨-, hbind⟩ | ⟨-, heq, -⟩⟩
      · cases heq
      · rcases hbind.of_evalBind with ⟨_, _, -, heq⟩ | ⟨_, _, _, -, hlast⟩
        · cases heq
        · cases hlast.of_pure.2
      · cases heq
    | expired =>
      obtain ⟨rfl, -⟩ := hsift.of_pure
      have hwaited := h.waited hH henters hstandBy.le hgets
      obtain ⟨hbench, hgoing, hdue⟩ := (nextFrame_delivers hgets.answer).of_expired
      rw [← hbench] at hgoing hdue
      have hnow := now_eq hwaited.since hgoing
      have htime := hwaited.time
      omega

/-- A wait takes a reader, goes round by round, and gives the reader back. -/
lemma Finishes.of_waitForFrame
    (h : H.Finishes t i ((waitForFrame s call scope predicate millis).start l) j result) :
    ∃ n r m, H.Gets t i n .listen r ∧ n < m ∧ H.Still i m ∧
      ((∃ e l', result = (.error e, l') ∧ H.Finishes t m
        ((loop (waitRound s call scope predicate r) ((H.bench i).now + millis)).start l) j
          (.error e, l')) ∨
      ∃ n' found l', result = (.ok found, l') ∧ H.Finishes t m
        ((loop (waitRound s call scope predicate r) ((H.bench i).now + millis)).start l) n'
          (.ok found, l') ∧ ∃ n'', H.Gets t n' n'' (.unlisten r) () ∧ j = n'' + 1) := by
  obtain ⟨n1, r, hlistens, h⟩ := h.of_askBind
  obtain ⟨n2, now, hnow, h⟩ := of_askBind h
  obtain ⟨n3, _, hreleases, h⟩ := of_askBind h
  have hstill1 := hH.still_of_gets hlistens
  have hstill2 := hH.still_of_gets hnow
  have hstill3 := hH.still_of_gets hreleases
  have hn1 := hlistens.le
  have hn2 := hnow.le
  have hn3 := hreleases.le
  have hstill : H.Still i (n2 + 1) := hstill1.trans hstill2
  have hbegan : now = (H.bench i).now := by
    rw [hnow.clock_eq]
    exact Still.now (fun k hik hkn => hstill k hik (by omega)) (by omega)
  rw [hbegan] at h
  refine ⟨n1, r, n3 + 1, hlistens, by omega, hstill.trans hstill3, ?_⟩
  rcases h.of_evalBind with ⟨e, l', hloop, heq⟩ | ⟨n, found, l', hloop, h⟩
  · exact .inl ⟨e, l', heq, hloop⟩
  · obtain ⟨n', _, hunlistens, h⟩ := of_askBind h
    obtain ⟨rfl, rfl⟩ := of_pure h
    exact .inr ⟨n, found, l', rfl, hloop, n', hunlistens, rfl⟩

lemma Deferred.loop (h : H.Deferred t (frameMatches s call scope predicate) millis i m deadline)
    (hloop : H.Finishes t m ((loop (waitRound s call scope predicate r) deadline).start l) j
      (.ok false, l')) :
    millis ≤ H.runningTime i j + H.pausedInTests t (frameMatches s call scope predicate) i j := by
  obtain ⟨m', n', deadline', l1, ⟨result, l2⟩, -, hm', henters, hround, hover⟩ := hloop.of_loop
    (I := fun m deadline _ =>
      H.Deferred t (frameMatches s call scope predicate) millis i m deadline)
    (fun h henters hround => h.round hH henters hround) h
  rcases result with _ | ⟨_ | _⟩
  · cases hover
  · cases hover
  · cases hover
    exact hm'.over hH henters hround

/-- **How long a wait takes that is over without a frame.**  Let the clock move as that of a
    schedule does, and let a wait for a frame come to its end because the time is over. Whatever its
    predicate, whatever has arrived and however often the run was paused, the run has then gone on
    for the time of the wait, but for the time that it was paused while a frame was put to the
    test.  So a pause is not counted, unless it falls into a test. -/
theorem wait_timeout_budget
    (h : H.Finishes t i ((waitForFrame s call scope predicate millis).start l) j
      (.ok false, l')) :
    millis ≤ H.runningTime i j + H.pausedInTests t (frameMatches s call scope predicate) i j ∧
    ((∀ n, i ≤ n → n < j → H.InTest t (frameMatches s call scope predicate) i n →
      (H.bench n).standing ≠ .paused) → millis ≤ H.runningTime i j) := by
  have hbudget : millis
      ≤ H.runningTime i j + H.pausedInTests t (frameMatches s call scope predicate) i j := by
    obtain ⟨n, r, m, hlistens, hnm, hstill, ⟨_, _, heq, -⟩ |
      ⟨n', found, l'', heq, hloop, n'', hunlistens, rfl⟩⟩ := h.of_waitForFrame hH
    · cases heq
    · cases heq
      have hin := hlistens.le
      have him : i ≤ m := by omega
      have hbegun : H.Deferred t (frameMatches s call scope predicate) millis i i
          ((H.bench i).now + millis) := by
        refine ⟨Nat.le_refl i, ?_⟩
        rw [pausedTime, timeWhere_self]
        exact Nat.le_add_right _ _
      have htime := (hbegun.still him hstill).loop hH hloop
      have hmn' := hloop.le
      have hlater : n' ≤ n'' + 1 := Nat.le_succ_of_le hunlistens.le
      have htests : H.pausedInTests t (frameMatches s call scope predicate) i n' ≤ _ :=
        pausedInTests_le (Nat.le_trans him hmn') hlater
      rw [← runningTime_trans (Nat.le_trans him hmn') hlater]
      omega
  refine ⟨hbudget, fun hapart => ?_⟩
  rwa [pausedInTests_eq_zero hapart] at hbudget

end Budget

end History

/-! ## A pause within a test -/

/-- The call that a frame has to satisfy. -/
def slowCall : Expr :=
  .call ⟨3, 10⟩ (.name ⟨3, 10⟩ "slow") []

def slowWaitProgram : Program where
  functions := [⟨⟨1, 1⟩, "slow", [], [.delay ⟨1, 19⟩ (.literal ⟨1, 25⟩ (.int 100)),
    .giveBack ⟨2, 1⟩ (some (.literal ⟨2, 8⟩ (.bool false)))]⟩]
  statements := [.waitFor ⟨3, 1⟩ slowCall (.literal ⟨3, 26⟩ (.int 200)) none]

def slowWaitSetting : Setting :=
  ⟨slowWaitProgram, ["can0"], {}⟩

/-- A frame arrives, and the run is paused for one second while the frame is put to the test. -/
def slowWaitHistory : History :=
  .ofRun slowWaitSetting <|
    movesOf 0 1 ++ movesOf 1 9 ++ [.inject ⟨1, [], false, "can0", 0⟩] ++ movesOf 0 3 ++
    movesOf 1 20 ++ [.elapses 50, .pause] ++ movesOf 1 3 ++
    [.elapses 1000, .resume] ++ movesOf 1 2 ++ [.elapses 50] ++ movesOf 1 11

def slowWait : Process (Except Interrupt Bool × Local) :=
  (waitForFrame slowWaitSetting slowWaitSetting.call none slowCall 200).start { sinceYield := 1 }

lemma slowWait_begun : slowWaitHistory.Begins 1 3 slowWait := by
  have hstmt : slowWaitHistory.Begins 1 3 _ := History.begins_first (s := slowWaitSetting) 3
    (by with_unfolding_all rfl) (by decide +kernel) (by with_unfolding_all rfl)
  have hwait : slowWaitHistory.Begins 1 3 ((waitOrElse slowWaitSetting slowWaitSetting.call none
      slowCall ⟨3, 1⟩ none 200).start { sinceYield := 1 }) := hstmt
  exact hwait.of_bind

theorem wait_timeout_budget_paused :
    slowWaitHistory.Timed ∧ slowWaitHistory.runningTime 3 55 = 100 ∧
    slowWaitHistory.pausedTime 3 55 = 1000 ∧
    100 ≤ slowWaitHistory.pausedInTests 1
      (frameMatches slowWaitSetting slowWaitSetting.call none slowCall) 3 55 := by
  have htimed : slowWaitHistory.Timed := History.timed_ofRun (by decide +kernel)
  obtain ⟨⟨result, l⟩, hover, hresult⟩ := History.Finishes.of_left (k := 52) (f := Prod.fst)
    (b := .ok false) slowWait_begun (by decide +kernel) (by decide +kernel)
  cases hresult
  have hrunning : slowWaitHistory.runningTime 3 55 = 100 := by decide +kernel
  have hbudget := (History.wait_timeout_budget htimed hover).1
  rw [hrunning] at hbudget
  exact ⟨htimed, hrunning, by decide +kernel, Nat.le_of_add_le_add_left hbudget⟩

/-- The program as a script. -/
def slowWaitScript : String :=
  "function slow() \x7b delay(100)\nreturn false \x7d\nwait_for(slow()) timeout(200)"

/-- The session in which it was started and waits. -/
def slowWaitStarted : Session :=
  Machine.settle ((Session.ofLimits {} (.ofCapacity 256)).start slowWaitScript ["can0"]).1

/-- A frame arrives, and the run is paused for one second after 50 milliseconds. -/
def pausedInTest : List HostStep :=
  [.inject [⟨1, [], false, "can0", 0⟩], .advance 50, .pause, .advance 1000, .resume, .advance 60]

/-- The run has gone on for 110 milliseconds, and a wait for 200 is over. -/
theorem wait_over_early :
    (Program.ofSource slowWaitScript).2 = [] ∧ slowWaitStarted.bench.log.errors = #[] ∧
    slowWaitStarted.runningTime pausedInTest = 110 ∧
    (slowWaitStarted.applyAll pausedInTest).bench.log.errors
      = #[(Fault.waitTimedOut 200).toDiagnostic ⟨3, 1⟩] := by
  decide +kernel

end CanScript
