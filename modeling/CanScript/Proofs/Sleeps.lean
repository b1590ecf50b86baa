import CanScript.Proofs.Spans

/-! # Sleeps

    A sleep is made of stretches, each of which ends with the sleep or with a pause.  What is left
    of it is reckoned anew from the clock at every pause. -/

namespace CanScript

open Process Bench

namespace Bench

variable {b b' : Bench}

lemma paused_of_standing (hgoing : b.isCancelled = false) (h : b'.standing = b.standing) :
    b'.isCancelled = false ∧ b'.isPaused = b.isPaused := by
  rw [standing, standing, hgoing, if_neg Bool.false_ne_true] at h
  cases hgoing' : b'.isCancelled with
  | true =>
    rw [hgoing'] at h
    cases hpaused : b.isPaused <;> rw [hpaused] at h <;> cases h
  | false =>
    rw [hgoing'] at h
    cases hpaused : b.isPaused <;> cases hpaused' : b'.isPaused <;>
      rw [hpaused, hpaused'] at h <;> first | exact ⟨rfl, rfl⟩ | cases h

lemma perform_awaitRunning (hgoing : b.isCancelled = false) (t) :
    b.perform t .awaitRunning = if b.isPaused then .wait b else .done b true := by
  rw [perform, standing, hgoing, if_neg Bool.false_ne_true]
  cases b.isPaused <;> rfl

lemma perform_sleepUntil (hgoing : b.isCancelled = false) (t deadline) :
    b.perform t (.sleepUntil deadline true) = if deadline ≤ b.now then .done b Waking.expired
      else if b.isPaused then .done b Waking.paused else .wait b := by
  rw [perform, sleepUntil, hgoing, if_neg Bool.false_ne_true, Bool.true_and]

end Bench

namespace Eval

/-! ## The stages of a sleep -/

def afterStretch (l : Local) (began length : Nat) : Waking → Process (Except Interrupt Unit × Local)
  | .expired => .pure (.ok (), l)
  | .stopped => .pure (.error .stopped, l)
  | .paused => .act .clock fun now : Nat => (sleep (length - (now - began))).start l

def stretchUntil (l : Local) (began length : Nat) : Process (Except Interrupt Unit × Local) :=
  .act (.sleepUntil (began + length) true) (afterStretch l began length)

def stretchFrom (l : Local) (length : Nat) : Process (Except Interrupt Unit × Local) :=
  .act .clock fun began : Nat => stretchUntil l began length

def stretch (l : Local) (length : Nat) : Process (Except Interrupt Unit × Local) :=
  .act .awaitRunning fun going : Bool =>
    if going then stretchFrom l length else .pure (.error .stopped, l)

lemma sleep_step (length l b t) : ((sleep length).start l).step b t = stretch l length := by
  show act _ _ = act _ _
  congr 1
  funext going
  cases going with
  | false => rfl
  | true =>
    show act _ _ = act _ _
    congr 1
    funext began
    show act _ _ = act _ _
    congr 1
    funext waking
    cases waking <;> rfl

/-- Where a sleep is: before a stretch, waiting for the run to go on, about to look at the clock, in
    the stretch, or roused from it by a pause. -/
inductive Stage where
  | entering (length : Nat)
  | awaiting (length : Nat)
  | reading (length : Nat)
  | sleeping (began length : Nat)
  | roused (began length : Nat)

namespace Stage

variable {b : Bench} {t : TaskId} {l : Local} {st st' : Stage}

def process (l : Local) : Stage → Process (Except Interrupt Unit × Local)
  | entering length => (sleep length).start l
  | awaiting length => stretch l length
  | reading length => stretchFrom l length
  | sleeping began length => stretchUntil l began length
  | roused began length => afterStretch l began length .paused

/-- The stage after a move, if the sleep is not over. -/
def next (b : Bench) : Stage → Option Stage
  | entering length => some (awaiting length)
  | awaiting length => some (if b.isPaused then awaiting length else reading length)
  | reading length => some (sleeping b.now length)
  | sleeping began length =>
    if began + length ≤ b.now then none
    else some (if b.isPaused then roused began length else sleeping began length)
  | roused began length => some (entering (length - (b.now - began)))

/-- Whether a move does nothing at a stage. -/
def waits (b : Bench) : Stage → Bool
  | awaiting _ => b.isPaused
  | sleeping began length => b.now < began + length && !b.isPaused
  | _ => false

def left (now : Nat) : Stage → Nat
  | entering length | awaiting length | reading length => length
  | sleeping began length | roused began length => began + length - now

def Begun (now : Nat) : Stage → Prop
  | sleeping began _ | roused began _ => began ≤ now
  | _ => True

lemma Begun.later {now later} (h : st.Begun now) (hle : now ≤ later) : st.Begun later := by
  cases st with
  | sleeping began length | roused began length => exact h.trans hle
  | _ => exact True.intro

lemma isDone_process (st : Stage) : (st.process l).isDone = false := by
  cases st <;> rfl

/-- Before a stretch begins, a sleep only enters it.  Else it makes a request, which is left open if
    the sleep waits and is followed by the next stage or the end of the sleep if it does not. -/
lemma enters_or_asks (hgoing : b.isCancelled = false) (st) :
    (∃ length, st = entering length) ∨ ∃ op next, st.process l = .act op next ∧
      (st.waits b ∧ b.perform t op = .wait b ∧ st.next b = some st ∨
        st.waits b = false ∧ ∃ reply, b.perform t op = .done b reply ∧
          next reply = ((st.next b).map (process l)).getD (.pure (.ok (), l))) := by
  cases st with
  | entering length => exact .inl ⟨length, rfl⟩
  | reading length | roused began length =>
    exact .inr ⟨_, _, rfl, .inr ⟨rfl, b.now, rfl, rfl⟩⟩
  | awaiting length =>
    have hperform := b.perform_awaitRunning hgoing t
    refine .inr ⟨_, _, rfl, ?_⟩
    rw [waits, next]
    cases hpaused : b.isPaused with
    | true =>
      rw [hpaused, if_pos rfl] at hperform
      exact .inl ⟨rfl, hperform, rfl⟩
    | false =>
      rw [hpaused, if_neg Bool.false_ne_true] at hperform
      exact .inr ⟨rfl, _, hperform, rfl⟩
  | sleeping began length =>
    have hperform := b.perform_sleepUntil hgoing t (began + length)
    refine .inr ⟨_, _, rfl, ?_⟩
    rw [waits, next]
    by_cases hdue : began + length ≤ b.now
    · rw [if_pos hdue] at hperform ⊢
      exact .inr ⟨by rw [decide_eq_false hdue.not_gt]; rfl, _, hperform, rfl⟩
    · rw [if_neg hdue] at hperform ⊢
      rw [decide_eq_true (not_le.mp hdue)]
      cases hpaused : b.isPaused with
      | true =>
        rw [hpaused, if_pos rfl] at hperform
        exact .inr ⟨rfl, _, hperform, rfl⟩
      | false =>
        rw [hpaused, if_neg Bool.false_ne_true] at hperform
        exact .inl ⟨rfl, hperform, rfl⟩

lemma step_process (hgoing : b.isCancelled = false) (st : Stage) :
    (st.process l).step b t = ((st.next b).map (process l)).getD (.pure (.ok (), l)) := by
  rcases enters_or_asks hgoing st with ⟨length, rfl⟩ |
    ⟨op, next, hprocess, ⟨-, hperform, hnext⟩ | ⟨-, reply, hperform, hnext⟩⟩
  · exact sleep_step length l b t
  · rw [hnext, Option.map_some, Option.getD_some, hprocess]
    exact step_of_wait (by rw [hperform]; rfl)
  · rw [hprocess, ← hnext]
    exact step_of_answer (by rw [hperform]; rfl)

lemma waits_process (hgoing : b.isCancelled = false) (st : Stage) :
    (st.process l).waits b t = st.waits b := by
  rcases enters_or_asks hgoing st with ⟨length, rfl⟩ |
    ⟨op, next, hprocess, ⟨hwaits, hperform, -⟩ | ⟨hwaits, reply, hperform, -⟩⟩
  · rfl
  all_goals
    rw [hprocess, hwaits, Process.waits, hperform]
    rfl

lemma rests_process (hgoing : b.isCancelled = false) (h : st.waits b) :
    (st.process l).Rests b t := by
  intro b' hnow hstanding
  obtain ⟨hgoing', hpaused⟩ := paused_of_standing hgoing hstanding
  rw [waits_process hgoing', ← h]
  cases st with
  | awaiting length => exact hpaused
  | sleeping began length => rw [waits, waits, hnow, hpaused]
  | _ => rfl

lemma left_next (hbegun : st.Begun b.now) (h : st.next b = some st') :
    st'.Begun b.now ∧ st'.left b.now = st.left b.now := by
  cases st with
  | entering length =>
    cases h
    exact ⟨True.intro, rfl⟩
  | awaiting length =>
    obtain rfl := Option.some.inj h
    cases b.isPaused <;> exact ⟨True.intro, rfl⟩
  | reading length =>
    cases h
    exact ⟨le_rfl, Nat.add_sub_cancel_left _ _⟩
  | sleeping began length =>
    rw [next] at h
    split at h
    · cases h
    · obtain rfl := Option.some.inj h
      cases b.isPaused <;> exact ⟨hbegun, rfl⟩
  | roused began length =>
    cases h
    refine ⟨True.intro, ?_⟩
    show length - (b.now - began) = began + length - b.now
    have hle : began ≤ b.now := hbegun
    omega

lemma left_of_next_none (h : st.next b = none) : st.left b.now = 0 := by
  cases st with
  | sleeping began length =>
    rw [next] at h
    split at h
    · next hdue => exact Nat.sub_eq_zero_of_le hdue
    · cases h
  | _ => cases h

lemma left_clock (hgoing : b.isCancelled = false) (hwaits : st.waits b) {now} (hnow : b.now ≤ now)
    (hdeadline : ∀ deadline, (st.process l).deadline? = some deadline → now ≤ deadline) :
    b.timeAs .running now + st.left now = st.left b.now := by
  cases st with
  | awaiting length =>
    rw [timeAs, standing_of_paused hgoing hwaits, if_neg (by decide), Nat.zero_add]
    rfl
  | sleeping began length =>
    obtain ⟨hearly, hpaused⟩ := Bool.and_eq_true_iff.mp hwaits
    have hunpaused : b.isPaused = false := by simpa using hpaused
    have hwithin := hdeadline (began + length) rfl
    rw [timeAs, standing_of_running hgoing hunpaused, if_pos rfl, left, left]
    omega
  | _ => cases hwaits

lemma left_pos (hwaits : st.waits b) (hpaused : b.isPaused = false) : 0 < st.left b.now := by
  cases st with
  | awaiting length => cases hpaused.symm.trans hwaits
  | sleeping began length =>
    have hearly := of_decide_eq_true (Bool.and_eq_true_iff.mp hwaits).1
    rw [left]
    omega
  | _ => cases hwaits

def toGo (paused : Bool) : Stage → Nat
  | entering _ => if paused then 2 else 4
  | awaiting _ => if paused then 1 else 3
  | reading _ => if paused then 5 else 2
  | sleeping .. => if paused then 4 else 1
  | roused .. => if paused then 3 else 5

lemma toGo_le (paused) (st : Stage) : st.toGo paused ≤ 5 := by
  cases st <;> cases paused <;> simp [toGo]

lemma toGo_pos (paused) (st : Stage) : 0 < st.toGo paused := by
  cases st <;> cases paused <;> simp [toGo]

lemma toGo_next (hwaits : st.waits b = false) (h : st.next b = some st') :
    st'.toGo b.isPaused < st.toGo b.isPaused := by
  cases st with
  | awaiting length =>
    have hpaused : b.isPaused = false := hwaits
    obtain rfl := Option.some.inj h
    simp [toGo, hpaused]
  | sleeping began length =>
    rw [next] at h
    split at h
    · cases h
    · next hearly =>
        have hpaused : b.isPaused := by
          rw [waits, decide_eq_true (not_le.mp hearly)] at hwaits
          simpa using hwaits
        obtain rfl := Option.some.inj h
        simp [toGo, hpaused]
  | entering length | reading length | roused began length =>
    cases h
    cases b.isPaused <;> simp [toGo]

lemma prompt_of_next (hgoing : b.isCancelled = false) (hwaits : st.waits b = false) {n}
    (h : ∀ st', st.next b = some st' → Prompt t n b (st'.process l)) :
    Prompt t (n + 1) b (st.process l) := by
  rcases enters_or_asks hgoing st with ⟨length, rfl⟩ |
    ⟨op, next, hprocess, ⟨hwaits', -⟩ | ⟨-, reply, hperform, hnext⟩⟩
  · have hnext := h (awaiting length) rfl
    rw [process, ← sleep_step length l b t] at hnext
    exact .loop hnext
  · cases hwaits.symm.trans hwaits'
  · rw [hprocess]
    refine .act hperform ?_
    rw [hnext]
    cases hst : st.next b with
    | none => exact .ended
    | some st' => exact h st' hst

lemma prompt (hgoing : b.isCancelled = false) {n} (hn : st.toGo b.isPaused ≤ n) :
    Prompt t n b (st.process l) := by
  induction n generalizing st with
  | zero => exact absurd hn (toGo_pos _ st).not_ge
  | succ n ih =>
    cases hwaits : st.waits b with
    | true => exact .rests (rests_process hgoing hwaits)
    | false =>
      exact prompt_of_next hgoing hwaits fun st' hnext =>
        ih (Nat.le_of_lt_succ ((toGo_next hwaits hnext).trans_le hn))

end Stage

end Eval

/-! ## Sleeps in a session -/

namespace Session

open Eval

variable {t : TaskId} {d : Nat} {l : Local} {s₀ s : Session} {running paused : Nat}
  {e : Process (Except Interrupt Unit × Local)}

/-- The time that was slept and the time that is left are the whole time of a sleep. -/
lemma Span.sleeps (h : Span t s₀ ((sleep d).start l) running paused s e)
    (hgoing : s.bench.isCancelled = false) : (e = .pure (.ok (), l) ∧ running = d) ∨
    ∃ st : Stage, e = st.process l ∧ st.Begun s.bench.now ∧ running + st.left s.bench.now = d := by
  induction h with
  | start => exact .inr ⟨.entering d, rfl, True.intro, Nat.zero_add d⟩
  | @own running paused s' s'' e _ hgoes hstep ih =>
    have hbefore := (Steps.single hstep).going hgoing
    rcases ih hbefore with ⟨rfl, -⟩ | ⟨st, rfl, hbegun, hleft⟩
    · cases hgoes
    · rw [Stage.step_process hbefore, hstep.now_of_some]
      cases hnext : st.next s'.bench with
      | none =>
        rw [Stage.left_of_next_none hnext] at hleft
        exact .inl ⟨rfl, hleft⟩
      | some st' =>
        obtain ⟨hbegun', hsame⟩ := Stage.left_next hbegun hnext
        exact .inr ⟨st', rfl, hbegun', hsame ▸ hleft⟩
  | other _ _ hstep _ hnow ih =>
    rw [hnow]
    exact ih ((Steps.single hstep).going hgoing)
  | @clock running paused now s' e _ hwaits hle hdeadline ih =>
    rcases ih hgoing with ⟨rfl, -⟩ | ⟨st, rfl, hbegun, hleft⟩
    · cases hwaits
    · have hgoing' : s'.bench.isCancelled = false := hgoing
      rw [Stage.waits_process hgoing'] at hwaits
      have hclock := Stage.left_clock hgoing' hwaits hle hdeadline
      refine .inr ⟨st, rfl, hbegun.later hle, ?_⟩
      show running + s'.bench.timeAs .running now + st.left now = d
      omega

lemma begins_sleep (hs₀ : s₀.Orderly) {k : Exit Unit → Process Unit}
    (hbegun : ⟨t, ((sleep d).start l).bind k⟩ ∈ s₀.tasks) :
    Span.Begins t s₀ ((sleep d).start l) k := by
  refine ⟨hs₀, hbegun, fun hspan hgoing => ?_⟩
  rcases hspan.sleeps hgoing with ⟨rfl, -⟩ | ⟨st, rfl, -⟩
  · exact ⟨0, by decide, .ended⟩
  · exact ⟨5, by decide, Stage.prompt hgoing (Stage.toGo_le _ st)⟩

lemma Span.sleep_over (h : Span t s₀ ((sleep d).start l) running paused s e)
    (hgoing : s.bench.isCancelled = false) {r} (hr : e = .pure r) :
    r = (.ok (), l) ∧ running = d := by
  rcases h.sleeps hgoing with ⟨rfl, hd⟩ | ⟨st, rfl, -⟩
  · cases hr
    exact ⟨rfl, hd⟩
  · have hdone := st.isDone_process (l := l)
    rw [hr] at hdone
    cases hdone

lemma Span.sleep_going (h : Span t s₀ ((sleep d).start l) running paused s e)
    (hgoing : s.bench.isCancelled = false) (hgoes : e.isDone = false) :
    running ≤ d ∧ (e.waits s.bench t → s.bench.isPaused = false → running < d) := by
  rcases h.sleeps hgoing with ⟨rfl, -⟩ | ⟨st, rfl, -, hleft⟩
  · cases hgoes
  · refine ⟨by omega, fun hwaits hpaused => ?_⟩
    rw [Stage.waits_process hgoing] at hwaits
    have hpos := Stage.left_pos hwaits hpaused
    omega

lemma Span.Past.sleep (h : Past t s₀ ((sleep d).start l) running s)
    (hgoing : s.bench.isCancelled = false) :
    d ≤ running ∧ ∃ paused s₁, Span t s₀ ((sleep d).start l) d paused s₁ (.pure (.ok (), l)) ∧
      Steps s₁ s := by
  obtain ⟨running', paused, s₁, r, hle, hspan, hsteps⟩ := h
  obtain ⟨rfl, rfl⟩ := hspan.sleep_over (hsteps.going hgoing) rfl
  exact ⟨hle, paused, s₁, hspan, hsteps⟩

/-- **Sleeps count running time.**  Let a task begin a sleep.  As long as the run is not told to
    end, whatever happens and however often it is paused and resumed:

    * all time since then is time that the run went on or was paused;
    * where the sleep is over, it has ended well, and the run went on for just its time;
    * before that, the run went on for no longer, and for less if nothing but time or the host
      can take the sleep on while the run goes on;
    * so when the host has taken steps and the tasks have gone on, the sleep is still going on
      if the run went on for less than its time, and else it was over on the way, when the run
      had gone on for just its time. -/
theorem sleep_counts_running_time (hs₀ : s₀.Orderly)
    {k : Except Interrupt Unit × Local → Process Unit}
    (hbegun : ⟨t, ((sleep d).start l).bind k⟩ ∈ s₀.tasks)
    (hspan : Span t s₀ ((sleep d).start l) running paused s e)
    (hgoing : s.bench.isCancelled = false) :
    s.bench.now = s₀.bench.now + running + paused ∧
    (∀ r, e = .pure r → r = (.ok (), l) ∧ running = d) ∧
    (e.isDone = false → running ≤ d ∧
      (e.waits s.bench t = true → s.bench.isPaused = false → running < d) ∧
      ∀ steps : List HostStep, (∀ step ∈ steps, step.keepsRun = true) →
        (Machine.settle (s.applyAll steps)).bench.isCancelled = false →
        (running + s.runningTime steps < d →
          Span.Ongoing t s₀ ((sleep d).start l) (running + s.runningTime steps)
            (Machine.settle (s.applyAll steps))) ∧
        (d < running + s.runningTime steps ∨
            d = running + s.runningTime steps ∧ (s.applyAll steps).bench.isPaused = false →
          ∃ paused' s₁, Span t s₀ ((sleep d).start l) d paused' s₁ (.pure (.ok (), l)) ∧
            Steps s₁ (Machine.settle (s.applyAll steps)))) := by
  refine ⟨hspan.now hgoing, fun r hr => hspan.sleep_over hgoing hr, fun hgoes => ?_⟩
  obtain ⟨hle, hlt⟩ := hspan.sleep_going hgoing hgoes
  refine ⟨hle, hlt, fun steps hsteps hgoing' => ?_⟩
  have hpaused := Bench.paused_of_standing
    ((settleWithin_steps passLimit (s.applyAll steps)).going hgoing')
    ((settleWithin_moves passLimit (s.applyAll steps)).standing hgoing')
  rcases (begins_sleep hs₀ hbegun).rests_or_past hspan hgoes hsteps hgoing' with hrests | hpast
  · refine ⟨fun _ => hrests.ongoing, fun htime => ?_⟩
    obtain ⟨paused', e', hspan', hrests'⟩ := hrests
    obtain ⟨hle', hlt'⟩ := hspan'.sleep_going hgoing' hrests'.isDone
    rcases htime with hmore | ⟨hjust, hunpaused⟩
    · omega
    · have hless := hlt' hrests'.waits (hpaused.2.trans hunpaused)
      omega
  · obtain ⟨hpast', hover⟩ := hpast.sleep hgoing'
    exact ⟨fun hless => by omega, fun _ => hover⟩

end Session

/-! ## A sleep with a pause -/

def sleepyProgram : Program where
  statements := [.delay ⟨1, 1⟩ (.literal ⟨1, 7⟩ (.int 1000)),
    .delay ⟨2, 1⟩ (.literal ⟨2, 7⟩ (.int 1000))]

def sleepySetting : Setting :=
  ⟨sleepyProgram, ["can0"], {}⟩

/-- The session after its main task has come to the first sleep. -/
def fallenAsleep : Session :=
  (History.ofRun sleepySetting (movesOf 1 3)).session 3

lemma fallenAsleep_begun :
    ∃ k, ⟨1, ((Eval.sleep 1000).start { sinceYield := 1 }).bind k⟩ ∈ fallenAsleep.tasks := by
  refine ⟨?k, ?mem⟩
  case mem =>
    apply List.mem_of_getElem? (i := 1)
    with_unfolding_all rfl

/-- The run is paused for two seconds in the middle of the sleep. -/
def pausedFor (last : Nat) : List HostStep :=
  [.advance 400, .pause, .advance 2000, .resume, .advance last]

theorem sleep_counts_running_time_paused :
    fallenAsleep.runningTime (pausedFor 599) = 999 ∧
    Session.Span.Ongoing 1 fallenAsleep ((Eval.sleep 1000).start { sinceYield := 1 }) 999
      (Machine.settle (fallenAsleep.applyAll (pausedFor 599))) ∧
    fallenAsleep.runningTime (pausedFor 600) = 1000 ∧
    ∃ paused s₁, Session.Span 1 fallenAsleep ((Eval.sleep 1000).start { sinceYield := 1 }) 1000
        paused s₁ (.pure (.ok (), { sinceYield := 1 })) ∧
      Session.Steps s₁ (Machine.settle (fallenAsleep.applyAll (pausedFor 600))) := by
  have horderly : fallenAsleep.Orderly :=
    (History.ofRun sleepySetting (movesOf 1 3)).orderly_at 3
  obtain ⟨k, hbegun⟩ := fallenAsleep_begun
  obtain ⟨-, -, hgoes⟩ :=
    Session.sleep_counts_running_time horderly hbegun .start (by decide +kernel)
  obtain ⟨-, -, hsteps⟩ := hgoes rfl
  have hearly : fallenAsleep.runningTime (pausedFor 599) = 999 := by decide +kernel
  have hlate : fallenAsleep.runningTime (pausedFor 600) = 1000 := by decide +kernel
  have hbefore := (hsteps (pausedFor 599) (by decide) (by decide +kernel)).1
  have hafter := (hsteps (pausedFor 600) (by decide) (by decide +kernel)).2
  rw [hearly, Nat.zero_add] at hbefore
  rw [hlate, Nat.zero_add] at hafter
  exact ⟨hearly, hbefore (by decide), hlate, hafter (.inr ⟨rfl, by decide +kernel⟩)⟩

end CanScript
