import CanScript.Proofs.Withholding

/-! # Pauses

    A pause is told to a run when none of its tasks can go on.  From then on until the run is
    resumed or stopped no task gets past a checkpoint, so no statement is begun.  What can be seen
    of the script in that time is done by tasks that were in the middle of a write, before they come
    to a point where they are held up. -/

namespace CanScript

open Process

/-! ## Requests -/

namespace Request

/-- Whether a pause holds up the task that makes a request: before a statement or a round of a loop,
    before a sleep or a wait, and before the next frame. -/
def isHalt : Request → Bool
  | standing => true
  | awaitRunning => true
  | receive _ => true
  | _ => false

/-- Whether a task that makes a request and has to wait is in the middle of a write. -/
def isWrite : Request → Bool
  | claimPort _ => true
  | sleepUntil _ heedPause => !heedPause
  | _ => false

def isSleep : Request → Bool
  | sleepUntil _ heedPause => heedPause
  | nextFrame _ _ => true
  | _ => false

/-- Whether a host could notice the request. -/
def isLoud : Request → Bool
  | setGlobals _ => true
  | report _ => true
  | print _ => true
  | finish => true
  | transmit _ => true
  | _ => false

end Request

variable {op : Request}

namespace Bench

variable {t : TaskId} {b b' : Bench}

lemma sleepUntil_waits {deadline heedPause}
    (h : (b.sleepUntil deadline heedPause).answer? = none) : b.now < deadline := by
  rw [sleepUntil] at h
  split at h
  · cases h
  · split at h
    · cases h
    · next hearly => exact not_le.mp hearly

lemma cancelled_or_paused (h : b.standing ≠ .running) :
    b.isCancelled ∨ b.isCancelled = false ∧ b.isPaused := by
  cases hcancelled : b.isCancelled with
  | true => exact .inl rfl
  | false =>
    refine .inr ⟨rfl, ?_⟩
    by_contra hpaused
    refine h ?_
    rw [standing, hcancelled, if_neg Bool.false_ne_true, if_neg hpaused]

/-- A sleep that goes on ends when the run does not go on, before its time. -/
lemma roused (hop : op.isSleep) (hwaits : (b.perform t op).answer? = none)
    (hstanding : b'.standing ≠ .running) (hnow : b'.now = b.now) :
    ∃ b'' reply, (b'.perform t op).answer? = some (b'', reply) ∧ op.Breaks reply := by
  have hnot := cancelled_or_paused hstanding
  cases op with
  | sleepUntil deadline heedPause =>
    have hheeds : heedPause := hop
    subst hheeds
    have hearly : ¬ deadline ≤ b'.now := by
      rw [hnow]
      exact (sleepUntil_waits hwaits).not_ge
    rcases hnot with hcancelled | ⟨hgoing, hpaused⟩
    · have hstopped : b'.sleepUntil deadline true = .done b' Waking.stopped := if_pos hcancelled
      have hreply : Waking.stopped ≠ .expired := by simp
      exact ⟨b', _, congrArg Outcome.answer? hstopped, hreply⟩
    · have hpauses : b'.sleepUntil deadline true = .done b' Waking.paused := by
        rw [sleepUntil, hgoing, if_neg Bool.false_ne_true, if_neg hearly, hpaused]
        rfl
      have hreply : Waking.paused ≠ .expired := by simp
      exact ⟨b', _, congrArg Outcome.answer? hpauses, hreply⟩
  | nextFrame r deadline =>
    have hearly : ¬ deadline ≤ b'.now := by
      rw [hnow]
      exact (nextFrame_waits hwaits).2.2.1.not_ge
    rcases hnot with hcancelled | ⟨hgoing, hpaused⟩
    · have hstopped : b'.nextFrame r deadline = .done b' Arrival.stopped := if_pos hcancelled
      exact ⟨b', _, congrArg Outcome.answer? hstopped, .inr rfl⟩
    · have hpauses : b'.nextFrame r deadline = .done b' Arrival.paused := by
        rw [nextFrame, hgoing, if_neg Bool.false_ne_true, if_neg (mt And.left hearly),
          if_pos hpaused]
      exact ⟨b', _, congrArg Outcome.answer? hpauses, .inl rfl⟩
  | _ => cases hop

lemma waits_cases (h : (b.perform t op).answer? = none) (hturn : b.turn = none) :
    op.isWrite ∨ op.isHalt ∨ op.isSleep := by
  cases op with
  | acquire =>
    obtain ⟨-, u, hu, -⟩ := acquire_waits h
    cases hturn.symm.trans hu
  | awaitRunning => exact .inr (.inl rfl)
  | sleepUntil deadline heedPause =>
    cases heedPause with
    | true => exact .inr (.inr rfl)
    | false => exact .inl rfl
  | nextFrame r deadline => exact .inr (.inr rfl)
  | receive source => exact .inr (.inl rfl)
  | claimPort port => exact .inl rfl
  | setGlobals bs =>
    rw [perform] at h
    split at h <;> cases h
  | _ => cases h

end Bench

namespace Session

lemma Silent.of_change {t b b'} (h : Bench.Change t b op b') (hop : op.isLoud = false)
    (tasks tasks') : Silent ⟨b, tasks⟩ ⟨b', tasks'⟩ ∧ b'.state = b.state := by
  cases h with
  | globals bs _ => cases hop
  | transmit f => cases hop
  | report d => cases hop
  | print text => cases hop
  | finish => cases hop
  | _ => exact ⟨⟨rfl, rfl, rfl, rfl, rfl, rfl, rfl⟩, rfl⟩

lemma Silent.of_withheld {k t b} (hop : op.Withheld k) (hfits : k.Fits t b) (tasks tasks') :
    Silent ⟨b, tasks⟩ ⟨(b.perform t op).bench, tasks'⟩ ∧
      (b.perform t op).bench.state = b.state := by
  have hquiet := fun hloud => of_change (b.perform_change t op) hloud tasks tasks'
  cases op with
  | setGlobals bs =>
    rw [Bench.perform]
    by_cases hturn : b.turn = some t
    · rw [if_pos hturn]
      cases hglobals : k.globals? with
      | none => exact absurd hturn (hfits.free hglobals)
      | some bs' =>
        have hsame : bs = b.globals := (hop bs' hglobals).trans (hfits.held bs' hglobals).2.symm
        exact ⟨⟨rfl, rfl, rfl, rfl, rfl, hsame, rfl⟩, rfl⟩
    · rw [if_neg hturn]
      exact ⟨⟨rfl, rfl, rfl, rfl, rfl, rfl, rfl⟩, rfl⟩
  | report d => cases hop
  | print text => cases hop
  | finish => cases hop
  | transmit f => cases hop
  | _ => exact hquiet rfl

lemma External.silent_of_state {s s'} (h : External s s')
    (hstate : s'.bench.state = s.bench.state) : Silent s s' := by
  obtain ⟨b, rfl, hb⟩ := h.influence
  cases hb with
  | state _ _ hne => exact absurd hstate.symm hne
  | callOff =>
    -- a run that goes on would be stopped
    dsimp only at hstate
    cases hactive : s.bench.state.isActive with
    | true =>
      rw [hactive, if_pos rfl] at hstate
      rw [← hstate] at hactive
      cases hactive
    | false =>
      rw [Bench.finish_of_inactive hactive]
      exact ⟨rfl, rfl, rfl, rfl, rfl, rfl, rfl⟩
  | log _ hevents => exact ⟨rfl, rfl, rfl, rfl, rfl, rfl, hevents⟩
  | _ => exact ⟨rfl, rfl, rfl, rfl, rfl, rfl, rfl⟩

end Session

/-! ## The time of a pause -/

namespace Bench

lemma Consistent.standing_iff {b : Bench} (h : b.Consistent) :
    b.standing = .running ↔ b.state = .running := by
  rw [standing, isCancelled, isPaused]
  cases hstate : b.state with
  | running | paused =>
    obtain ⟨run, hrun, hgoing⟩ := h.active.mp (by rw [hstate]; rfl)
    simp [hrun, hgoing]
  | idle => simp [h.idle hstate]
  | error => simp [h.error hstate]
  | stopped =>
    obtain ⟨run, hrun, hcancelled⟩ := h.stopped hstate
    simp [hrun, hcancelled]

lemma Change.state_ne {t b b'} (h : Change t b op b')
    (hstate : b.state ≠ .running) : b'.state ≠ .running := by
  cases h with
  | finish =>
    dsimp only
    split
    · simp
    · exact hstate
  | _ => exact hstate

end Bench

namespace History

open Session

variable {H : History} {t : TaskId} {m : Nat}

/-- The part of a history in which a run is paused.  The host tells the run to pause when no task
    can go on, and then does something only when no task can. It leaves the state of the run as it
    is, so it neither resumes the run nor stops it. -/
structure Pause (H : History) (i n : Nat) : Prop where
  waiting : (H.session i).isWaiting = true
  running : (H.bench i).state = .running
  host : H.mover i = none
  paused : H.session (i + 1) = (H.session i).pause.1
  paced : ∀ m, i < m → m < n → H.mover m = none →
    H.session (m + 1) = (H.session m).startTasks ∨ (H.session m).isWaiting = true
  kept : ∀ m, i < m → m < n → H.mover m = none → (H.bench (m + 1)).state = (H.bench m).state

lemma reachable {limits bus writeTime}
    (h : Reachable limits bus writeTime (H.session 0)) (m : Nat) :
    Reachable limits bus writeTime (H.session m) := by
  induction m with
  | zero => exact h
  | succ m ih => exact ih.step (H.step m)

lemma cancelled_step (h : (H.bench m).isCancelled) : (H.bench (m + 1)).isCancelled :=
  (H.step m).isCancelled h

lemma turn_before (hmover : H.mover m ≠ some t) (hturn : (H.bench (m + 1)).turn = some t) :
    (H.bench m).turn = some t := by
  cases hwho : H.mover m with
  | none => exact (step_of hwho).of_none.2.1.symm.trans hturn
  | some u =>
    obtain ⟨op, hchange⟩ := changed hwho
    refine (hchange.turn_of_other_iff ?_).mp hturn
    rintro rfl
    exact hmover hwho

lemma checkpoint_answered (yieldEvery l) :
    ((Eval.checkpoint yieldEvery).start l).Only fun op => ∀ b : Bench, b.standing = .running →
      b.turn = none → (b.perform t op).answer? ≠ none := by
  refine Process.Only.sequential.evalCheckpoint
    (.act fun b _ _ => ?_) (.act fun b _ _ => ?_) (.act fun b hrunning _ => ?_)
    (.act fun b _ _ => ?_) (.act fun b _ hturn hwaits => ?_) yieldEvery l
  · exact Option.some_ne_none _
  · exact Option.some_ne_none _
  · rw [Bench.perform, hrunning]
    exact Option.some_ne_none _
  · exact Option.some_ne_none _
  · obtain ⟨-, u, hu, -⟩ := Bench.acquire_waits hwaits
    cases hturn.symm.trans hu

def Withheld (H : History) (t : TaskId) (m : Nat) (q : Process Unit) : Prop :=
  ∃ k : Stance, k.Fits t (H.bench m) ∧ withholding.Keeps (fun _ _ => True) k q

lemma finish_of_state (hmover : H.mover m = some t)
    (hstate : (H.bench (m + 1)).state ≠ (H.bench m).state) : H.Makes t m .finish := by
  rcases requested hmover with hsame | ⟨op, hmakes, hchange⟩
  · exact absurd (congrArg Bench.state hsame) hstate
  · by_cases hop : op = .finish
    · exact hop ▸ hmakes
    · exact absurd (hchange.standing_eq hop).2.2 hstate

variable {q : Process Unit}

lemma Has.silent (hq : H.Has t m q) (hmover : H.mover m = some t)
    (hquiet : ∀ op next, q = .act op next → ∀ tasks tasks', Silent ⟨H.bench m, tasks⟩
      ⟨((H.bench m).perform t op).bench, tasks'⟩ ∧
        ((H.bench m).perform t op).bench.state = (H.bench m).state)
    : Silent (H.session m) (H.session (m + 1)) ∧ (H.bench (m + 1)).state = (H.bench m).state := by
  have hbench : (H.session (m + 1)).bench = (H.bench m).after t q := (hq.move hmover).1
  have hsilent : Silent ⟨H.bench m, (H.session m).tasks⟩
      ⟨(H.bench m).after t q, (H.session (m + 1)).tasks⟩ ∧
      ((H.bench m).after t q).state = (H.bench m).state := by
    cases q with
    | pure a | iter body s next => exact ⟨⟨rfl, rfl, rfl, rfl, rfl, rfl, rfl⟩, rfl⟩
    | act op next => exact hquiet op next rfl _ _
  rw [← hbench] at hsilent
  exact hsilent

namespace Pause

variable {H : History} {i n : Nat} (h : H.Pause i n) {t : TaskId} {m j : Nat}

include h

lemma session_eq : ∃ events, H.session (i + 1) = ⟨{ H.bench i with
    state := .paused, log := { (H.bench i).log with events } }, (H.session i).tasks⟩ := by
  have hrunning : (H.session i).bench.state = .running := h.running
  obtain ⟨events, heq⟩ := setState_eq (H.bench i) (H.bench i).runId? .paused
  refine ⟨events, ?_⟩
  rw [h.paused, Session.pause, if_pos hrunning, ← heq]
  rfl

variable {p : Process Unit} {next : op.Reply → Process Unit}

lemma has_iff : H.Has t (i + 1) p ↔ H.Has t i p := by
  obtain ⟨events, heq⟩ := h.session_eq
  rw [Has, Has, heq]

lemma state_ne (him : i < m) (hmn : m ≤ n) : (H.bench m).state ≠ .running := by
  induction him with
  | refl =>
    obtain ⟨events, heq⟩ := h.session_eq
    rw [bench, Nat.succ_eq_add_one, heq]
    simp
  | @step m him ih =>
    have hstate := ih (Nat.le_of_succ_le hmn)
    cases hwho : H.mover m with
    | none =>
      rw [Nat.succ_eq_add_one, h.kept m him hmn hwho]
      exact hstate
    | some u =>
      obtain ⟨op, hchange⟩ := changed hwho
      exact hchange.state_ne hstate

variable {limits : RunConfig} {bus : Bus} {writeTime : Nat}
  (hH : Reachable limits bus writeTime (H.session 0))

include hH

lemma standing_ne (him : i < m) (hmn : m ≤ n) : (H.bench m).standing ≠ .running :=
  mt (reachable hH m).sound.consistent.standing_iff.mp (h.state_ne him hmn)

lemma standing_at : (H.bench i).standing = .running :=
  (reachable hH i).sound.consistent.standing_iff.mpr h.running

lemma turn_free : (H.bench i).turn = none :=
  (reachable hH i).turn_free h.waiting (h.standing_at hH)

lemma fits_other (him : i < m) (hmn : m < n) (hmover : H.mover m ≠ some t) {k : Stance}
    (hfits : k.Fits t (H.bench m)) : k.Fits t (H.bench (m + 1)) where
  standing := h.standing_ne hH (Nat.lt_succ_of_lt him) hmn
  free hnone hturn := hfits.free hnone (turn_before hmover hturn)
  held bs hbs := by
    obtain ⟨hturn, hsame⟩ := held_step (hfits.held bs hbs).1 hmover
    exact ⟨hturn, hsame.trans (hfits.held bs hbs).2⟩
  told htold := cancelled_step (hfits.told htold)

lemma withheld_later (hij : i < j) (hp : H.Has t j p) (hwithheld : H.Withheld t j p)
    (halong : H.Along t j p m q) (hmn : m ≤ n) : H.Withheld t m q := by
  obtain ⟨k, hfits, hkeeps⟩ := hwithheld
  rw [← Process.bind_pure p] at hp
  exact halong.keeps withholding_describes hp (fun m' hjm hm hmover k =>
    h.fits_other hH (hij.trans_le hjm) (hm.trans_le hmn) hmover) hfits hkeeps

/-- A task that comes to a point where a pause holds it up is held up. -/
lemma withheld_of_halt (hij : i < j) (hjn : j ≤ n) (hq : H.Has t j (.act op next))
    (hop : op.isHalt) : H.Withheld t j (.act op next) := by
  have hreachable := reachable hH j
  obtain ⟨setting, origin, N, -, hrole, hreaches⟩ := hreachable.descends _ hq
  have hbreaks := hrole.heeds Grasp.Done N _ hreaches
  obtain ⟨k, hfits⟩ := Stance.exists_fits t (h.standing_ne hH hij hjn)
  have hadmits : (act op next).Admits Grasp.Done k := by
    cases k with
    | free => exact .inl (.inl rfl)
    | told => exact .inl (.inr rfl)
    | held bs =>
      -- the task has the turn, and keeps to the discipline
      obtain ⟨⟨held, told⟩, hgrasp, hkeeps⟩ := hreachable.disciplined.tasks _ hq
      have hheld : held := hgrasp.held.mpr (hfits.held bs rfl).1
      subst hheld
      exact .inr ⟨told, hkeeps⟩
  refine ⟨k, hfits, Regime.Keeps.act ?_ fun reply k' hafter =>
    hbreaks op next rfl reply ?_ k k' hadmits hafter⟩
  · cases op with
    | standing => trivial
    | awaitRunning => trivial
    | receive source => trivial
    | _ => cases hop
  · cases op with
    | standing | awaitRunning => exact hafter.1
    | receive source => trivial
    | _ => cases hop

lemma waits_at (hp : H.Has t i p) : ∃ op next, p = .act op next ∧
    ((H.bench i).perform t op).answer? = none ∧
    (op.isWrite ∨ op.isHalt ∨ op.isSleep) := by
  obtain ⟨op, next, hrest, hanswer⟩ := (isWaiting_iff h.waiting).2 _ hp
  exact ⟨op, next, hrest, hanswer, Bench.waits_cases hanswer (h.turn_free hH)⟩

/-- As long as a task that sleeps has not noticed the pause, no time passes, and it does not get the
    turn. -/
lemma still (hp : H.Has t i (.act op next)) (hwaits : ((H.bench i).perform t op).answer? = none)
    (hop : op.isSleep) (him : i < m) (hmn : m ≤ n) (hidle : H.Idle t (i + 1) m) :
    H.Has t m (.act op next) ∧ (H.bench m).now = (H.bench i).now ∧ (H.bench m).turn ≠ some t := by
  -- by induction on the moments since the pause began
  induction him with
  | refl =>
    obtain ⟨events, heq⟩ := h.session_eq
    refine ⟨h.has_iff.mpr hp, ?_, ?_⟩
    · rw [bench, Nat.succ_eq_add_one, heq]
    · rw [bench, Nat.succ_eq_add_one, heq]
      dsimp only
      rw [h.turn_free hH]
      simp
  | @step m him ih =>
    obtain ⟨hhas, hnow, hturn⟩ := ih (Nat.le_of_succ_le hmn)
      fun m' him' hm' => hidle m' him' (Nat.lt_succ_of_lt hm')
    have hmover := hidle m him (Nat.lt_succ_self m)
    refine ⟨hhas.stay hmover, Eq.trans ?_ hnow, fun hturn' => hturn (turn_before hmover hturn')⟩
    cases hwho : H.mover m with
    | some u =>
      obtain ⟨op', hchange⟩ := changed hwho
      exact hchange.now_eq
    | none =>
      rcases h.paced m him hmn hwho with hstart | hwaiting
      · obtain ⟨processes, heq, -⟩ := startTasks_eq (H.session m)
        rw [bench, Nat.succ_eq_add_one, hstart, heq]
        rfl
      · -- the host does nothing, since this task can go on
        obtain ⟨op', next', hrest, hanswer⟩ := (isWaiting_iff hwaiting).2 _ hhas
        cases hrest
        obtain ⟨b, reply, hroused, -⟩ :=
          Bench.roused hop hwaits (h.standing_ne hH him (Nat.le_of_succ_le hmn)) hnow
        cases hanswer.symm.trans hroused

/-- A task that sleeps when a pause begins is held up by it. -/
lemma sleep_withheld (hp : H.Has t i (.act op next))
    (hwaits : ((H.bench i).perform t op).answer? = none) (hop : op.isSleep)
    (halong : H.Along t (i + 1) (.act op next) m q) (hmn : m ≤ n) :
    q = .act op next ∨ H.Withheld t m q := by
  rcases halong.head with ⟨rfl, -⟩ | ⟨m1, him, hmm, hidle, hmover, -, hrest⟩
  · exact .inl rfl
  · -- its first move since, at `m1`, is to notice the pause
    refine .inr ?_
    obtain ⟨hhas, hnow, hturn⟩ :=
      h.still hH hp hwaits hop him (hmm.le.trans hmn) hidle
    obtain ⟨b, reply, hanswer, hbreaks⟩ := Bench.roused hop hwaits
      (h.standing_ne hH him (hmm.le.trans hmn)) hnow
    obtain ⟨hbench, hgoes⟩ := hhas.move hmover
    have hnext := hgoes rfl
    rw [step_of_answer hanswer] at hrest hnext
    have hturn' : (H.bench (m1 + 1)).turn ≠ some t := by
      have hchange := (H.bench m1).perform_change t op
      rw [hbench, Bench.after, hchange.turn_eq ?_ ?_]
      · exact hturn
      · rintro rfl
        cases hop
      · rintro rfl
        cases hop
    have hafter : Stance.free.After op reply .free := by
      cases op with
      | sleepUntil deadline heedPause => rfl
      | nextFrame r deadline => rfl
      | _ => cases hop
    obtain ⟨setting, origin, N, -, hrole, hreaches⟩ := (reachable hH i).descends _ hp
    refine h.withheld_later hH him.step hnext ⟨.free, .of_free ?_ hturn', ?_⟩ hrest hmn
    · exact h.standing_ne hH him.step (le_trans hmm hmn)
    · exact hrole.heeds Grasp.Done N _ hreaches op next rfl reply hbreaks .free .free
        (.inl (.inl rfl)) hafter

/-- What has become of a task since a pause began: it is held up, or it still sleeps, or it was in
    the middle of a write and has not come to a point where it is held up. -/
lemma since (hq : H.Has t m q) (him : i < m) (hmn : m ≤ n) :
    H.Withheld t m q ∨ ∃ op next, H.Has t i (.act op next) ∧
      (op.isSleep ∧ q = .act op next ∨ op.isWrite ∧
        ∀ m', i ≤ m' → m' < m → ∀ op', H.Makes t m' op' → op'.isHalt = false) := by
  rcases hq.since him with ⟨p, hp, halong⟩ | ⟨m1, setting, a, him1, -, hbegun, halong⟩
  · have hp' := h.has_iff.mp hp
    obtain ⟨op, next, rfl, hwaits, hwrite | hhalt | hsleep⟩ := h.waits_at hH hp'
    · by_cases hhalts : ∃ m' op', i ≤ m' ∧ m' < m ∧ H.Makes t m' op' ∧ op'.isHalt
      · -- it has come to such a point at an earlier moment, and was held up from there on
        obtain ⟨m', op', him', hmm, ⟨hmover, next', hnext'⟩, hhalt⟩ := hhalts
        have hlater : i < m' := by
          refine Nat.lt_of_le_of_ne him' ?_
          rintro rfl
          cases h.host.symm.trans hmover
        obtain ⟨e, hfirst, hrest⟩ := halong.split hlater hmm.le
        have hfirst' := hfirst.has (k := .pure) (by rwa [bind_pure])
        rw [bind_pure] at hfirst'
        cases hfirst'.unique hnext'
        exact .inl (h.withheld_later hH hlater hnext'
          (h.withheld_of_halt hH hlater (hmm.le.trans hmn) hnext' hhalt) hrest hmn)
      · refine .inr ⟨op, next, hp', .inr ⟨hwrite, fun m' him' hmm op' hmakes => ?_⟩⟩
        exact Bool.eq_false_iff.mpr fun hhalt => hhalts ⟨m', op', him', hmm, hmakes, hhalt⟩
    · exact .inl (h.withheld_later hH (Nat.lt_succ_self i) hp
        (h.withheld_of_halt hH (Nat.lt_succ_self i) (le_trans him hmn) hp hhalt) halong hmn)
    · rcases h.sleep_withheld hH hp' hwaits hsleep halong hmn with rfl | hwithheld
      · exact .inr ⟨op, next, hp', .inl ⟨hsleep, rfl⟩⟩
      · exact .inl hwithheld
  · -- an activation that has begun since comes no further than to its first statement
    have hij : i < m1 + 1 := him1.step
    obtain ⟨k, hfits⟩ := Stance.exists_fits t (h.standing_ne hH hij (halong.le.trans hmn))
    exact .inl (h.withheld_later hH hij hbegun ⟨k, hfits, activationTask_withheld setting a k⟩
      halong
      hmn)

omit hH in
lemma silent_of_host (him : i < m) (hmn : m < n) (hmover : H.mover m = none) :
    Silent (H.session m) (H.session (m + 1)) := by
  have hstep := step_of hmover
  have hstate := h.kept m him hmn hmover
  rw [bench, bench] at hstate
  generalize H.session m = s at *
  generalize H.session (m + 1) = s' at *
  cases hstep with
  | spawn =>
    obtain ⟨processes, heq, -⟩ := startTasks_eq s
    rw [heq]
    exact ⟨rfl, rfl, rfl, rfl, rfl, rfl, rfl⟩
  | external hexternal => exact hexternal.silent_of_state hstate

/-- What a task does in a pause is not noticed, unless it was in the middle of a write. -/
lemma silent_or_writes (him : i < m) (hmn : m < n) (hmover : H.mover m = some t) :
    (Silent (H.session m) (H.session (m + 1)) ∧ (H.bench (m + 1)).state = (H.bench m).state) ∨
    ∃ op next, H.Has t i (.act op next) ∧ op.isWrite ∧
      ∀ m', i ≤ m' → m' ≤ m → ∀ op', H.Makes t m' op' → op'.isHalt = false := by
  obtain ⟨q, hq, -⟩ := moved hmover
  have hquiet : ∀ op next, q = .act op next → op.isLoud = false →
      Silent (H.session m) (H.session (m + 1)) ∧ (H.bench (m + 1)).state = (H.bench m).state := by
    rintro op next rfl hop
    refine Has.silent hq hmover fun op' next' heq tasks tasks' => ?_
    cases heq
    exact Silent.of_change ((H.bench m).perform_change t op) hop tasks tasks'
  rcases h.since hH hq him hmn.le with ⟨k, hfits, hkeeps⟩ |
    ⟨op, next, hp, ⟨hsleep, rfl⟩ | ⟨hwrite, hgoes⟩⟩
  · refine .inl (Has.silent hq hmover fun op next heq tasks tasks' => ?_)
    subst heq
    exact Silent.of_withheld hkeeps.of_act.1 hfits tasks tasks'
  · refine .inl (hquiet op next rfl ?_)
    cases op with
    | sleepUntil deadline heedPause => rfl
    | nextFrame r deadline => rfl
    | _ => cases hsleep
  · by_cases hhalts : ∃ op', H.Makes t m op' ∧ op'.isHalt
    · -- to come to a point where it is held up is not noticed
      obtain ⟨op', ⟨-, next', hnext'⟩, hhalt⟩ := hhalts
      refine .inl (hquiet op' next' (hq.unique hnext') ?_)
      cases op' with
      | standing => rfl
      | awaitRunning => rfl
      | receive source => rfl
      | _ => cases hhalt
    · refine .inr ⟨op, next, hp, hwrite, fun m' him' hmm op' hmakes => ?_⟩
      rcases hmm.lt_or_eq with hmm | rfl
      · exact hgoes m' him' hmm op' hmakes
      · exact Bool.eq_false_iff.mpr fun hhalt => hhalts ⟨op', hmakes, hhalt⟩

/-- A checkpoint that is passed before the end of a pause was passed before the pause began. -/
lemma checkpoint_passed {yieldEvery l l'} {k : Exit Unit → Process Unit}
    (hj : H.Has t j (((Eval.checkpoint yieldEvery).start l).bind k)) (hmn : m ≤ n)
    (halong : H.Along t j ((Eval.checkpoint yieldEvery).start l) m (.pure (.ok (), l'))) :
    ∃ m', m' ≤ i ∧ H.Along t j ((Eval.checkpoint yieldEvery).start l) m' (.pure (.ok (), l')) := by
  rcases lt_or_ge i j with hij | hji
  · -- while the run does not go on nobody gets past a checkpoint
    obtain ⟨κ, hfits⟩ := Stance.exists_fits t (h.standing_ne hH hij (halong.le.trans hmn))
    obtain ⟨κ', -, hkeeps⟩ := halong.keeps withholding_describes hj
      (fun m' hjm hm hmover k => h.fits_other hH (hij.trans_le hjm)
        (hm.trans_le hmn) hmover) hfits (checkpoint_withheld yieldEvery κ l)
    exact hkeeps.of_pure.elim
  · rcases lt_or_ge i m with him | hmi
    · -- nobody waits in the middle of a checkpoint when the pause begins
      obtain ⟨e, hfirst, hrest⟩ := halong.split hji him.le
      obtain ⟨op, next, heq, hwaits, -⟩ := h.waits_at hH (hfirst.has hj)
      cases e with
      | pure r =>
        rw [← Process.pure.inj hrest.eq_of_pure] at hfirst
        exact ⟨i, le_rfl, hfirst⟩
      | iter body s next' => cases heq
      | act op' next' =>
        cases heq
        obtain ⟨N, hreaches⟩ := hfirst.reaches
        exact absurd hwaits (checkpoint_answered yieldEvery l N _ hreaches op rfl _
          (h.standing_at hH) (h.turn_free hH))
    · exact ⟨m, hmi, halong⟩

end Pause

/-- A pause that begins when no task can go on withholds every statement.  No task gets past a
    checkpoint between the pause and the next resume or stop, and what can be seen of the script in
    that time is done by tasks that were in the middle of a write when the pause began.  They do it
    before they come to their next statement, round of a loop, sleep, wait or frame.  The state of
    the run changes only where one of them ends the run. -/
theorem pause_withholds {limits : RunConfig} {bus : Bus} {writeTime : Nat} {H : History}
    (hH : Reachable limits bus writeTime (H.session 0)) {i n : Nat} (h : H.Pause i n) :
    (∀ t j yieldEvery l k, H.Has t j (((Eval.checkpoint yieldEvery).start l).bind k) →
      ∀ m l', m ≤ n →
        H.Along t j ((Eval.checkpoint yieldEvery).start l) m (.pure (.ok (), l')) →
        ∃ m', m' ≤ i ∧
          H.Along t j ((Eval.checkpoint yieldEvery).start l) m' (.pure (.ok (), l'))) ∧
    ∀ m, i < m → m < n →
      (Silent (H.session m) (H.session (m + 1)) ∧
        (H.bench (m + 1)).state = (H.bench m).state) ∨
      ∃ t op next, H.mover m = some t ∧ H.Has t i (.act op next) ∧ op.isWrite = true ∧
        (∀ m', i ≤ m' → m' ≤ m → ∀ op', H.Makes t m' op' → op'.isHalt = false) ∧
        ((H.bench (m + 1)).state ≠ (H.bench m).state → H.Makes t m .finish) := by
  refine ⟨fun t j yieldEvery l k hj m l' hmn halong => h.checkpoint_passed hH hj hmn halong,
    fun m him hmn => ?_⟩
  cases hwho : H.mover m with
  | none => exact .inl ⟨h.silent_of_host him hmn hwho, h.kept m him hmn hwho⟩
  | some t =>
    refine (h.silent_or_writes hH him hmn hwho).imp_right ?_
    rintro ⟨op, next, hp, hwrite, hgoes⟩
    exact ⟨t, op, next, rfl, hp, hwrite, hgoes, finish_of_state hwho⟩

/-! ## A pause in the middle of a write -/

def writeScript : String :=
  "send(0x100, 0x01)\nprint(\"next\")"

def writeSession : Session :=
  Machine.advance ((ofLimits {} (.ofCapacity 16) 10).start writeScript ["can0"]).1 1

lemma writeSession_reachable : Reachable {} (.ofCapacity 16) 10 writeSession :=
  (Reachable.init.start writeScript ["can0"]).steps (advance_steps _ 1)

/-- The run is paused, the write ends, and the main task goes on. -/
def writeHistory : History :=
  .ofIncidents writeSession writeSession_reachable.disciplined.orderly
    ([.pause, .elapses 9] ++ movesOf 1 8)

/-- The frame is sent by the task that was in the middle of its write, and the next statement is not
    begun. -/
theorem pause_withholds_write :
    writeHistory.Pause 0 10 ∧ (writeHistory.bench 3).bus.sent.size = 0 ∧
    (writeHistory.bench 4).bus.sent.size = 1 ∧
    (∃ t op next, writeHistory.mover 3 = some t ∧ writeHistory.Has t 0 (.act op next) ∧
      op.isWrite = true) ∧
    ∀ t j yieldEvery l k, 0 < j →
      writeHistory.Has t j (((Eval.checkpoint yieldEvery).start l).bind k) → ∀ m l', m ≤ 10 →
      ¬ writeHistory.Along t j ((Eval.checkpoint yieldEvery).start l) m (.pure (.ok (), l')) := by
  have hpause : writeHistory.Pause 0 10 := by
    -- the host acts once more, when time passes
    have hhost : ∀ m < 10, 0 < m → writeHistory.mover m = none → m = 1 := by decide +kernel
    refine ⟨by decide +kernel, by decide +kernel, rfl, rfl, ?_, ?_⟩
    · intro m him hmn hmover
      cases hhost m hmn him hmover
      exact .inr (by decide +kernel)
    · intro m him hmn hmover
      cases hhost m hmn him hmover
      rfl
  have hbefore : (writeHistory.bench 3).bus.sent.size = 0 := by decide +kernel
  have hafter : (writeHistory.bench 4).bus.sent.size = 1 := by decide +kernel
  obtain ⟨hpassed, heffects⟩ := pause_withholds writeSession_reachable hpause
  refine ⟨hpause, hbefore, hafter, ?_, fun t j yieldEvery l k hj hhas m l' hm halong => ?_⟩
  · rcases heffects 3 (by decide) (by decide) with ⟨hsilent, -⟩ | ⟨t, op, next, hmover, hhas,
      hop, -⟩
    · have hsize := congrArg Array.size hsilent.sent
      cases hafter.symm.trans (hsize.trans hbefore)
    · exact ⟨t, op, next, hmover, hhas, hop⟩
  · obtain ⟨m', hm', halong'⟩ := hpassed t j yieldEvery l k hhas m l' hm halong
    exact absurd (Nat.le_trans halong'.le hm') (Nat.not_le.mpr hj)

/-! ## A pause in the middle of a test -/

def predicateScript : String :=
  "function f() \x7b send(1) \x7d\non_receive(f()) \x7b \x7d\non_receive(1/0) \x7b \x7d"

/-- The session in the middle of the first test, while the frame is written. -/
def predicateSession : Session :=
  let s := ((ofLimits {} (.ofCapacity 256) 10).start predicateScript ["can0"]).1
  Machine.advance (Session.inject s ⟨1, [], false, "can0", 0⟩).1 1

/-- A pause does not keep a frame that is being tested from the remaining tests: the error of the
    second handler is reported while the run is paused, although its test has not begun when the
    pause begins and does not contain the write. -/
theorem pause_continues_tests :
    predicateSession.isWaiting = true ∧ predicateSession.bench.state = .running ∧
    predicateSession.bench.log.errors = #[] ∧
    (predicateSession.pause.1.advance 20).bench.state = .paused ∧
    (predicateSession.pause.1.advance 20).bench.log.errors =
      #[⟨.runtime, .divisionByZero, ⟨3, 13⟩, "Division by zero"⟩] := by
  decide +kernel

end History

end CanScript
