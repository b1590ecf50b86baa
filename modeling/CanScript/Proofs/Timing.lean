import CanScript.Proofs.Parts
import CanScript.Proofs.Sleeps
import CanScript.Proofs.Visits
import Mathlib.Algebra.BigOperators.Intervals
import Mathlib.Algebra.Order.BigOperators.Group.Finset

/-! # Time in a history

    In a history the clock may move whenever it likes.  That of a schedule moves only when no task
    can go on, and not past a moment that a task waits for. -/

namespace CanScript

open Eval Option

variable {s : Session}

lemma Session.Step.clock_of_now_ne {who s'} (h : Step who s s')
    (hne : s'.bench.now ≠ s.bench.now) : s' = s.setClock s'.bench.now := by
  cases h with
  | move before task behind => exact absurd (Step.move before task behind).now_of_some hne
  | spawn => exact absurd (startTasks_now s) hne
  | external h =>
    obtain ⟨b, rfl, hb⟩ := h.influence
    cases hb with
    | clock hle => rfl
    | _ => exact absurd rfl hne

lemma Process.waits_bind {α β : Type} {p : Process α} (h : p.isDone = false) (f : α → Process β)
    (b t) : (p.bind f).waits b t = p.waits b t := by
  cases p with
  | pure a => cases h
  | act op next => rfl
  | iter body s next => rfl

namespace History

variable {H : History} {α β σ : Type} {t : TaskId} {i j m n : Nat}

variable (H) in
/-- The clock moves only when no task can go on, and not past a moment that a task waits for. -/
structure Timed : Prop where
  rests : ∀ n, (H.bench (n + 1)).now ≠ (H.bench n).now → (H.session n).isWaiting = true
  within : ∀ n, ∀ deadline ∈ (H.session n).deadlines, (H.bench n).now < deadline →
    (H.bench (n + 1)).now ≤ deadline

/-! ## Time that passes -/

variable (H)

def lapse (n : Nat) : Nat :=
  (H.bench (n + 1)).now - (H.bench n).now

/-- The time that passes at moments of a kind. -/
def timeWhere (P : Nat → Prop) [DecidablePred P] (i : Nat) : Nat → Nat
  | 0 => 0
  | j + 1 => if i ≤ j then timeWhere P i j + (if P j then H.lapse j else 0) else 0

/-- The time from one moment to another while the run goes on. -/
def runningTime (i j : Nat) : Nat :=
  H.timeWhere (fun n => (H.bench n).standing = .running) i j

/-- The time from one moment to another while the run is paused. -/
def pausedTime (i j : Nat) : Nat :=
  H.timeWhere (fun n => (H.bench n).standing = .paused) i j

variable {H}

section TimeWhere

variable {P Q : Nat → Prop} [DecidablePred P] [DecidablePred Q]

lemma timeWhere_eq_sum (i j) :
    H.timeWhere P i j = ∑ n ∈ Finset.Ico i j, if P n then H.lapse n else 0 := by
  induction j with
  | zero => rw [Finset.Ico_eq_empty (Nat.not_lt_zero i), Finset.sum_empty, timeWhere]
  | succ j ih =>
    rw [timeWhere]
    split
    · next hij => rw [Finset.sum_Ico_succ_top hij, ih]
    · next hij => rw [Finset.Ico_eq_empty (by omega), Finset.sum_empty]

lemma timeWhere_self (i) : H.timeWhere P i i = 0 := by
  rw [timeWhere_eq_sum, Finset.Ico_self, Finset.sum_empty]

lemma timeWhere_trans (him : i ≤ m) (hmj : m ≤ j) :
    H.timeWhere P i m + H.timeWhere P m j = H.timeWhere P i j := by
  simp only [timeWhere_eq_sum]
  exact Finset.sum_Ico_consecutive _ him hmj

lemma timeWhere_succ (hij : i ≤ j) :
    H.timeWhere P i (j + 1) = H.timeWhere P i j + if P j then H.lapse j else 0 :=
  if_pos hij

lemma timeWhere_succ_of_lapse (hij : i ≤ j) (hlapse : H.lapse j = 0) :
    H.timeWhere P i (j + 1) = H.timeWhere P i j := by
  rw [timeWhere_succ hij, hlapse, ite_self, Nat.add_zero]

lemma timeWhere_le (h : ∀ n, i ≤ n → n < j → P n → Q n) :
    H.timeWhere P i j ≤ H.timeWhere Q i j := by
  rw [timeWhere_eq_sum, timeWhere_eq_sum]
  refine Finset.sum_le_sum fun n hn => ?_
  obtain ⟨hin, hnj⟩ := Finset.mem_Ico.mp hn
  split
  · next hP => rw [if_pos (h n hin hnj hP)]
  · exact Nat.zero_le _

lemma timeWhere_eq_zero (h : ∀ n, i ≤ n → n < j → P n → H.lapse n = 0) : H.timeWhere P i j = 0 := by
  rw [timeWhere_eq_sum]
  refine Finset.sum_eq_zero fun n hn => ?_
  obtain ⟨hin, hnj⟩ := Finset.mem_Ico.mp hn
  split
  · next hP => exact h n hin hnj hP
  · rfl

end TimeWhere

lemma runningTime_trans (him : i ≤ m) (hmj : m ≤ j) :
    H.runningTime i m + H.runningTime m j = H.runningTime i j :=
  timeWhere_trans him hmj

lemma now_add_lapse (n) : (H.bench n).now + H.lapse n = (H.bench (n + 1)).now :=
  Nat.add_sub_cancel' (H.step n).now_le

lemma now_eq_sum (hij : i ≤ j) :
    (H.bench j).now = (H.bench i).now + ∑ n ∈ Finset.Ico i j, H.lapse n := by
  induction hij with
  | refl => rw [Finset.Ico_self, Finset.sum_empty, Nat.add_zero]
  | @step j hij ih => rw [Finset.sum_Ico_succ_top hij, ← Nat.add_assoc, ← ih, now_add_lapse]

lemma now_eq_timeWhere {P} [DecidablePred P] (hij : i ≤ j)
    (h : ∀ n, i ≤ n → n < j → H.lapse n ≠ 0 → P n) :
    (H.bench j).now = (H.bench i).now + H.timeWhere P i j := by
  rw [now_eq_sum hij, timeWhere_eq_sum]
  refine congrArg _ (Finset.sum_congr rfl fun n hn => ?_)
  obtain ⟨hin, hnj⟩ := Finset.mem_Ico.mp hn
  by_cases hlapse : H.lapse n = 0
  · rw [hlapse, ite_self]
  · rw [if_pos (h n hin hnj hlapse)]

lemma now_eq (hij : i ≤ j) (hgoing : (H.bench j).isCancelled = false) :
    (H.bench j).now = (H.bench i).now + H.runningTime i j + H.pausedTime i j := by
  rw [now_eq_sum hij, runningTime, pausedTime, timeWhere_eq_sum, timeWhere_eq_sum, Nat.add_assoc,
    ← Finset.sum_add_distrib]
  refine congrArg _ (Finset.sum_congr rfl fun n hn => ?_)
  exact (Bench.timeAs_add (going_before (Finset.mem_Ico.mp hn).2.le hgoing) _).symm

variable (H) in
def Still (i j : Nat) : Prop :=
  ∀ n, i ≤ n → n < j → H.lapse n = 0

lemma Still.trans (h : H.Still i m) (h' : H.Still m j) : H.Still i j := by
  intro n hin hnj
  rcases lt_or_ge n m with hnm | hmn
  · exact h n hin hnm
  · exact h' n hmn hnj

lemma Still.timeWhere {P} [DecidablePred P] (h : H.Still i j) : H.timeWhere P i j = 0 :=
  timeWhere_eq_zero fun n hin hnj _ => h n hin hnj

lemma Still.runningTime (h : H.Still m j) (him : i ≤ m) (hmj : m ≤ j) :
    H.runningTime i j = H.runningTime i m := by
  rw [← runningTime_trans him hmj]
  exact congrArg _ h.timeWhere

lemma Still.now (h : H.Still i j) (hij : i ≤ j) : (H.bench j).now = (H.bench i).now :=
  steady (F := fun n => (H.bench n).now) hij fun n hin hnj => by
    rw [← H.now_add_lapse n, h n hin hnj, Nat.add_zero]

lemma lapse_of_mover (h : H.mover n = some t) : H.lapse n = 0 := by
  exact Nat.sub_eq_zero_of_le (step_of h).now_of_some.le

/-! ## When no time passes -/

variable {c : Process α}

lemma waits_of_isWaiting (hc : H.Begins t n c) (hgoes : c.isDone = false)
    (hwaiting : (H.session n).isWaiting) : c.waits (H.bench n) t := by
  obtain ⟨k, hk⟩ := hc
  obtain ⟨op, next, hop, hanswer⟩ := (Session.isWaiting_iff hwaiting).2 _ hk
  rw [← Process.waits_bind hgoes k, show c.bind k = .act op next from hop]
  exact isNone_iff_eq_none.mpr hanswer

lemma isWaiting_of_prompt {limits bus writeTime}
    (hreach : Session.Reachable limits bus writeTime (H.session 0)) {e}
    (hc : c.Only Request.Prompt) (hgoing : (H.bench j).isCancelled = false) (h : H.Course t i c j e)
    (hgoes : e.isDone = false) : (H.session j).isWaiting = false := by
  refine Bool.eq_false_iff.mpr fun hwaiting => ?_
  have hwaits := waits_of_isWaiting h.rest hgoes hwaiting
  obtain ⟨_, hreaches⟩ := h.along.reaches
  cases e with
  | pure a => cases hgoes
  | iter body s next => cases hwaits
  | act op next =>
    exact hc _ _ hreaches op rfl (H.bench j) t
      ((reachable hreach j).turn_free_of_going hwaiting hgoing)
      (isNone_iff_eq_none.mp hwaits)

namespace Timed

variable (hH : H.Timed)

include hH

lemma isWaiting_of_lapse (hlapse : H.lapse n ≠ 0) : (H.session n).isWaiting :=
  hH.rests n fun heq => hlapse (Nat.sub_eq_zero_of_le heq.le)

lemma lapse_eq_zero (hc : H.Begins t n c) (hgoes : c.isDone = false)
    (hwaits : c.waits (H.bench n) t = false) : H.lapse n = 0 := by
  by_contra hlapse
  cases (waits_of_isWaiting hc hgoes (hH.isWaiting_of_lapse hlapse)).symm.trans hwaits

lemma le_deadline (hc : H.Begins t n c) (hgoes : c.isDone = false) {deadline}
    (hdeadline : c.deadline? = some deadline) (hlater : (H.bench n).now < deadline) :
    (H.bench (n + 1)).now ≤ deadline := by
  obtain ⟨k, hk⟩ := hc
  refine hH.within n deadline (List.mem_filterMap.mpr ⟨_, hk, ?_⟩) hlater
  rw [request?_bind hgoes]
  exact hdeadline

lemma still_of_idle (hc : H.Begins t i c) (hgoes : c.isDone = false)
    (hwaits : ∀ b, c.waits b t = false) (hidle : H.Idle t i j) : H.Still i j := by
  obtain ⟨k, hk⟩ := hc
  intro m him hmj
  have hstays : H.Idle t i m := fun n hin hnm => hidle n hin (hnm.trans hmj)
  exact hH.lapse_eq_zero ⟨k, (Along.of_idle him hstays).has hk⟩ hgoes (hwaits _)

variable {op : Request}

lemma waits_of_lapse (h : H.Pending t i j op) (him : i ≤ m) (hmj : m < j) (hlapse : H.lapse m ≠ 0)
    : ((H.bench m).perform t op).answer? = none := by
  obtain ⟨next, hnext⟩ := h.asks m him hmj.le
  rw [← Process.bind_pure (.act op next)] at hnext
  by_contra hanswer
  refine hlapse (hH.lapse_eq_zero ⟨_, hnext⟩ rfl ?_)
  exact isNone_eq_false_iff.mpr (isSome_iff_ne_none.mpr hanswer)

lemma still_of_pending (h : H.Pending t i j op)
    (hop : op.Immediate t := by exact fun _ => Option.some_ne_none _) : H.Still i j := by
  intro m him hmj
  by_contra hlapse
  exact hop _ (hH.waits_of_lapse h him hmj hlapse)

lemma still_of_gets {reply} (h : H.Gets t i n op reply)
    (hop : op.Immediate t := by exact fun _ => Option.some_ne_none _) : H.Still i (n + 1) := by
  intro m him hmn
  rcases Nat.lt_succ_iff_lt_or_eq.mp hmn with hmn | rfl
  · exact hH.still_of_pending h.pending hop m him hmn
  · exact lapse_of_mover h.mover

lemma still_of_enters {body : σ → Eval (σ ⊕ β)} {s l}
    (h : H.Enters t body i n s l) : H.Still i (n + 1) := by
  intro m him hmn
  rcases Nat.lt_succ_iff_lt_or_eq.mp hmn with hmn | rfl
  · exact hH.still_of_idle h.begins rfl (fun _ => rfl) h.next.idle m him hmn
  · exact lapse_of_mover h.next.mover

lemma now_le_of_pending {r deadline} (hij : i ≤ j)
    (h : H.Pending t i j (.nextFrame r deadline)) (hi : (H.bench i).now ≤ deadline) :
    (H.bench j).now ≤ deadline := by
  have hnow : ∀ m, i ≤ m → m ≤ j → (H.bench m).now ≤ deadline := by
    intro m him
    induction him with
    | refl => exact fun _ => hi
    | @step m him ih =>
      intro hmj
      have hbefore := ih (Nat.le_of_succ_le hmj)
      rw [Nat.succ_eq_add_one, ← now_add_lapse]
      by_cases hlapse : H.lapse m = 0
      · rw [hlapse]
        exact hbefore
      · have hwaits := hH.waits_of_lapse h him hmj hlapse
        obtain ⟨next, hnext⟩ := h.asks m him (Nat.le_of_succ_le hmj)
        rw [← Process.bind_pure (.act _ next)] at hnext
        have hbegins : H.Begins t m (.act (.nextFrame r deadline) next) := ⟨_, hnext⟩
        rw [now_add_lapse]
        exact hH.le_deadline hbegins rfl rfl (Bench.nextFrame_waits hwaits).2.2.1
  exact hnow j hij le_rfl

lemma still_of_prompt {limits bus writeTime}
    (hreach : Session.Reachable limits bus writeTime (H.session 0)) {e}
    (hc : c.Only Request.Prompt) (hgoing : (H.bench j).isCancelled = false) (h : H.Course t i c j e)
    (hfirst : ∀ m d, m < j → H.Along t i c m d → d.isDone = false) : H.Still i j := by
  intro m him hmj
  by_contra hlapse
  obtain ⟨d, hd, -⟩ := h.along.split him hmj.le
  have hmoves := isWaiting_of_prompt hreach hc (going_before hmj.le hgoing)
    ⟨h.begins, hd⟩ (hfirst m d hmj hd)
  cases (hH.isWaiting_of_lapse hlapse).symm.trans hmoves

/-! ## Spans -/

/-- What is left of a part that is not over before, with the time that it took. -/
lemma span {d} (h : H.Course t i c j d)
    (hfirst : ∀ m e, m < j → H.Along t i c m e → e.isDone = false) :
    Session.Span t (H.session i) c (H.runningTime i j) (H.pausedTime i j) (H.session j) d := by
  obtain ⟨⟨k, hk⟩, halong⟩ := h
  induction halong with
  | start =>
    rw [runningTime, pausedTime, timeWhere_self, timeWhere_self]
    exact .start
  | @stay j d hd hmover ih =>
    have hspan := ih fun m e hm => hfirst m e (Nat.lt_succ_of_lt hm)
    have hgoes := hfirst j d (Nat.lt_succ_self j) hd
    by_cases hnow : (H.bench (j + 1)).now = (H.bench j).now
    · have hlapse : H.lapse j = 0 := Nat.sub_eq_zero_of_le hnow.le
      rw [runningTime, pausedTime, timeWhere_succ_of_lapse hd.le hlapse,
        timeWhere_succ_of_lapse hd.le hlapse]
      exact hspan.other hgoes (H.step j) hmover hnow
    · have hclock : H.session (j + 1) = (H.session j).setClock (H.bench (j + 1)).now :=
        (H.step j).clock_of_now_ne hnow
      have hbegins : H.Begins t j d := ⟨k, hd.has hk⟩
      have hwaits : d.waits (H.bench j) t := by
        by_contra hnot
        have hlapse := hH.lapse_eq_zero hbegins hgoes (Bool.eq_false_iff.mpr hnot)
        exact hnow (by rw [← H.now_add_lapse j, hlapse, Nat.add_zero])
      have hnext := hspan.clock hwaits (H.step j).now_le fun deadline hdeadline =>
        hH.le_deadline hbegins hgoes hdeadline (Process.lt_deadline_of_waits hwaits hdeadline)
      rw [runningTime, pausedTime, timeWhere_succ hd.le, timeWhere_succ hd.le]
      rw [hclock]
      exact hnext
  | @move j d hd hmover hgoes ih =>
    have hspan := ih fun m e hm => hfirst m e (Nat.lt_succ_of_lt hm)
    have hlapse := lapse_of_mover hmover
    rw [runningTime, pausedTime, timeWhere_succ_of_lapse hd.le hlapse,
      timeWhere_succ_of_lapse hd.le hlapse]
    exact hspan.own hgoes (step_of hmover)

end Timed

/-! ## Sleeps -/

section Sleeps

variable (hH : H.Timed) {d : Nat} {l : Local} (hgoing : (H.bench j).isCancelled = false)

include hH hgoing

lemma Finishes.of_sleep {r}
    (h : H.Finishes t i ((sleep d).start l) j r) : r = (.ok (), l) ∧ H.runningTime i j = d :=
  (hH.span h.course h.first).sleep_over hgoing rfl

lemma Course.of_sleep {e} (hgoes : e.isDone = false) (h : H.Course t i ((sleep d).start l) j e) :
    H.runningTime i j ≤ d ∧
      (e.waits (H.bench j) t → (H.bench j).isPaused = false → H.runningTime i j < d) :=
  (hH.span h fun _ _ hm he => h.along.goes_before hgoes he hm.le).sleep_going hgoing hgoes

end Sleeps

end History

/-! ## Histories with a clock -/

namespace Session

def admits (s : Session) : Incident → Bool
  | .elapses time => s.isWaiting &&
    s.deadlines.all fun deadline => deadline ≤ s.bench.now || s.bench.now + time ≤ deadline
  | _ => true

def isTimely (s : Session) : List Incident → Bool
  | [] => true
  | incident :: incidents => s.admits incident && (s.undergo incident).2.isTimely incidents

lemma undergo_now (s : Session) (incident : Incident) :
    (s.undergo incident).2.bench.now = s.bench.now ∨ ∃ time, incident = .elapses time := by
  cases incident with
  | move t =>
    rw [undergo]
    cases hmove : moveIn s.bench t [] s.tasks with
    | none => exact .inl rfl
    | some s' => exact .inl (moveIn_step hmove).now_of_some
  | spawn => exact .inl (startTasks_now s)
  | inject f => exact .inl rfl
  | pause => exact .inl (pause_now s)
  | resume => exact .inl (resume_now s)
  | elapses time => exact .inr ⟨time, rfl⟩

lemma isTimely_at {incidents} (h : s.isTimely incidents) (n : Nat) :
    (s.atMoment incidents (n + 1)).bench.now = (s.atMoment incidents n).bench.now ∨
      ∃ time, (s.atMoment incidents n).admits (.elapses time) ∧
        (s.atMoment incidents (n + 1)).bench.now = (s.atMoment incidents n).bench.now + time := by
  induction n generalizing s incidents with
  | zero =>
    cases incidents with
    | nil => exact .inl rfl
    | cons incident incidents =>
      obtain ⟨hadmits, -⟩ := Bool.and_eq_true_iff.mp h
      rw [Nat.zero_add, atMoment, atMoment, atMoment_zero]
      rcases s.undergo_now incident with hsame | ⟨time, rfl⟩
      · exact .inl hsame
      · exact .inr ⟨time, hadmits, rfl⟩
  | succ n ih =>
    cases incidents with
    | nil => exact .inl rfl
    | cons incident incidents => exact ih (Bool.and_eq_true_iff.mp h).2

end Session

namespace History

lemma timed_ofRun {setting incidents} (h : (Session.ofSetting setting).isTimely incidents) :
    (ofRun setting incidents).Timed where
  rests n hne := by
    rcases Session.isTimely_at h n with hsame | ⟨time, hadmits, -⟩
    · exact absurd hsame hne
    · exact (Bool.and_eq_true_iff.mp hadmits).1
  within n deadline hmem hlater := by
    rcases Session.isTimely_at h n with hsame | ⟨time, hadmits, hnow⟩
    · exact hsame.le.trans hlater.le
    · have hall := List.all_eq_true.mp (Bool.and_eq_true_iff.mp hadmits).2 deadline hmem
      rcases Bool.or_eq_true_iff.mp hall with hpast | hwithin
      · exact absurd (of_decide_eq_true hpast) hlater.not_ge
      · exact hnow.le.trans (of_decide_eq_true hwithin)

lemma begins_first {H : History} {s stmt stmts} (k)
    (hmain : (H.session 0).tasks[1]? = some ⟨1, (mainRest s (stmt :: stmts)).toProcess⟩)
    (hgoes : ∀ m < k, (H.left 1 0 ((checkpoint s.limits.yieldEvery).start {}) m).isDone = false)
    (hover : (H.left 1 0 ((checkpoint s.limits.yieldEvery).start {}) k).result?
      = some (.ok (), { sinceYield := 1 })) :
    H.Begins 1 k ((execStmt s s.call none stmt).start { sinceYield := 1 }) := by
  have hbegins : H.Begins 1 0 (mainRest s (stmt :: stmts)).toProcess := by
    refine ⟨.pure, List.mem_of_getElem? (i := 1) ?_⟩
    rw [Process.bind_pure]
    exact hmain
  have hstmt := hbegins.of_bind.of_bind.of_bind.of_bind
  obtain ⟨_, hcheckpoint, rfl⟩ := Finishes.of_left (f := id) hstmt.of_bind hgoes
    (congrArg (Option.map id) hover)
  rw [Nat.zero_add] at hcheckpoint
  exact hcheckpoint.begins hstmt

end History

end CanScript
