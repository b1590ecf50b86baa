import CanScript.Proofs.Isolation
import CanScript.Proofs.Pause
import CanScript.Proofs.Sending

/-! # Time that a task spends on a part

    How long a task is at a part of what it does is counted twice: the time that passes while the
    run goes on, and the time that passes while it is paused.  The clock is that of a schedule.  It
    moves only when the task has to wait, and never past the moment that the task waits for. -/

namespace CanScript

open List Machine Process Bench

/-! ## Waiting -/

namespace Process

variable {α β : Type}

/-- Whether a task with a process left to do cannot go on for now. -/
def waits (b : Bench) (t : TaskId) : Process α → Bool
  | act op _ => (b.perform t op).answer?.isNone
  | _ => false

def deadline? (p : Process α) : Option Nat :=
  p.request?.bind Request.deadline?

def Rests (b : Bench) (t : TaskId) (p : Process α) : Prop :=
  ∀ b' : Bench, b'.now = b.now → b'.standing = b.standing → p.waits b' t = true

variable {p : Process α} {b b' : Bench} {t : TaskId}

lemma waits_act (h : p.waits b t) :
    ∃ op next, p = .act op next ∧ (b.perform t op).answer? = none := by
  cases p with
  | pure a => cases h
  | act op next => exact ⟨op, next, rfl, Option.isNone_iff_eq_none.mp h⟩
  | iter body s next => cases h

lemma isDone_of_waits (h : p.waits b t) : p.isDone = false := by
  obtain ⟨op, next, rfl, -⟩ := waits_act h
  rfl

lemma step_of_waits (h : p.waits b t) : p.step b t = p := by
  obtain ⟨op, next, rfl, hanswer⟩ := waits_act h
  exact step_of_wait hanswer

lemma Rests.waits (h : p.Rests b t) : p.waits b t :=
  h b rfl rfl

lemma Rests.isDone (h : p.Rests b t) : p.isDone = false :=
  isDone_of_waits h.waits

lemma Rests.of_same (h : p.Rests b t) (hnow : b'.now = b.now)
    (hstanding : b'.standing = b.standing) : p.Rests b' t :=
  fun b'' hnow' hstanding' => h b'' (hnow'.trans hnow) (hstanding'.trans hstanding)

lemma Rests.after (h : p.Rests b t) : p.Rests (b.after t p) t := by
  obtain ⟨op, next, rfl, hanswer⟩ := waits_act h.waits
  have hchange := b.perform_change t op
  have hop : op ≠ .finish := by
    rintro rfl
    cases hanswer
  exact h.of_same hchange.now_eq (hchange.standing_eq hop).1

lemma lt_deadline_of_waits (h : p.waits b t) {deadline}
    (hdeadline : p.deadline? = some deadline) : b.now < deadline := by
  obtain ⟨op, next, rfl, hanswer⟩ := waits_act h
  cases op with
  | sleepUntil moment heedPause =>
    obtain rfl := Option.some.inj hdeadline
    exact sleepUntil_waits hanswer
  | nextFrame r moment =>
    obtain rfl := Option.some.inj hdeadline
    exact (nextFrame_waits hanswer).2.2.1
  | _ => cases hdeadline

end Process

/-! ## Clocks -/

namespace Bench

variable {b b' : Bench}

def timeAs (b : Bench) (standing : Standing) (now : Nat) : Nat :=
  if b.standing = standing then now - b.now else 0

lemma timeAs_self (b : Bench) (standing) : b.timeAs standing b.now = 0 := by
  rw [timeAs, Nat.sub_self, ite_self]

lemma timeAs_trans (standing) {now} (hstanding : b'.standing = b.standing) (hfirst : b.now ≤ b'.now)
    (hsecond : b'.now ≤ now) :
    b.timeAs standing b'.now + b'.timeAs standing now = b.timeAs standing now := by
  rw [timeAs, timeAs, timeAs, hstanding]
  split
  · omega
  · rfl

lemma timeAs_add (hgoing : b.isCancelled = false) (now) :
    b.timeAs .running now + b.timeAs .paused now = now - b.now := by
  rw [timeAs, timeAs, standing, hgoing, if_neg Bool.false_ne_true]
  cases b.isPaused <;> simp

end Bench

namespace Machine

variable {m : Machine} {deadline : Nat}

lemma le_leap (m : Machine) (target) :
    m.bench.now ≤ (m.nextDeadline? target).getD (max m.bench.now target) := by
  cases hnext : m.nextDeadline? target with
  | none => exact le_max_left _ _
  | some d => exact (Session.now_lt_nextDeadline hnext).le

lemma leap_le (hmem : deadline ∈ m.deadlines) (hlater : m.bench.now < deadline) (target) :
    (m.nextDeadline? target).getD (max m.bench.now target) ≤ deadline := by
  have hfilter : deadline ≤ target → deadline ∈ m.deadlines.filter
      fun d => m.bench.now < d ∧ d ≤ target :=
    fun htarget => mem_filter.mpr ⟨hmem, decide_eq_true ⟨hlater, htarget⟩⟩
  cases hnext : m.nextDeadline? target with
  | none =>
    rw [nextDeadline?, min?_eq_none_iff] at hnext
    have hbeyond : ¬ deadline ≤ target := fun htarget => by
      have hmem := hfilter htarget
      rw [hnext] at hmem
      cases hmem
    exact Nat.max_le.mpr ⟨hlater.le, Nat.le_of_not_le hbeyond⟩
  | some d =>
    obtain ⟨hd, hleast⟩ := min?_eq_some_iff.mp hnext
    have hwithin := (of_decide_eq_true (mem_filter.mp hd).2).2
    by_cases htarget : deadline ≤ target
    · exact hleast deadline (hfilter htarget)
    · exact hwithin.trans (Nat.le_of_not_le htarget)

end Machine

namespace Session

variable (s : Session)

lemma setState_now (b : Bench) (run state) : (b.setState run state).now = b.now := by
  obtain ⟨events, heq⟩ := setState_eq b run state
  rw [heq]

lemma pause_now : s.pause.1.bench.now = s.bench.now := by
  rw [pause]
  split
  · exact setState_now _ _ _
  · rfl

lemma resume_now : s.resume.1.bench.now = s.bench.now := by
  rw [resume]
  split
  · exact setState_now _ _ _
  · rfl

lemma Step.now_of_some {t s s'} (h : Step (some t) s s') : s'.bench.now = s.bench.now := by
  cases h with
  | @move b before task behind =>
    obtain ⟨op, hchange⟩ := b.after_change task.id task.rest
    exact hchange.now_eq

lemma startTasks_now : s.startTasks.bench.now = s.bench.now := by
  obtain ⟨processes, heq, -⟩ := startTasks_eq s
  rw [heq]
  rfl

lemma Step.now_le {who s s'} (h : Step who s s') : s.bench.now ≤ s'.bench.now := by
  refine h.keeps (P := fun b => s.bench.now ≤ b.now)
    (fun _ _ _ hchange => hchange.now_eq.ge) (fun _ => le_rfl) fun b hb => ?_
  cases hb with
  | clock hle => exact hle
  | _ => exact le_rfl

lemma Steps.now_le {s s'} (h : Steps s s') : s.bench.now ≤ s'.bench.now := by
  induction h with
  | refl => exact le_rfl
  | tail _ hstep ih => exact ih.trans hstep.now_le

lemma Steps.going {s s'} (h : Steps s s') (hgoing : s'.bench.isCancelled = false) :
    s.bench.isCancelled = false := by
  induction h with
  | refl => exact hgoing
  | tail _ hstep ih => exact ih (Bool.eq_false_iff.mpr fun hcancelled =>
    Bool.false_ne_true (hgoing.symm.trans (hstep.isCancelled hcancelled)))

lemma Steps.orderly {s s'} (h : Steps s s') (hs : s.Orderly) : s'.Orderly :=
  h.keeps (fun _ _ _ hstep hs => hs.step hstep) hs

lemma Moves.now {s s'} (h : Moves s s') : s'.bench.now = s.bench.now :=
  h.keeps (P := fun b => b.now = s.bench.now) (fun _ _ _ _ hchange hb => hchange.now_eq.trans hb)
    (fun _ _ hb => hb) rfl

lemma Moves.standing {s s'} (h : Moves s s') (hgoing : s'.bench.isCancelled = false) :
    s'.bench.standing = s.bench.standing := by
  have hkept : s'.bench.isCancelled ∨ s'.bench.standing = s.bench.standing := by
    refine h.keeps (P := fun b => b.isCancelled ∨ b.standing = s.bench.standing) ?_
      (fun _ _ hb => hb) (.inr rfl)
    intro t b op b' hchange hb
    rcases hb with hcancelled | hsame
    · exact .inl (hchange.isCancelled hcancelled)
    · by_cases hop : op = .finish
      · subst hop
        cases hchange with
        | finish => exact .inl b.cancel_isCancelled
        | _ => exact .inr hsame
      · exact .inr ((hchange.standing_eq hop).1.trans hsame)
  exact hkept.resolve_left (Bool.eq_false_iff.mp hgoing)

/-! ## Spans -/

variable {α : Type}

/-- What happens to a session while a task is at a part of what it does, up to its end, with the
    time that passes while the run goes on and the time that passes while it is paused. -/
inductive Span (t : TaskId) (s : Session) (c : Process α) :
    Nat → Nat → Session → Process α → Prop where
  | start : Span t s c 0 0 s c
  | own {running paused s' s'' e} :
      Span t s c running paused s' e → e.isDone = false → Step (some t) s' s'' →
      Span t s c running paused s'' (e.step s'.bench t)
  | other {running paused s' s'' e who} :
      Span t s c running paused s' e → e.isDone = false → Step who s' s'' → who ≠ some t →
      s''.bench.now = s'.bench.now → Span t s c running paused s'' e
  | clock {running paused now s' e} :
      Span t s c running paused s' e → e.waits s'.bench t = true → s'.bench.now ≤ now →
      (∀ deadline, e.deadline? = some deadline → now ≤ deadline) →
      Span t s c (running + s'.bench.timeAs .running now) (paused + s'.bench.timeAs .paused now)
        (s'.setClock now) e

namespace Span

variable {t : TaskId} {s s' s'' : Session} {c e : Process α} {running paused : Nat}

lemma steps (h : Span t s c running paused s' e) : Steps s s' := by
  induction h with
  | start => exact .refl
  | own _ _ hstep ih | other _ _ hstep _ _ ih => exact ih.tail hstep
  | clock _ _ hle _ ih => exact ih.tail (.external (.clock _ hle))

lemma now (h : Span t s c running paused s' e) (hgoing : s'.bench.isCancelled = false) :
    s'.bench.now = s.bench.now + running + paused := by
  induction h with
  | start => rfl
  | own _ _ hstep ih =>
    rw [hstep.now_of_some]
    exact ih ((Steps.single hstep).going hgoing)
  | other _ _ hstep _ hnow ih =>
    rw [hnow]
    exact ih ((Steps.single hstep).going hgoing)
  | @clock _ _ now s' _ _ _ hle _ ih =>
    have hbefore := ih hgoing
    have hadd := timeAs_add (b := s'.bench) hgoing now
    show now = _
    omega

lemma has (h : Span t s c running paused s' e) (hs : s.Orderly) {k}
    (hbegun : ⟨t, c.bind k⟩ ∈ s.tasks) : ⟨t, e.bind k⟩ ∈ s'.tasks := by
  induction h with
  | start => exact hbegun
  | own hspan hgoing hstep ih =>
    have horderly := hspan.steps.orderly hs
    obtain ⟨p, hp, -, hgoes, -⟩ := hstep.of_some horderly
    cases inj_on_of_nodup_map horderly.distinct ih hp rfl
    have hmoved := hgoes (isDone_bind hgoing k)
    rwa [step_bind hgoing] at hmoved
  | other hspan _ hstep hwho _ ih => exact hstep.stays (hspan.steps.orderly hs) hwho ih
  | clock _ _ _ _ ih => exact ih

lemma solo (h : Span t s c running paused s' e) (hgoing : e.isDone = false) {u} (hu : u ≠ t)
    (hmoves : Solo u s' s'') : Span t s c running paused s'' e := by
  induction hmoves with
  | refl => exact h
  | @move b before task behind hid _ ih =>
    have hstep := Step.move (b := b) before task behind
    exact ih.other hgoing hstep (fun heq => hu (hid.symm.trans (Option.some.inj heq)))
      hstep.now_of_some

lemma move {b before behind k}
    (h : Span t s c running paused ⟨b, before ++ ⟨t, e.bind k⟩ :: behind⟩ e)
    (hgoing : e.isDone = false) :
    Span t s c running paused ⟨b.after t e, before ++ ⟨t, (e.step b t).bind k⟩ :: behind⟩
      (e.step b t) := by
  have hmoved := h.own hgoing (.move before ⟨t, e.bind k⟩ behind)
  rw [Task.moved, if_neg (by simp [isDone_bind hgoing k]), append_assoc] at hmoved
  rw [← after_bind hgoing k, ← step_bind hgoing]
  exact hmoved

end Span

end Session

/-! ## Slices -/

/-- A task goes on for at most a number of steps with what it has left to do, until it is done or
    only time or the host can take it on. -/
inductive Prompt {α : Type} (t : TaskId) : Nat → Bench → Process α → Prop where
  | ended {n b a} : Prompt t n b (.pure a)
  | rests {n b} {e : Process α} : e.Rests b t → Prompt t n b e
  | loop {n b} {σ β : Type} {body : σ → Process (σ ⊕ β)} {s}
      {next : β → Process α} : Prompt t n b (Process.unfold body s next) →
      Prompt t (n + 1) b (.iter body s next)
  | act {n} {b b' : Bench} {op : Request} {reply} {next : op.Reply → Process α} :
      b.perform t op = .done b' reply → Prompt t n b' (next reply) →
      Prompt t (n + 1) b (.act op next)

namespace Session

namespace Span

section Slices

variable {α : Type} {t : TaskId} {s0 : Session} {c e : Process α} {running paused : Nat}
  {k : α → Process Unit}

/-- A slice of a task that is at a prompt part ends where the part rests, or goes on after the end
    of the part. -/
lemma slice_rests {n limit b} (hprompt : Prompt t n b e) (hlimit : n < limit) {before behind}
    (moved) (h : Span t s0 c running paused ⟨b, before ++ ⟨t, e.bind k⟩ :: behind⟩ e) :
    (∃ b' e' moved', Span t s0 c running paused ⟨b', before ++ ⟨t, e'.bind k⟩ :: behind⟩ e' ∧
      e'.Rests b' t ∧ runTask t limit moved b (e.bind k) = ⟨b', some (e'.bind k), moved'⟩) ∨
    ∃ b' a limit' moved', Span t s0 c running paused ⟨b', before ++ ⟨t, k a⟩ :: behind⟩ (.pure a) ∧
      runTask t limit moved b (e.bind k) = runTask t limit' moved' b' (k a) := by
  induction hprompt generalizing limit moved with
  | @ended n b a => exact .inr ⟨b, a, limit, moved, h, rfl⟩
  | @rests n b e hrests =>
    obtain ⟨limit, rfl⟩ : ∃ m, limit = m + 1 := ⟨limit - 1, by omega⟩
    have hmoved := h.move hrests.isDone
    rw [step_of_waits hrests.waits] at hmoved
    refine .inl ⟨_, e, moved, hmoved, hrests.after, ?_⟩
    obtain ⟨op, next, rfl, hanswer⟩ := waits_act hrests.waits
    rw [act_bind, runTask, Bench.after]
    cases houtcome : b.perform t op with
    | done b' reply | yielded b' reply =>
      rw [houtcome] at hanswer
      cases hanswer
    | wait b' => rfl
  | @loop n b σ β body s next _ ih =>
    obtain ⟨limit, rfl⟩ : ∃ m, limit = m + 1 := ⟨limit - 1, by omega⟩
    have hrun := ih (Nat.lt_of_succ_lt_succ hlimit) true (h.move rfl)
    rwa [unfold_bind] at hrun
  | @act n b b' op reply next hdone _ ih =>
    obtain ⟨limit, rfl⟩ : ∃ m, limit = m + 1 := ⟨limit - 1, by omega⟩
    have hanswer : (b.perform t op).answer? = some (b', reply) := by rw [hdone]; rfl
    have hmoved := h.move rfl
    rw [step_of_answer hanswer, Bench.after, hdone] at hmoved
    rw [act_bind, runTask, hdone]
    exact ih (Nat.lt_of_succ_lt_succ hlimit) true hmoved

end Slices

/-! ## Schedules -/

/-- A task begins a part of what it does, and is prompt with it as long as the run is not told to
    end. -/
structure Begins {α : Type} (t : TaskId) (s0 : Session) (c : Process α) (k : α → Process Unit) :
    Prop where
  orderly : s0.Orderly
  begun : ⟨t, c.bind k⟩ ∈ s0.tasks
  prompt : ∀ {running paused s e}, Span t s0 c running paused s e → s.bench.isCancelled = false →
    ∃ n, n < stepLimit ∧ Prompt t n s.bench e

section Schedules

variable {α : Type} (t : TaskId) (s0 : Session) (c : Process α)

/-- A task is at a part, on which it has spent some time while the run went on. -/
def Ongoing (running : Nat) (s : Session) : Prop :=
  ∃ paused e, Span t s0 c running paused s e ∧ e.isDone = false

/-- A task is at a part, and only time or the host can take it on. -/
def Resting (running : Nat) (s : Session) : Prop :=
  ∃ paused e, Span t s0 c running paused s e ∧ e.Rests s.bench t

def Past (running : Nat) (s : Session) : Prop :=
  ∃ running' paused s' a, running' ≤ running ∧ Span t s0 c running' paused s' (.pure a) ∧
    Steps s' s

variable {t s0 c} {k : α → Process Unit} {running : Nat} {s s' : Session}

lemma Resting.ongoing (h : Resting t s0 c running s) : Ongoing t s0 c running s := by
  obtain ⟨paused, e, hspan, hrests⟩ := h
  exact ⟨paused, e, hspan, hrests.isDone⟩

lemma Past.later (h : Past t s0 c running s) (hsteps : Steps s s') {more}
    (hmore : running ≤ more) : Past t s0 c more s' := by
  obtain ⟨running', paused, s1, a, hle, hspan, hrest⟩ := h
  exact ⟨running', paused, s1, a, hle.trans hmore, hspan, hrest.trans hsteps⟩

variable (t s0 c) in
/-- A session becomes another, and a part is carried along: the task has spent on it all the time
    that has passed while the run went on, or is past it. -/
structure Carries (s s' : Session) : Prop where
  steps : Steps s s'
  goes : s'.bench.isCancelled = false → ∀ {running}, Ongoing t s0 c running s →
    Ongoing t s0 c (running + s.bench.timeAs .running s'.bench.now) s' ∨
      Past t s0 c (running + s.bench.timeAs .running s'.bench.now) s'

lemma Carries.external (h : External s s') (hnow : s'.bench.now = s.bench.now) :
    Carries t s0 c s s' := by
  refine ⟨.single (.external h), fun _ running hs => .inl ?_⟩
  obtain ⟨paused, e, hspan, hgoes⟩ := hs
  rw [hnow, timeAs_self]
  exact ⟨paused, e, hspan.other hgoes (.external h) nofun hnow, hgoes⟩

variable (t s0 c) in
/-- A part is carried along while the run stands as it does, unless it is told to end. -/
structure Lasts (s s' : Session) : Prop extends Carries t s0 c s s' where
  standing : s'.bench.isCancelled = false → s'.bench.standing = s.bench.standing

lemma Lasts.refl (s : Session) : Lasts t s0 c s s := by
  refine ⟨⟨.refl, fun _ running hs => .inl ?_⟩, fun _ => rfl⟩
  rw [timeAs_self]
  exact hs

lemma Lasts.trans {s''} (h : Lasts t s0 c s s') (h' : Lasts t s0 c s' s'') :
    Lasts t s0 c s s'' := by
  refine ⟨⟨h.steps.trans h'.steps, fun hgoing running hs => ?_⟩, fun hgoing =>
    (h'.standing hgoing).trans (h.standing (h'.steps.going hgoing))⟩
  have hgoing' := h'.steps.going hgoing
  have htime := timeAs_trans .running (h.standing hgoing') h.steps.now_le h'.steps.now_le
  rcases h.goes hgoing' hs with hs' | hpast
  · have hfate := h'.goes hgoing hs'
    rwa [Nat.add_assoc, htime] at hfate
  · exact .inr (hpast.later h'.steps (by omega))

lemma Lasts.inject (s f) : Lasts t s0 c s (s.inject f).1 :=
  ⟨.external (.inject s f) rfl, fun _ => rfl⟩

lemma Lasts.injectAll (s frames) : Lasts t s0 c s (s.injectAll frames).1 := by
  induction frames generalizing s with
  | nil => exact .refl s
  | cons f frames ih => exact (Lasts.inject s f).trans (ih _)

namespace Begins

variable (h : Begins t s0 c k) {passes : Nat}

include h

/-- Tasks go on one after another, and when the one at the part has, it rests. -/
lemma passOver {tasks b} (moved) {kept paused e}
    (hspan : Span t s0 c running paused ⟨b, kept.reverse ++ tasks⟩ e) (hgoes : e.isDone = false)
    (hrests : t ∈ tasks.map Task.id ∨ e.Rests b t)
    (hgoing : (passOver b moved kept tasks).1.bench.isCancelled = false) :
    Resting t s0 c running (passOver b moved kept tasks).1 ∨
      Past t s0 c running (passOver b moved kept tasks).1 := by
  induction tasks generalizing b moved kept e with
  | nil =>
    rw [append_nil] at hspan
    exact .inl ⟨paused, e, hspan, hrests.resolve_left not_mem_nil⟩
  | cons task tasks ih =>
    have hb : b.isCancelled = false := (passOver_moves b moved kept _).steps.going hgoing
    rw [passOver_cons] at hgoing ⊢
    have hafter := passOver_moves (slice task b).bench (moved || (slice task b).moved)
      (sliceTasks task.id (slice task b) ++ kept) tasks
    by_cases hid : task.id = t
    · -- the task is at the part, so its slice ends where the part rests or is past
      obtain ⟨n, hn, hprompt⟩ := h.prompt hspan hb
      have htask : task = ⟨t, e.bind k⟩ :=
        inj_on_of_nodup_map (hspan.steps.orderly h.orderly).distinct (by simp)
          (hspan.has h.orderly h.begun) hid
      subst htask
      rcases hspan.slice_rests hprompt hn false with
        ⟨b', e', moved', hspan', hrests', hslice⟩ | ⟨b', a, limit', moved', hspan', hslice⟩
      · rw [slice, hslice] at hgoing ⊢
        refine ih _ ?_ hrests'.isDone (.inr hrests') hgoing
        rw [reverse_sliceTasks, append_assoc]
        exact hspan'
      · refine .inr ⟨running, paused, _, a, le_rfl, hspan', ?_⟩
        rw [reverse_sliceTasks] at hafter
        rw [slice, hslice] at hafter ⊢
        exact ((runTask_moves t limit' moved' b' (k a) kept.reverse tasks).trans hafter).steps
    · have hsolo := runTask_solo task.id stepLimit false b task.rest kept.reverse tasks
      have hb' := hafter.steps.going hgoing
      refine ih _ ?_ hgoes ?_ hgoing
      · rw [reverse_sliceTasks]
        exact hspan.solo hgoes hid hsolo
      · refine hrests.imp (fun hmem => ?_) fun hrests => ?_
        · exact (mem_cons.mp hmem).resolve_left (Ne.symm hid)
        · exact hrests.of_same hsolo.moves.now (hsolo.moves.standing hb')

lemma pass (hs : Ongoing t s0 c running s) (hgoing : s.pass.1.bench.isCancelled = false) :
    Resting t s0 c running s.pass.1 ∨ Past t s0 c running s.pass.1 := by
  obtain ⟨paused, e, hspan, hgoes⟩ := hs
  have hstep : Step none (Machine.passOver s.bench false [] s.tasks).1 s.pass.1 := .spawn _
  have hmem : t ∈ s.tasks.map Task.id := mem_map_of_mem (hspan.has h.orderly h.begun)
  have hfirst : Span t s0 c running paused ⟨s.bench, reverse [] ++ s.tasks⟩ e := hspan
  rcases h.passOver false hfirst hgoes (.inl hmem) ((Steps.single hstep).going hgoing) with
    ⟨paused', e', hspan', hrests⟩ | hpast
  · have hmoves : Moves (Machine.passOver s.bench false [] s.tasks).1 s.pass.1 := .spawn .refl
    exact .inl ⟨paused', e', hspan'.other hrests.isDone hstep nofun hmoves.now,
      hrests.of_same hmoves.now (hmoves.standing hgoing)⟩
  · exact .inr (hpast.later (.single hstep) le_rfl)

lemma settleWithin (hpasses : 0 < passes) (hs : Ongoing t s0 c running s)
    (hgoing : (s.settleWithin passes).bench.isCancelled = false) :
    Resting t s0 c running (s.settleWithin passes) ∨
      Past t s0 c running (s.settleWithin passes) := by
  obtain ⟨n, rfl⟩ : ∃ n, passes = n + 1 := ⟨passes - 1, by omega⟩
  clear hpasses
  induction n generalizing s with
  | zero =>
    rw [settleWithin_succ, settleWithin, ite_self] at hgoing ⊢
    exact h.pass hs hgoing
  | succ n ih =>
    rw [settleWithin_succ] at hgoing ⊢
    split
    · next hmoved =>
        rw [if_pos hmoved] at hgoing
        have hsteps := settleWithin_steps (n + 1) s.pass.1
        rcases h.pass hs (hsteps.going hgoing) with hrests | hpast
        · exact ih hrests.ongoing hgoing
        · exact .inr (hpast.later hsteps le_rfl)
    · next hstill =>
        rw [if_neg hstill] at hgoing
        exact h.pass hs hgoing

lemma leap (hs : Resting t s0 c running s) (target : Nat) {now}
    (hnow : (s.nextDeadline? target).getD (max s.bench.now target) = now) :
    Ongoing t s0 c (running + s.bench.timeAs .running now) (s.setClock now) := by
  obtain ⟨paused, e, hspan, hrests⟩ := hs
  refine ⟨_, e, hspan.clock hrests.waits (hnow ▸ s.le_leap target) fun deadline hdeadline => ?_,
    hrests.isDone⟩
  have hlater := lt_deadline_of_waits hrests.waits hdeadline
  have hlisted : deadline ∈ s.deadlines := by
    refine mem_filterMap.mpr ⟨_, hspan.has h.orderly h.begun, ?_⟩
    rw [History.request?_bind hrests.isDone]
    exact hdeadline
  rw [← hnow]
  exact leap_le hlisted hlater target

lemma lasts_settleWithin (hpasses : 0 < passes) (s : Session) :
    Lasts t s0 c s (s.settleWithin passes) := by
  have hmoves := settleWithin_moves passes s
  refine ⟨⟨hmoves.steps, fun hgoing running hs => ?_⟩, hmoves.standing⟩
  rw [hmoves.now, timeAs_self]
  exact (h.settleWithin hpasses hs hgoing).imp_left Resting.ongoing

lemma lasts_leap (hpasses : 0 < passes) (target : Nat) {m} (hm : s.settleWithin passes = m) {now}
    (hnow : (m.nextDeadline? target).getD (max m.bench.now target) = now) :
    Lasts t s0 c s (m.setClock now) := by
  subst hm
  have hmoves := settleWithin_moves passes s
  have hclock : Steps (s.settleWithin passes) (setClock (s.settleWithin passes) now) :=
    .single (.external (.clock _ (hnow ▸ le_leap _ target)))
  refine ⟨⟨hmoves.steps.trans hclock, fun hgoing running hs => ?_⟩, hmoves.standing⟩
  have htime : s.bench.timeAs .running now = (s.settleWithin passes).bench.timeAs .running now := by
    rw [timeAs, timeAs, hmoves.standing hgoing, hmoves.now]
  show Ongoing t s0 c (running + s.bench.timeAs .running now) _ ∨ _
  rcases h.settleWithin hpasses hs hgoing with hrests | hpast
  · rw [htime]
    exact .inl (h.leap hrests target hnow)
  · exact .inr (hpast.later hclock (Nat.le_add_right _ _))

lemma lasts_passTime (hpasses : 0 < passes) (until? : Machine → Bool) (target n s) :
    Lasts t s0 c s (passTime passes until? target n s) := by
  induction n generalizing s with
  | zero => exact .refl s
  | succ n ih =>
    rw [passTime]
    split
    · exact h.lasts_settleWithin hpasses s
    · cases hnext : (s.settleWithin passes).nextDeadline? target with
      | none => exact h.lasts_leap hpasses target rfl (by rw [hnext]; rfl)
      | some d => exact (h.lasts_leap hpasses target rfl (by rw [hnext]; rfl)).trans (ih _)

lemma lasts_advance (s millis) : Lasts t s0 c s (s.advance millis) :=
  h.lasts_passTime (by decide) _ _ _ s

lemma lasts_replayAfter (s) (port? : Option String) (limit? : Option Nat) (previous frames) :
    Lasts t s0 c s (s.replayAfter port? limit? previous frames).1 := by
  induction frames generalizing s previous with
  | nil => exact .refl s
  | cons f frames ih =>
    rw [replayAfter]
    dsimp only
    split
    · exact h.lasts_advance s _
    · split
      · exact (h.lasts_advance s _).trans ((Lasts.inject _ _).trans (ih _ _))
      · exact (Lasts.inject _ _).trans (ih _ _)

end Begins

end Schedules

end Span

end Session

/-! ## Hosts -/

/-- Whether a step of the host leaves the run to itself and lets its tasks go on before time passes.
    -/
def HostStep.keepsRun : HostStep → Bool
  | .start .. | .startProgram .. | .stop => false
  | .settleRun passes _ => 0 < passes
  | _ => true

namespace Session

/-- The time that passes in steps of the host while the run goes on. -/
def runningTime (s : Session) : List HostStep → Nat
  | [] => 0
  | step :: steps =>
    s.bench.timeAs .running (s.apply step).bench.now + (s.apply step).runningTime steps

namespace Span

variable {α : Type} {t : TaskId} {s0 s : Session} {c : Process α} {k : α → Process Unit}
  {running : Nat}

namespace Begins

variable (h : Begins t s0 c k) {steps : List HostStep}

include h

lemma carries_apply (s) {step} (hstep : step.keepsRun) : Carries t s0 c s (s.apply step) := by
  cases step with
  | start source ports => cases hstep
  | startProgram program ports => cases hstep
  | stop => cases hstep
  | pause => exact .external (.pause s) (pause_now s)
  | resume => exact .external (.resume s) (resume_now s)
  | advance millis => exact (h.lasts_advance s millis).toCarries
  | settleRun passes limit =>
    exact (h.lasts_passTime (of_decide_eq_true hstep) _ _ _ s).toCarries
  | inject frames => exact (Lasts.injectAll s frames).toCarries
  | replay frames port? cancelAfter? => exact (h.lasts_replayAfter s _ _ _ frames).toCarries
  | setFailing port on => exact .external (.setFailing s port on) rfl
  | setLoopback on => exact .external (.setLoopback s on) rfl
  | persist => exact .external (.persist s) rfl
  | observe => exact .external (.observe s) rfl
  | newEvents r => exact .external (.newEvents s r) rfl

lemma applyAll_steps (s) (hsteps : ∀ step ∈ steps, step.keepsRun) : Steps s (s.applyAll steps) := by
  induction steps generalizing s with
  | nil => exact .refl
  | cons step steps ih =>
    obtain ⟨hstep, hrest⟩ := forall_mem_cons.mp hsteps
    exact (h.carries_apply s hstep).steps.trans (ih _ hrest)

lemma applyAll (hsteps : ∀ step ∈ steps, step.keepsRun)
    (hgoing : (s.applyAll steps).bench.isCancelled = false)
    (hs : Ongoing t s0 c running s ∨ Past t s0 c running s) :
    Ongoing t s0 c (running + s.runningTime steps) (s.applyAll steps) ∨
      Past t s0 c (running + s.runningTime steps) (s.applyAll steps) := by
  induction steps generalizing s running with
  | nil => exact hs
  | cons step steps ih =>
    obtain ⟨hstep, hrest⟩ := forall_mem_cons.mp hsteps
    have hcarries := h.carries_apply s hstep
    have hgoing' : (s.apply step).bench.isCancelled = false :=
      (h.applyAll_steps (s.apply step) hrest).going hgoing
    rw [runningTime, ← Nat.add_assoc]
    refine ih hrest hgoing ?_
    rcases hs with hs | hpast
    · exact hcarries.goes hgoing' hs
    · exact .inr (hpast.later hcarries.steps (Nat.le_add_right _ _))

lemma rests_or_past {paused e} (hspan : Span t s0 c running paused s e)
    (hgoes : e.isDone = false) (hsteps : ∀ step ∈ steps, step.keepsRun)
    (hgoing : (settle (s.applyAll steps)).bench.isCancelled = false) :
    Resting t s0 c (running + s.runningTime steps) (settle (s.applyAll steps)) ∨
      Past t s0 c (running + s.runningTime steps) (settle (s.applyAll steps)) := by
  have hsettle := settleWithin_steps passLimit (s.applyAll steps)
  rcases h.applyAll hsteps (hsettle.going hgoing) (.inl ⟨paused, e, hspan, hgoes⟩) with hs | hpast
  · exact h.settleWithin (by decide) hs hgoing
  · exact .inr (hpast.later hsettle le_rfl)

end Begins

end Span

end Session

end CanScript
