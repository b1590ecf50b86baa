import CanScript.Proofs.Lifecycle
import Mathlib.Data.List.Nodup
import Mathlib.Data.Nat.Basic
import Mathlib.Order.Basic

/-! # Histories of a run

    A history is a session at one moment after another, with one thing that happens in between: some
    task moves, tasks are started, time passes or the host acts.  Nothing is assumed of the order in
    which tasks move, so a history is any interleaving of them. -/

namespace CanScript

open Process List

/-- A session from moment to moment, and the task that moves between a moment and the next, if one
    does. -/
structure History where
  session : Nat → Session
  mover : Nat → Option TaskId
  orderly : (session 0).Orderly
  step : ∀ i, Session.Step (mover i) (session i) (session (i + 1))

variable {s' : Session} {p : Process Unit}

namespace Session

variable {s : Session}

/-- The task that moves is taken on or ends, and all others stay. -/
lemma Step.of_some {t} (hs : s.Orderly) (h : Step (some t) s s') :
    ∃ p, ⟨t, p⟩ ∈ s.tasks ∧ s'.bench = s.bench.after t p ∧
      (p.isDone = false → ⟨t, p.step s.bench t⟩ ∈ s'.tasks) ∧
      (∀ task ∈ s.tasks, task.id ≠ t → task ∈ s'.tasks) ∧
      ∀ task ∈ s'.tasks, task ∈ s.tasks ∧ task.id ≠ t ∨
        p.isDone = false ∧ task = ⟨t, p.step s.bench t⟩ := by
  cases h with
  | @move b before task behind =>
    have hdistinct := hs.distinct
    rw [map_append, map_cons, nodup_middle, ← map_append] at hdistinct
    have hbefore : ∀ other, other ∈ before ++ task :: behind ↔
        other = task ∨ other ∈ before ++ behind :=
      fun _ => perm_middle.mem_iff.trans mem_cons
    have hafter : ∀ other, other ∈ before ++ task.moved b ++ behind ↔
        (task.rest.isDone = false ∧ other = ⟨task.id, task.rest.step b task.id⟩) ∨
          other ∈ before ++ behind := by
      intro other
      rw [Task.moved]
      split <;> simp [*, or_left_comm]
    refine ⟨task.rest, (hbefore _).mpr (.inl rfl), rfl,
      fun hgoing => (hafter _).mpr (.inl ⟨hgoing, rfl⟩), fun other hmem hne => ?_,
      fun other hmem => ?_⟩
    · rcases (hbefore _).mp hmem with rfl | hkept
      · exact absurd rfl hne
      · exact (hafter _).mpr (.inr hkept)
    · rcases (hafter _).mp hmem with hmoved | hkept
      · exact .inr hmoved
      · refine .inl ⟨(hbefore _).mpr (.inr hkept), fun heq => ?_⟩
        exact (nodup_cons.mp hdistinct).1 (heq ▸ mem_map_of_mem hkept)

lemma Step.of_none (h : Step none s s') :
    s'.bench.globals = s.bench.globals ∧ s'.bench.turn = s.bench.turn ∧
    (∀ task ∈ s.tasks, task ∈ s'.tasks) ∧
    ∀ task ∈ s'.tasks, task ∈ s.tasks ∨ ∃ setting a, s.bench.setting? = some setting ∧
      task.rest = activationTask setting a := by
  cases h with
  | spawn =>
    obtain ⟨processes, heq, hprocesses⟩ := startTasks_eq s
    rw [heq]
    refine ⟨rfl, rfl, fun task hmem => mem_append_left _ hmem, fun task hmem => ?_⟩
    rcases mem_addTasks hmem with hold | ⟨-, hnew⟩
    · exact .inl hold
    · obtain ⟨run, a, hrun, -, hrest⟩ := hprocesses _ hnew
      exact .inr ⟨run.setting, a, congrArg (Option.map _) hrun, hrest⟩
  | external h =>
    have hapart := h.apart
    refine ⟨hapart.globals, hapart.turn, fun task hmem => ?_, fun task hmem => .inl ?_⟩
    · rw [hapart.tasks]
      exact hmem
    · rw [← hapart.tasks]
      exact hmem

lemma Step.stays {t who} (hs : s.Orderly) (h : Step who s s')
    (hwho : who ≠ some t) (hp : ⟨t, p⟩ ∈ s.tasks) : ⟨t, p⟩ ∈ s'.tasks := by
  cases who with
  | none => exact h.of_none.2.2.1 _ hp
  | some u =>
    obtain ⟨-, -, -, -, hothers, -⟩ := h.of_some hs
    exact hothers _ hp fun heq => hwho (congrArg some heq.symm)

end Session

namespace History

variable (H : History) {α β σ : Type} {t : TaskId} {i j m : Nat}

/-- The bench at a moment. -/
def bench (i : Nat) : Bench :=
  (H.session i).bench

/-- A task has something left to do at a moment. -/
def Has (t : TaskId) (i : Nat) (p : Process Unit) : Prop :=
  ⟨t, p⟩ ∈ (H.session i).tasks

/-- A task makes a request at a moment. -/
def Makes (t : TaskId) (i : Nat) (op : Request) : Prop :=
  H.mover i = some t ∧ ∃ next, H.Has t i (.act op next)

def Idle (t : TaskId) (i j : Nat) : Prop :=
  ∀ m, i ≤ m → m < j → H.mover m ≠ some t

/-! ## Moments -/

lemma orderly_at (i) : (H.session i).Orderly := by
  induction i with
  | zero => exact H.orderly
  | succ i ih => exact ih.step (H.step i)

lemma setting?_at (i) : (H.bench i).setting? = (H.bench 0).setting? := by
  induction i with
  | zero => rfl
  | succ i ih => exact (H.step i).setting?.trans ih

/-- What is gathered from one moment up to another is gathered up to a moment in between, and from
    there on. -/
lemma flatMap_moments (f : Nat → List α) (him : i ≤ m) (hmj : m ≤ j) :
    (range' i (j - i)).flatMap f
      = (range' i (m - i)).flatMap f ++ (range' m (j - m)).flatMap f := by
  obtain ⟨a, rfl⟩ := Nat.exists_eq_add_of_le him
  obtain ⟨b, rfl⟩ := Nat.exists_eq_add_of_le hmj
  rw [← flatMap_append, Nat.add_assoc, Nat.add_sub_cancel_left, Nat.add_sub_cancel_left,
    ← Nat.add_assoc, Nat.add_sub_cancel_left, range'_append_1]

variable {H}

variable {q : Process Unit} {who : Option TaskId}

lemma step_of (h : H.mover i = who) : Session.Step who (H.session i) (H.session (i + 1)) :=
  h ▸ H.step i

lemma moved (h : H.mover i = some t) :
    ∃ p, H.Has t i p ∧ H.bench (i + 1) = (H.bench i).after t p := by
  obtain ⟨p, hp, hbench, -⟩ := (step_of h).of_some (H.orderly_at i)
  exact ⟨p, hp, hbench⟩

lemma changed (h : H.mover i = some t) : ∃ op, Bench.Change t (H.bench i) op (H.bench (i + 1)) := by
  obtain ⟨p, -, hbench⟩ := moved h
  rw [hbench]
  exact (H.bench i).after_change t p

lemma requested (h : H.mover i = some t) : H.bench (i + 1) = H.bench i ∨
    ∃ op, H.Makes t i op ∧ Bench.Change t (H.bench i) op (H.bench (i + 1)) := by
  obtain ⟨p, hp, hbench⟩ := moved h
  rw [hbench]
  cases p with
  | pure a | iter body s next => exact .inl rfl
  | act op next => exact .inr ⟨op, ⟨h, next, hp⟩, (H.bench i).perform_change t op⟩

lemma Has.unique (hp : H.Has t i p) (hq : H.Has t i q) : p = q := by
  have heq := inj_on_of_nodup_map (H.orderly_at i).distinct hp hq rfl
  cases heq
  rfl

lemma Makes.unique {op op'} (h : H.Makes t i op) (h' : H.Makes t i op') : op = op' := by
  obtain ⟨-, next, hnext⟩ := h
  obtain ⟨-, next', hnext'⟩ := h'
  cases hnext.unique hnext'
  rfl

lemma Has.move (h : H.Has t i p) (hmover : H.mover i = some t) :
    H.bench (i + 1) = (H.bench i).after t p ∧
    (p.isDone = false → H.Has t (i + 1) (p.step (H.bench i) t)) := by
  obtain ⟨q, hq, hbench, hgoes, -⟩ := (step_of hmover).of_some (H.orderly_at i)
  cases h.unique hq
  exact ⟨hbench, hgoes⟩

lemma Has.stay (h : H.Has t i p) (hmover : H.mover i ≠ some t) : H.Has t (i + 1) p :=
  (H.step i).stays (H.orderly_at i) hmover h

lemma Has.before (h : H.Has t (i + 1) q) : (H.mover i ≠ some t ∧ H.Has t i q) ∨
    (∃ p, H.mover i = some t ∧ H.Has t i p ∧ p.isDone = false ∧ q = p.step (H.bench i) t) ∨
    ∃ setting a, (H.bench i).setting? = some setting ∧ q = activationTask setting a := by
  cases hwho : H.mover i with
  | none =>
    rcases (step_of hwho).of_none.2.2.2 _ h with hold | hnew
    · exact .inl ⟨by simp, hold⟩
    · exact .inr (.inr hnew)
  | some u =>
    obtain ⟨p, hp, -, -, -, hback⟩ := (step_of hwho).of_some (H.orderly_at i)
    rcases hback _ h with ⟨hold, hne⟩ | ⟨hgoing, hnew⟩
    · exact .inl ⟨fun heq => hne (Option.some.inj heq).symm, hold⟩
    · cases hnew
      exact .inr (.inl ⟨p, rfl, hp, hgoing, rfl⟩)

lemma held_step (hturn : (H.bench i).turn = some t) (hmover : H.mover i ≠ some t) :
    (H.bench (i + 1)).turn = some t ∧ (H.bench (i + 1)).globals = (H.bench i).globals := by
  cases hwho : H.mover i with
  | none =>
    obtain ⟨hglobals, hsame, -⟩ := (step_of hwho).of_none
    exact ⟨hsame.trans hturn, hglobals⟩
  | some u =>
    obtain ⟨op, hchange⟩ := changed hwho
    have hne : t ≠ u := fun heq => hmover (hwho.trans (congrArg some heq.symm))
    exact ⟨hchange.turn_of_other hturn hne, hchange.globals_of_other hturn hne⟩

lemma held_idle (hij : i ≤ j) (hturn : (H.bench i).turn = some t) (hidle : H.Idle t i j) :
    (H.bench j).turn = some t ∧ (H.bench j).globals = (H.bench i).globals := by
  induction hij with
  | refl => exact ⟨hturn, rfl⟩
  | @step m him ih =>
    obtain ⟨hheld, hsame⟩ := ih fun n hin hnm => hidle n hin (Nat.lt_succ_of_lt hnm)
    obtain ⟨hheld', hsame'⟩ := held_step hheld (hidle m him (Nat.lt_succ_self m))
    exact ⟨hheld', hsame'.trans hsame⟩

lemma turn_held (hij : i ≤ j) (hturn : (H.bench i).turn = some t)
    (hkeeps : ∀ m, i ≤ m → m < j → ¬ H.Makes t m .release) : (H.bench j).turn = some t := by
  induction hij with
  | refl => exact hturn
  | @step m him ih =>
    have hheld := ih fun n hin hnm => hkeeps n hin (Nat.lt_succ_of_lt hnm)
    by_cases hmover : H.mover m = some t
    · rcases requested hmover with hsame | ⟨op, hmakes, hchange⟩
      · rwa [hsame]
      · refine hchange.turn_of_own hheld ?_
        rintro rfl
        exact hkeeps m him (Nat.lt_succ_self m) hmakes
    · exact (held_step hheld hmover).1

/-! ## How far a task has come -/

variable (H) in
/-- What a task has left at a moment of a part that it began at an earlier one.  Nothing is said of
    what it does after that part. -/
inductive Along (t : TaskId) (i : Nat) (c : Process α) : Nat → Process α → Prop where
  | start : Along t i c i c
  | stay {j d} : Along t i c j d → H.mover j ≠ some t → Along t i c (j + 1) d
  | move {j d} : Along t i c j d → H.mover j = some t → d.isDone = false →
      Along t i c (j + 1) (d.step (H.bench j) t)

namespace Along

variable {c d : Process α}

lemma le (h : H.Along t i c j d) : i ≤ j := by
  induction h with
  | start => exact le_rfl
  | stay _ _ ih | move _ _ _ ih => exact ih.step

lemma trans {e} (h : H.Along t i c j d) (h' : H.Along t j d m e) : H.Along t i c m e := by
  induction h' with
  | start => exact h
  | stay _ hmover ih => exact ih.stay hmover
  | move _ hmover hgoing ih => exact ih.move hmover hgoing

lemma of_idle (hij : i ≤ j) (hidle : H.Idle t i j) : H.Along t i c j c := by
  induction hij with
  | refl => exact .start
  | @step m him ih =>
    have hbefore := ih fun n hin hnm => hidle n hin (Nat.lt_succ_of_lt hnm)
    exact hbefore.stay (hidle m him (Nat.lt_succ_self m))

lemma has (h : H.Along t i c j d) {k} (hi : H.Has t i (c.bind k)) : H.Has t j (d.bind k) := by
  induction h with
  | start => exact hi
  | stay _ hmover ih => exact ih.stay hmover
  | move _ hmover hgoing ih =>
    have hmoved := (ih.move hmover).2 (isDone_bind hgoing k)
    rw [step_bind hgoing] at hmoved
    exact hmoved

lemma of_bind {f : α → Process β} {e} (h : H.Along t i (c.bind f) j e) :
    (∃ d, d.isDone = false ∧ H.Along t i c j d ∧ e = d.bind f) ∨
    ∃ a m, H.Along t i c m (.pure a) ∧ H.Along t m (f a) j e := by
  -- the first part is over as soon as what is left of it is done
  have hover : ∀ {m : Nat} {d : Process α}, H.Along t i c m d →
      (∃ d', d'.isDone = false ∧ H.Along t i c m d' ∧ d.bind f = d'.bind f) ∨
      ∃ a m', H.Along t i c m' (.pure a) ∧ H.Along t m' (f a) m (d.bind f) := by
    intro m d hd
    by_cases hdone : d.isDone
    · obtain ⟨a, rfl⟩ := eq_pure_of_isDone hdone
      exact .inr ⟨a, m, hd, .start⟩
    · exact .inl ⟨d, Bool.eq_false_iff.mpr hdone, hd, rfl⟩
  induction h with
  | start => exact hover .start
  | stay _ hmover ih =>
    rcases ih with ⟨d, hgoing, hd, rfl⟩ | ⟨a, m, hfirst, hsecond⟩
    · exact .inl ⟨d, hgoing, hd.stay hmover, rfl⟩
    · exact .inr ⟨a, m, hfirst, hsecond.stay hmover⟩
  | move _ hmover hgoing ih =>
    rcases ih with ⟨d, hgoing', hd, rfl⟩ | ⟨a, m, hfirst, hsecond⟩
    · rw [step_bind hgoing']
      exact hover (hd.move hmover hgoing')
    · exact .inr ⟨a, m, hfirst, hsecond.move hmover hgoing⟩

lemma head (h : H.Along t i c j d) : (d = c ∧ H.Idle t i j) ∨
    ∃ m, i ≤ m ∧ m < j ∧ H.Idle t i m ∧ H.mover m = some t ∧ c.isDone = false ∧
      H.Along t (m + 1) (c.step (H.bench m) t) j d := by
  induction h with
  | start => exact .inl ⟨rfl, fun m him hmi => absurd him hmi.not_ge⟩
  | @stay j _ _ hmover ih =>
    rcases ih with ⟨rfl, hidle⟩ | ⟨m, him, hmj, hidle, hm, hgoing, hrest⟩
    · refine .inl ⟨rfl, fun m him hmj => ?_⟩
      rcases Nat.lt_succ_iff_lt_or_eq.mp hmj with hmj | rfl
      · exact hidle m him hmj
      · exact hmover
    · exact .inr ⟨m, him, Nat.lt_succ_of_lt hmj, hidle, hm, hgoing, hrest.stay hmover⟩
  | @move j _ hd hmover hgoing ih =>
    rcases ih with ⟨rfl, hidle⟩ | ⟨m, him, hmj, hidle, hm, hgoing', hrest⟩
    · exact .inr ⟨j, hd.le, Nat.lt_succ_self j, hidle, hmover, hgoing, .start⟩
    · exact .inr ⟨m, him, Nat.lt_succ_of_lt hmj, hidle, hm, hgoing', hrest.move hmover hgoing⟩

lemma of_act {op next} (h : H.Along t i (.act op next) j d) :
    d = .act op next ∨ ∃ m b reply, i ≤ m ∧ m < j ∧ H.mover m = some t ∧
      ((H.bench m).perform t op).answer? = some (b, reply) ∧
      H.Along t i (.act op next) (m + 1) (next reply) ∧
      H.Along t (m + 1) (next reply) j d := by
  induction h with
  | start => exact .inl rfl
  | stay _ hmover ih =>
    rcases ih with rfl | ⟨m, b, reply, him, hmj, hm, hanswer, hfirst, hrest⟩
    · exact .inl rfl
    · exact .inr ⟨m, b, reply, him, Nat.lt_succ_of_lt hmj, hm, hanswer, hfirst, hrest.stay hmover⟩
  | @move j _ hd hmover hgoing ih =>
    rcases ih with rfl | ⟨m, b, reply, him, hmj, hm, hanswer, hfirst, hrest⟩
    · have hmoved := hd.move hmover hgoing
      cases hanswer : ((H.bench j).perform t op).answer? with
      | none => exact .inl (step_of_wait hanswer)
      | some answer =>
        rw [step_of_answer hanswer] at hmoved ⊢
        exact .inr ⟨j, answer.1, answer.2, hd.le, Nat.lt_succ_self j, hmover, hanswer, hmoved,
          .start⟩
    · exact .inr ⟨m, b, reply, him, Nat.lt_succ_of_lt hmj, hm, hanswer, hfirst,
        hrest.move hmover hgoing⟩

lemma of_iter {body : σ → Process (σ ⊕ β)} {s next} (h : H.Along t i (.iter body s next) j d) :
    d = .iter body s next ∨ ∃ m, i ≤ m ∧ m < j ∧
      H.Along t i (.iter body s next) (m + 1) (unfold body s next) ∧
      H.Along t (m + 1) (unfold body s next) j d := by
  rcases h.head with ⟨rfl, -⟩ | ⟨m, him, hmj, hidle, hmover, hgoing, hrest⟩
  · exact .inl rfl
  · exact .inr ⟨m, him, hmj, (of_idle him hidle).move hmover hgoing, hrest⟩

lemma eq_of_pure {a} (h : H.Along t i (.pure a) j d) : d = .pure a := by
  rcases h.head with ⟨rfl, -⟩ | ⟨m, -, -, -, -, hgoing, -⟩
  · rfl
  · cases hgoing

lemma isDone_of_pure {a} (h : H.Along t i (.pure a) j d) : d.isDone := by
  rw [h.eq_of_pure]
  rfl

lemma split (h : H.Along t i c j d) (him : i ≤ m) (hmj : m ≤ j) :
    ∃ e, H.Along t i c m e ∧ H.Along t m e j d := by
  induction h with
  | start =>
    cases him.antisymm hmj
    exact ⟨c, .start, .start⟩
  | stay hd hstays ih =>
    rcases Nat.le_succ_iff.mp hmj with hmj | rfl
    · obtain ⟨e, hfirst, hrest⟩ := ih hmj
      exact ⟨e, hfirst, hrest.stay hstays⟩
    · exact ⟨_, hd.stay hstays, .start⟩
  | move hd hmoves hgoing ih =>
    rcases Nat.le_succ_iff.mp hmj with hmj | rfl
    · obtain ⟨e, hfirst, hrest⟩ := ih hmj
      exact ⟨e, hfirst, hrest.move hmoves hgoing⟩
    · exact ⟨_, hd.move hmoves hgoing, .start⟩

lemma between (h : H.Along t i c j d) (him : i ≤ m) (hmj : m < j) (hmover : H.mover m = some t) :
    ∃ e, H.Along t i c m e ∧ e.isDone = false := by
  obtain ⟨e, hfirst, hrest⟩ := h.split him hmj.le
  rcases hrest.head with ⟨-, hidle⟩ | ⟨m', hm, -, hidle, -, hgoing, -⟩
  · exact absurd hmover (hidle m le_rfl hmj)
  · rcases hm.lt_or_eq with hlt | rfl
    · exact absurd hmover (hidle m le_rfl hlt)
    · exact ⟨e, hfirst, hgoing⟩

lemma unique {e} (h : H.Along t i c j d) (h' : H.Along t i c j e) : d = e := by
  induction h generalizing e with
  | start =>
    cases h' with
    | start => rfl
    | stay hlater _ | move hlater _ _ => exact absurd hlater.le (Nat.not_succ_le_self _)
  | stay hd hstays ih =>
    cases h' with
    | start => exact absurd hd.le (Nat.not_succ_le_self _)
    | stay hd' _ => exact ih hd'
    | move _ hmoves _ => exact absurd hmoves hstays
  | move hd hmoves _ ih =>
    cases h' with
    | start => exact absurd hd.le (Nat.not_succ_le_self _)
    | stay _ hstays => exact absurd hmoves hstays
    | move hd' _ _ => rw [ih hd']

end Along

lemma Has.along (hi : H.Has t i p) (h : H.Along t i p j q) : H.Has t j q := by
  have hq := h.has (k := .pure) (by rwa [bind_pure])
  rwa [bind_pure] at hq

lemma Has.persists (hi : H.Has t i p) (hij : i ≤ j)
    (hgoes : ∀ n q, n < j → H.Along t i p n q → q.isDone = false) :
    ∃ q, H.Has t j q ∧ H.Along t i p j q := by
  induction hij with
  | refl => exact ⟨p, hi, .start⟩
  | @step n _ ih =>
    obtain ⟨q, hq, halong⟩ := ih fun m q hm => hgoes m q (Nat.lt_succ_of_lt hm)
    by_cases hmover : H.mover n = some t
    · have hgoing := hgoes n q (Nat.lt_succ_self n) halong
      exact ⟨_, (hq.move hmover).2 hgoing, halong.move hmover hgoing⟩
    · exact ⟨q, hq.stay hmover, halong.stay hmover⟩

lemma Has.since (h : H.Has t j q) (hij : i ≤ j) : (∃ p, H.Has t i p ∧ H.Along t i p j q) ∨
    ∃ m setting a, i ≤ m ∧ (H.bench 0).setting? = some setting ∧
      H.Has t (m + 1) (activationTask setting a) ∧
      H.Along t (m + 1) (activationTask setting a) j q := by
  induction hij generalizing q with
  | refl => exact .inl ⟨q, h, .start⟩
  | @step j hij ih =>
    rcases h.before with ⟨hmover, hold⟩ | ⟨p, hmover, hp, hgoing, rfl⟩ | ⟨setting, a, hset, rfl⟩
    · rcases ih hold with ⟨p, hp, halong⟩ | ⟨m, setting, a, him, hset, hm, halong⟩
      · exact .inl ⟨p, hp, halong.stay hmover⟩
      · exact .inr ⟨m, setting, a, him, hset, hm, halong.stay hmover⟩
    · rcases ih hp with ⟨p0, hp0, halong⟩ | ⟨m, setting, a, him, hset, hm, halong⟩
      · exact .inl ⟨p0, hp0, halong.move hmover hgoing⟩
      · exact .inr ⟨m, setting, a, him, hset, hm, halong.move hmover hgoing⟩
    · exact .inr ⟨j, setting, a, hij, (H.setting?_at j).symm.trans hset, h, .start⟩

/-! ## Histories of schedules -/

end History

namespace Session

def moveIn (b : Bench) (t : TaskId) (before : List Task) : List Task → Option Session
  | [] => none
  | task :: behind =>
    if task.id = t then some ⟨b.after task.id task.rest, before ++ task.moved b ++ behind⟩
    else moveIn b t (before ++ [task]) behind

lemma moveIn_step {b t before tasks}
    (h : moveIn b t before tasks = some s') : Step (some t) ⟨b, before ++ tasks⟩ s' := by
  induction tasks generalizing before with
  | nil => cases h
  | cons task behind ih =>
    rw [moveIn] at h
    split at h
    · next heq =>
        cases h
        exact heq ▸ .move before task behind
    · have hstep := ih h
      rw [append_assoc] at hstep
      exact hstep

end Session

/-- What a host or a task does, or time that passes. -/
inductive Incident where
  | move (t : TaskId)
  | spawn
  | inject (f : Frame)
  | pause
  | resume
  | elapses (time : Nat)

def movesOf (t : TaskId) (n : Nat) : List Incident :=
  replicate n (.move t)

namespace Session

/-- The session after an incident, and who has moved.  Nothing happens if the task that is to move
    is not there. -/
def undergo (s : Session) : Incident → Option TaskId × Session
  | .move t =>
    match moveIn s.bench t [] s.tasks with
    | some s' => (some t, s')
    | none => (none, s)
  | .spawn => (none, s.startTasks)
  | .inject f => (none, (s.inject f).1)
  | .pause => (none, s.pause.1)
  | .resume => (none, s.resume.1)
  | .elapses time => (none, s.setClock (s.bench.now + time))

def atMoment (s : Session) : List Incident → Nat → Session
  | [], _ => s
  | _ :: _, 0 => s
  | incident :: incidents, n + 1 => (s.undergo incident).2.atMoment incidents n

def moverAt (s : Session) : List Incident → Nat → Option TaskId
  | [], _ => none
  | incident :: _, 0 => (s.undergo incident).1
  | incident :: incidents, n + 1 => (s.undergo incident).2.moverAt incidents n

lemma undergo_step (s incident) : Step (s.undergo incident).1 s (s.undergo incident).2 := by
  cases incident with
  | move t =>
    rw [undergo]
    cases hmove : moveIn s.bench t [] s.tasks with
    | none => exact .external (.clock s le_rfl)
    | some s' => exact moveIn_step hmove
  | spawn => exact .spawn s
  | inject f => exact .external (.inject s f)
  | pause => exact .external (.pause s)
  | resume => exact .external (.resume s)
  | elapses time => exact .external (.clock s (Nat.le_add_right _ _))

lemma atMoment_zero (s : Session) (incidents) : s.atMoment incidents 0 = s := by
  cases incidents <;> rfl

lemma atMoment_step (s : Session) (incidents n) :
    Step (s.moverAt incidents n) (s.atMoment incidents n) (s.atMoment incidents (n + 1)) := by
  induction n generalizing s incidents with
  | zero =>
    cases incidents with
    | nil => exact .external (.clock s le_rfl)
    | cons incident incidents =>
      rw [Nat.zero_add, atMoment, atMoment, atMoment_zero]
      exact s.undergo_step incident
  | succ n ih =>
    cases incidents with
    | nil => exact .external (.clock s le_rfl)
    | cons incident incidents => exact ih _ _

end Session

namespace History

/-- The history in which one incident after another occurs. -/
def ofIncidents (s : Session) (hs : s.Orderly) (incidents : List Incident) : History where
  session := s.atMoment incidents
  mover := s.moverAt incidents
  orderly := by
    rw [Session.atMoment_zero]
    exact hs
  step := s.atMoment_step incidents

/-! ## What holds whenever a task moves -/

variable {H : History} {α β σ : Type} {t : TaskId} {i j m : Nat}

variable (H) in
def Upholds (t : TaskId) (G : Nat → Prop) (c : Process α) : Prop :=
  ∀ i (k : α → Process Unit), H.Has t i (c.bind k) →
    ∀ j d, H.Along t i c j d → H.mover j = some t → d.isDone = false → G j

namespace Upholds

variable {G : Nat → Prop}

lemma pure (a : α) : H.Upholds t G (.pure a) := by
  intro i k _ j d halong _ hgoing
  rcases halong.head with ⟨rfl, -⟩ | ⟨m, -, -, -, -, hpure, -⟩
  · cases hgoing
  · cases hpure

lemma bind {c} {f : α → Process β} (hc : H.Upholds t G c)
    (hf : ∀ a, H.Upholds t G (f a)) : H.Upholds t G (c.bind f) := by
  intro i k hi j e halong hmover hgoing
  rw [bind_assoc] at hi
  rcases halong.of_bind with ⟨d, hgoing', hd, -⟩ | ⟨a, m, hfirst, hsecond⟩
  · exact hc i _ hi j d hd hmover hgoing'
  · exact hf a m k (hfirst.has hi) j e hsecond hmover hgoing

lemma act {op} {next : op.Reply → Process α} (hop : ∀ j, H.Makes t j op → G j)
    (hnext : ∀ reply, H.Upholds t G (next reply)) : H.Upholds t G (.act op next) := by
  intro i k hi j d halong hmover hgoing
  rcases halong.of_act with rfl | ⟨m, b, reply, -, -, -, -, hfirst, hrest⟩
  · exact hop j ⟨hmover, _, halong.has hi⟩
  · exact hnext reply (m + 1) k (hfirst.has hi) j d hrest hmover hgoing

lemma iter {body} {next : β → Process α} (hstill : ∀ j, H.bench (j + 1) = H.bench j → G j)
    (hbody : ∀ s, H.Upholds t G (body s)) (hnext : ∀ b, H.Upholds t G (next b)) (s : σ) :
    H.Upholds t G (.iter body s next) := by
  intro i k hi j d halong hmover hgoing
  -- on the moments that are left: each round takes at least one
  induction hn : j - i using Nat.strongRecOn generalizing s i with
  | ind n ih =>
    rcases halong.of_iter with rfl | ⟨m, him, hmj, hfirst, hrest⟩
    · exact hstill j ((halong.has hi).move hmover).1
    · have hround := hfirst.has hi
      rw [unfold, bind_assoc] at hround
      rcases hrest.of_bind with ⟨d', hgoing', hd', -⟩ | ⟨outcome, m', hover, hafter⟩
      · exact hbody s (m + 1) _ hround j d' hd' hmover hgoing'
      · have hlater := hover.has hround
        have hle := hover.le
        cases outcome with
        | inl s' => exact ih (j - m') (by omega) s' m' hlater hafter rfl
        | inr b => exact hnext b m' k hlater j d hafter hmover hgoing

end Upholds

end History

end CanScript
