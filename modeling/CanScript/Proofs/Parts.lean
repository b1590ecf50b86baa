import CanScript.Proofs.Dispatch

/-! # The course of a part

    A part that a task begins takes its course: at each later moment something is left of it, up to
    the moment at which it comes to its result. -/

namespace CanScript

open Eval

def Eval.onward {σ β : Type} (body : σ → Eval (σ ⊕ β)) :
    Except Interrupt (σ ⊕ β) × Local → Process (Except Interrupt β × Local)
  | (.ok (.inl s), l) => (loop body s).start l
  | (.ok (.inr b), l) => .pure (.ok b, l)
  | (.error e, l) => .pure (.error e, l)

lemma Eval.loop_step {σ β : Type} (body : σ → Eval (σ ⊕ β)) (s : σ) (l : Local) (b : Bench)
    (t : TaskId) : ((loop body s).start l).step b t = ((body s).start l).bind (onward body) := by
  show (((body s).start l).bind _).bind _ = _
  rw [Process.bind_assoc]
  congr 1
  funext result
  obtain ⟨result, l'⟩ := result
  rcases result with _ | ⟨_ | _⟩
  · rfl
  · rfl
  · rfl

def Eval.kept {α : Type} :
    Except Interrupt α × Local → Except Interrupt (Except Diagnostic α) × Local
  | (.ok a, l) => (.ok (.ok a), l)
  | (.error (.error d), l) => (.ok (.error d), l)
  | (.error .stopped, l) => (.error .stopped, l)

lemma Eval.attempt_start {α : Type} (x : Eval α) (l : Local) :
    (attempt x).start l = (x.start l).bind fun r => .pure (kept r) := by
  show (x.start l).bind _ = _
  congr 1
  funext result
  obtain ⟨result, l'⟩ := result
  rcases result with (_ | _) | _
  · rfl
  · rfl
  · rfl

def Process.result? {α : Type} : Process α → Option α
  | pure a => some a
  | _ => none

lemma Process.eq_pure_of_result? {α : Type} {p : Process α} {a} (h : p.result? = some a) :
    p = .pure a := by
  cases p with
  | pure b =>
    cases h
    rfl
  | act op next => cases h
  | iter body s next => cases h

namespace History

variable {H : History} {α β σ : Type} {t : TaskId} {i j m n : Nat}

/-! ## Parts -/

variable (H)

/-- A task has a part to do next at a moment. -/
def Begins (t : TaskId) (i : Nat) (c : Process α) : Prop :=
  ∃ k, H.Has t i (c.bind k)

/-- A task has a part to do next at one moment, and something is left of it at another. -/
structure Course (t : TaskId) (i : Nat) (c : Process α) (j : Nat) (d : Process α) : Prop where
  begins : H.Begins t i c
  along : H.Along t i c j d

/-- A part that a task has to do next at one moment comes to its result at another, and not before.
    -/
structure Finishes (t : TaskId) (i : Nat) (c : Process α) (j : Nat) (a : α) : Prop where
  course : H.Course t i c j (.pure a)
  first : ∀ m d, m < j → H.Along t i c m d → d.isDone = false

/-- A task moves next at a moment, after it has stayed as it is. -/
structure NextMove (t : TaskId) (i n : Nat) : Prop where
  le : i ≤ n
  idle : H.Idle t i n
  mover : H.mover n = some t

variable {H}

lemma Idle.succ (h : H.Idle t i j) (hmover : H.mover j ≠ some t) : H.Idle t i (j + 1) := by
  intro n hin hnj
  rcases Nat.lt_succ_iff_lt_or_eq.mp hnj with hnj | rfl
  · exact h n hin hnj
  · exact hmover

lemma Along.goes_before {c d e : Process α} (h : H.Along t i c j d) (hgoes : d.isDone = false)
    (he : H.Along t i c m e) (hmj : m ≤ j) : e.isDone = false := by
  by_contra hdone
  obtain ⟨a, rfl⟩ := Process.eq_pure_of_isDone (Bool.of_not_eq_false hdone)
  obtain ⟨e, he', hrest⟩ := h.split he.le hmj
  rw [he'.unique he] at hrest
  cases hgoes.symm.trans hrest.isDone_of_pure

lemma Along.finishes {c : Process α} {a : α} (hbegins : H.Begins t i c)
    (h : H.Along t i c j (.pure a)) : ∃ m, m ≤ j ∧ H.Finishes t i c m a ∧ H.Idle t m j := by
  generalize hd : Process.pure a = d at h
  induction h with
  | start =>
    subst hd
    refine ⟨i, le_rfl, ⟨⟨hbegins, .start⟩, fun m d hm hlater => ?_⟩, fun n hin hni => ?_⟩
    · exact absurd hlater.le hm.not_ge
    · exact absurd hin hni.not_ge
  | stay _ hmover ih =>
    obtain ⟨m, hmj, hfinishes, hidle⟩ := ih hd
    exact ⟨m, hmj.step, hfinishes, hidle.succ hmover⟩
  | @move j d hbefore hmover hgoing _ =>
    have hnow := hbefore.move hmover hgoing
    rw [← hd] at hnow
    refine ⟨j + 1, le_rfl, ⟨⟨hbegins, hnow⟩, fun m e hm he => ?_⟩, fun n hin hni => ?_⟩
    · exact hbefore.goes_before hgoing he (Nat.le_of_lt_succ hm)
    · exact absurd hin hni.not_ge

variable {f : α → Process β} {b : β} {op : Request} {r : Exit β}
  {e : Process (Exit β)}

namespace Course

variable {c d : Process α}

lemma le (h : H.Course t i c j d) : i ≤ j :=
  h.along.le

lemma rest (h : H.Course t i c j d) : H.Begins t j d := by
  obtain ⟨⟨k, hk⟩, halong⟩ := h
  exact ⟨k, halong.has hk⟩

lemma trans {e} (h : H.Course t i c m d) (h' : H.Along t m d j e) : H.Course t i c j e :=
  ⟨h.begins, h.along.trans h'⟩

lemma of_bind {e} (h : H.Course t i (c.bind f) j e) :
    (∃ d, d.isDone = false ∧ H.Course t i c j d ∧ e = d.bind f) ∨
    ∃ m a, H.Finishes t i c m a ∧ H.Course t m (f a) j e := by
  obtain ⟨⟨k, hk⟩, halong⟩ := h
  rw [Process.bind_assoc] at hk
  have hbegins : H.Begins t i c := ⟨_, hk⟩
  rcases halong.of_bind with ⟨d, hgoing, hd, rfl⟩ | ⟨a, m', hfirst, hsecond⟩
  · exact .inl ⟨d, hgoing, ⟨hbegins, hd⟩, rfl⟩
  · obtain ⟨m, hm, hfinishes, hidle⟩ := hfirst.finishes hbegins
    exact .inr ⟨m, a, hfinishes, ⟨k, hfinishes.course.along.has hk⟩,
      (Along.of_idle hm hidle).trans hsecond⟩

lemma of_pure {a} (h : H.Course t i (.pure a) j d) : d = .pure a ∧ H.Idle t i j := by
  have hd := h.along.eq_of_pure
  exact ⟨hd, h.along.idle_of_pure⟩

end Course

namespace Finishes

variable {c : Process α} {a : α}

lemma le (h : H.Finishes t i c j a) : i ≤ j :=
  h.course.le

lemma unique {a' j'} (h : H.Finishes t i c j a) (h' : H.Finishes t i c j' a') :
    j = j' ∧ a = a' := by
  rcases lt_trichotomy j j' with hlt | rfl | hgt
  · cases h'.first j _ hlt h.course.along
  · have heq := h.course.along.unique h'.course.along
    cases heq
    exact ⟨rfl, rfl⟩
  · cases h.first j' _ hgt h'.course.along

lemma of_pure {b} (h : H.Finishes t i (.pure a) j b) : j = i ∧ b = a := by
  have hb := h.course.along.eq_of_pure
  cases hb
  rcases h.le.lt_or_eq with hlt | rfl
  · cases h.first i _ hlt .start
  · exact ⟨rfl, rfl⟩

lemma of_bind (h : H.Finishes t i (c.bind f) j b) :
    ∃ m a, H.Finishes t i c m a ∧ H.Finishes t m (f a) j b := by
  rcases h.course.of_bind with ⟨d, hgoing, -, heq⟩ | ⟨m, a, hfirst, hsecond⟩
  · have hgoes := Process.isDone_bind hgoing f
    rw [← heq] at hgoes
    cases hgoes
  · refine ⟨m, a, hfirst, hsecond, fun n d hn hd => h.first n d hn ?_⟩
    exact (hfirst.course.along.bind f).trans hd

lemma of_map {f : α → β} (h : H.Finishes t i (c.bind fun a => .pure (f a)) j b) :
    ∃ a, H.Finishes t i c j a ∧ b = f a := by
  obtain ⟨m, a, hfirst, hsecond⟩ := h.of_bind
  obtain ⟨rfl, rfl⟩ := hsecond.of_pure
  exact ⟨a, hfirst, rfl⟩

end Finishes

lemma Finishes.pure {a : α} (h : H.Begins t i (.pure a)) : H.Finishes t i (.pure a) i a :=
  ⟨⟨h, .start⟩, fun _ _ hm hd => absurd hd.le hm.not_ge⟩

lemma Begins.of_bind {c : Process α} (h : H.Begins t i (c.bind f)) : H.Begins t i c := by
  obtain ⟨k, hk⟩ := h
  rw [Process.bind_assoc] at hk
  exact ⟨_, hk⟩

lemma Finishes.begins {c a} (h : H.Finishes t i c j a)
    (hbegins : H.Begins t i (c.bind f)) : H.Begins t j (f a) := by
  obtain ⟨k, hk⟩ := hbegins
  rw [Process.bind_assoc] at hk
  exact ⟨k, h.course.along.has hk⟩

lemma Finishes.bind {c a} (h : H.Finishes t i c m a)
    (h' : H.Finishes t m (f a) j b) (hbegins : H.Begins t i (c.bind f)) :
    H.Finishes t i (c.bind f) j b := by
  refine ⟨⟨hbegins, (h.course.along.bind f).trans h'.course.along⟩, fun n d hn hd => ?_⟩
  have hcourse : H.Course t i (c.bind f) n d := ⟨hbegins, hd⟩
  rcases hcourse.of_bind with ⟨e, hgoes, -, rfl⟩ | ⟨m', a', hfirst, hsecond⟩
  · exact Process.isDone_bind hgoes f
  · obtain ⟨rfl, rfl⟩ := h.unique hfirst
    exact h'.first n d hn hsecond.along

lemma Begins.persists {c : Process α} (h : H.Begins t i c) (hij : i ≤ j)
    (hgoes : ∀ m a, m ≤ j → ¬ H.Finishes t i c m a) :
    ∃ e, e.isDone = false ∧ H.Course t i c j e := by
  -- what is over has come to a result before
  have hgoing : ∀ {m : Nat} {e : Process α}, m ≤ j → H.Along t i c m e → e.isDone = false := by
    intro m e hmj he
    by_contra hdone
    obtain ⟨a, rfl⟩ := Process.eq_pure_of_isDone (Bool.of_not_eq_false hdone)
    obtain ⟨m', hm', hfinishes, -⟩ := he.finishes h
    exact hgoes m' a (hm'.trans hmj) hfinishes
  have halong : ∀ m, i ≤ m → m ≤ j → ∃ e, H.Along t i c m e := by
    intro m him
    induction him with
    | refl => exact fun _ => ⟨c, .start⟩
    | @step m him ih =>
      intro hmj
      obtain ⟨e, he⟩ := ih (Nat.le_of_succ_le hmj)
      by_cases hmover : H.mover m = some t
      · exact ⟨_, he.move hmover (hgoing (Nat.le_of_succ_le hmj) he)⟩
      · exact ⟨e, he.stay hmover⟩
  obtain ⟨e, he⟩ := halong j hij le_rfl
  exact ⟨e, hgoing le_rfl he, h, he⟩

lemma Begins.course_or_finishes {c : Process α} (h : H.Begins t i c) (hij : i ≤ j) :
    (∃ e, e.isDone = false ∧ H.Course t i c j e) ∨ ∃ m a, m ≤ j ∧ H.Finishes t i c m a := by
  by_cases hover : ∃ m a, m ≤ j ∧ H.Finishes t i c m a
  · exact .inr hover
  · exact .inl (h.persists hij fun m a hmj hfinishes => hover ⟨m, a, hmj, hfinishes⟩)

variable (H) in
def left (t : TaskId) (i : Nat) (c : Process α) : Nat → Process α
  | 0 => c
  | k + 1 =>
    if H.mover (i + k) = some t then (left t i c k).step (H.bench (i + k)) t else left t i c k

lemma Finishes.of_left {c k} {f : α → β} (hbegins : H.Begins t i c)
    (hgoes : ∀ m < k, (H.left t i c m).isDone = false)
    (hover : (H.left t i c k).result?.map f = some b) :
    ∃ a, H.Finishes t i c (i + k) a ∧ f a = b := by
  have halong : ∀ m ≤ k, H.Along t i c (i + m) (H.left t i c m) := by
    intro m
    induction m with
    | zero => exact fun _ => .start
    | succ m ih =>
      intro hmk
      have hbefore := ih (Nat.le_of_succ_le hmk)
      rw [left]
      split
      · next hmover => exact hbefore.move hmover (hgoes m hmk)
      · next hmover => exact hbefore.stay hmover
  obtain ⟨a, ha, hb⟩ := Option.map_eq_some_iff.mp hover
  refine ⟨a, ⟨⟨hbegins, ?_⟩, fun m d hm hd => ?_⟩, hb⟩
  · rw [← Process.eq_pure_of_result? ha]
    exact halong k le_rfl
  · obtain ⟨m, rfl⟩ := Nat.exists_eq_add_of_le hd.le
    have hmk : m < k := Nat.lt_of_add_lt_add_left hm
    rw [hd.unique (halong m hmk.le)]
    exact hgoes m hmk

/-! ## Requests -/

variable (H) in
/-- A task makes a request from one moment to another, and gets no reply. -/
structure Pending (t : TaskId) (i j : Nat) (op : Request) : Prop where
  asks : ∀ m, i ≤ m → m ≤ j → ∃ next, H.Has t m (.act op next)
  waits : ∀ m, i ≤ m → m < j → H.mover m = some t → ((H.bench m).perform t op).answer? = none

variable (H) in
/-- A task makes a request from one moment on, and gets a reply at another. -/
structure Gets (t : TaskId) (i n : Nat) (op : Request) (reply : op.Reply) : Prop where
  le : i ≤ n
  pending : H.Pending t i n op
  mover : H.mover n = some t
  answer : ((H.bench n).perform t op).answer? = some (H.bench (n + 1), reply)

lemma Pending.succ (h : H.Pending t i j op) (hnext : ∃ next, H.Has t (j + 1) (.act op next))
    (hwaits : H.mover j = some t → ((H.bench j).perform t op).answer? = none) :
    H.Pending t i (j + 1) op := by
  refine ⟨fun m him hmj => ?_, fun m him hmj hmover => ?_⟩
  · rcases Nat.le_succ_iff.mp hmj with hmj | rfl
    · exact h.asks m him hmj
    · exact hnext
  · rcases Nat.lt_succ_iff_lt_or_eq.mp hmj with hmj | rfl
    · exact h.waits m him hmj hmover
    · exact hwaits hmover

lemma Gets.makes {reply} (h : H.Gets t i n op reply) : H.Makes t n op :=
  ⟨h.mover, h.pending.asks n h.le le_rfl⟩

lemma Gets.last {op reply} (h : H.Gets t i n op reply) : H.Gets t n n op reply :=
  ⟨le_rfl, ⟨fun m hnm => h.pending.asks m (h.le.trans hnm),
    fun _ hnm hmn => absurd hnm hmn.not_ge⟩, h.mover, h.answer⟩

lemma Pending.idle (h : H.Pending t i j op)
    (hop : op.Immediate t := by exact fun _ => Option.some_ne_none _) : H.Idle t i j :=
  fun m him hmj hmover => hop _ (h.waits m him hmj hmover)

lemma Gets.nextMove {reply} (h : H.Gets t i n op reply)
    (hop : op.Immediate t := by exact fun _ => Option.some_ne_none _) : H.NextMove t i n :=
  ⟨h.le, h.pending.idle hop, h.mover⟩

/-- A task still makes its request, or has got a reply and goes on. -/
lemma Course.of_act {next : op.Reply → Process α} {d}
    (h : H.Course t i (.act op next) j d) : (d = .act op next ∧ H.Pending t i j op) ∨
    ∃ n reply, H.Gets t i n op reply ∧ H.Along t i (.act op next) (n + 1) (next reply) ∧
      H.Course t (n + 1) (next reply) j d := by
  obtain ⟨⟨k, hk⟩, halong⟩ := h
  induction halong with
  | start =>
    refine .inl ⟨rfl, fun m him hmi => ?_, fun m him hmi => absurd him hmi.not_ge⟩
    cases him.antisymm hmi
    exact ⟨_, hk⟩
  | stay hd hmover ih =>
    rcases ih with ⟨rfl, hpending⟩ | ⟨n, reply, hgets, hfirst, hrest⟩
    · exact .inl ⟨rfl, hpending.succ ⟨_, (hd.stay hmover).has hk⟩ fun h => absurd h hmover⟩
    · exact .inr ⟨n, reply, hgets, hfirst, hrest.begins, hrest.along.stay hmover⟩
  | @move j _ hd hmover hgoing ih =>
    rcases ih with ⟨rfl, hpending⟩ | ⟨n, reply, hgets, hfirst, hrest⟩
    · have hmoved := hd.move hmover hgoing
      have hbench := ((hd.has hk).move hmover).1
      cases hanswer : ((H.bench j).perform t op).answer? with
      | none =>
        rw [Process.step_of_wait hanswer] at hmoved ⊢
        exact .inl ⟨rfl, hpending.succ ⟨_, hmoved.has hk⟩ fun _ => hanswer⟩
      | some answer =>
        rw [Process.step_of_answer hanswer] at hmoved ⊢
        have hsame : H.bench (j + 1) = answer.1 :=
          hbench.trans (Outcome.bench_of_answer hanswer)
        refine .inr ⟨j, answer.2, ⟨hd.le, hpending, hmover, ?_⟩, hmoved, ⟨k, hmoved.has hk⟩, .start⟩
        rw [hsame]
        exact hanswer
    · exact .inr ⟨n, reply, hgets, hfirst, hrest.begins, hrest.along.move hmover hgoing⟩

lemma Finishes.of_act {next : op.Reply → Process α} {a} (h : H.Finishes t i (.act op next) j a) :
    ∃ n reply, H.Gets t i n op reply ∧ H.Finishes t (n + 1) (next reply) j a := by
  rcases h.course.of_act with ⟨hsame, -⟩ | ⟨n, reply, hgets, hfirst, hrest⟩
  · cases hsame
  · exact ⟨n, reply, hgets, hrest, fun m d hm hd => h.first m d hm (hfirst.trans hd)⟩

lemma Course.head {c d : Process α} (h : H.Course t i c j d) : (d = c ∧ H.Idle t i j) ∨
    ∃ n, H.NextMove t i n ∧ H.Along t i c (n + 1) (c.step (H.bench n) t) ∧
      H.Course t (n + 1) (c.step (H.bench n) t) j d := by
  obtain ⟨⟨k, hk⟩, halong⟩ := h
  rcases halong.head with hstays | ⟨n, hin, -, hidle, hmover, hgoing, hrest⟩
  · exact .inl hstays
  · have hfirst := (Along.of_idle (c := c) hin hidle).move hmover hgoing
    exact .inr ⟨n, ⟨hin, hidle, hmover⟩, hfirst, ⟨k, hfirst.has hk⟩, hrest⟩

/-! ## Executions -/

section Executions

variable {x : Eval α} {g : α → Eval β} {l : Local}

lemma Finishes.second {a l'} (h : H.Finishes t i (x.start l) j (.ok a, l'))
    (hbegins : H.Begins t i ((x >>= g).start l)) : H.Begins t j ((g a).start l') :=
  h.begins hbegins

lemma Finishes.of_evalBind (h : H.Finishes t i ((x >>= g).start l) j r) :
    (∃ e l', H.Finishes t i (x.start l) j (.error e, l') ∧ r = (.error e, l')) ∨
    ∃ m a l', H.Finishes t i (x.start l) m (.ok a, l') ∧ H.Finishes t m ((g a).start l') j r := by
  obtain ⟨m, ⟨result, l'⟩, hfirst, hsecond⟩ := Finishes.of_bind h
  cases result with
  | ok a => exact .inr ⟨m, a, l', hfirst, hsecond⟩
  | error e =>
    obtain ⟨rfl, rfl⟩ := hsecond.of_pure
    exact .inl ⟨e, l', hfirst, rfl⟩

lemma Course.of_evalBind (h : H.Course t i ((x >>= g).start l) j e) :
    (∃ d, d.isDone = false ∧ H.Course t i (x.start l) j d ∧
      e = d.bind fun r => ExceptT.bindCont g r.1 r.2) ∨
    (∃ m err l', H.Finishes t i (x.start l) m (.error err, l') ∧ e = .pure (.error err, l') ∧
      m ≤ j ∧ H.Idle t m j) ∨
    ∃ m a l', H.Finishes t i (x.start l) m (.ok a, l') ∧ H.Course t m ((g a).start l') j e := by
  rcases Course.of_bind h with hfirst | ⟨m, ⟨result, l'⟩, hfirst, hsecond⟩
  · exact .inl hfirst
  · cases result with
    | ok a => exact .inr (.inr ⟨m, a, l', hfirst, hsecond⟩)
    | error err =>
      obtain ⟨he, hidle⟩ := Course.of_pure hsecond
      exact .inr (.inl ⟨m, err, l', hfirst, he, hsecond.le, hidle⟩)

lemma Finishes.of_ask {r} (h : H.Finishes t i ((ask op).start l) j r) :
    ∃ n reply, j = n + 1 ∧ r = (.ok reply, l) ∧ H.Gets t i n op reply := by
  obtain ⟨n, reply, hgets, hrest⟩ := Finishes.of_act h
  obtain ⟨rfl, rfl⟩ := hrest.of_pure
  exact ⟨n, reply, rfl, rfl, hgets⟩

lemma Course.of_askBind {g} (h : H.Course t i ((ask op >>= g).start l) j e) :
    ((e = .act op fun reply => (g reply).start l) ∧ H.Pending t i j op) ∨
    ∃ n reply, H.Gets t i n op reply ∧ H.Course t (n + 1) ((g reply).start l) j e := by
  rcases Course.of_act h with hpending | ⟨n, reply, hgets, -, hrest⟩
  · exact .inl hpending
  · exact .inr ⟨n, reply, hgets, hrest⟩

lemma Finishes.of_askBind {g} (h : H.Finishes t i ((ask op >>= g).start l) j r) :
    ∃ n reply, H.Gets t i n op reply ∧ H.Finishes t (n + 1) ((g reply).start l) j r :=
  Finishes.of_act h

lemma Finishes.of_attempt {r} (h : H.Finishes t i ((attempt x).start l) j r) :
    ∃ r', H.Finishes t i (x.start l) j r' ∧ r = kept r' := by
  rw [attempt_start] at h
  exact h.of_map

end Executions

/-! ## Loops -/

section Loops

variable {body : σ → Eval (σ ⊕ β)} {I : Nat → σ → Local → Prop} {s : σ} {l : Local}

variable (H) in
/-- A task begins a round of a loop, with which it goes on from a moment. -/
structure Enters (t : TaskId) (body : σ → Eval (σ ⊕ β)) (m n : Nat) (s : σ) (l : Local) : Prop where
  begins : H.Begins t m ((loop body s).start l)
  next : H.NextMove t m n

/-- What each round of a loop keeps that leads to another one holds at the beginning of every round.
    A task is before a round, within it, or past the last one. -/
lemma Course.of_loop (hround : ∀ {m n m' s s' l l'}, I m s l → H.Enters t body m n s l →
      H.Finishes t (n + 1) ((body s).start l) m' (.ok (.inl s'), l') → I m' s' l') (hI : I i s l)
    (h : H.Course t i ((loop body s).start l) j e) : ∃ m s' l', i ≤ m ∧ I m s' l' ∧
      ((m ≤ j ∧ H.Begins t m e ∧ H.Idle t m j ∧ e = (loop body s').start l') ∨
      ∃ n, H.Enters t body m n s' l' ∧
        ((∃ d, d.isDone = false ∧ H.Course t (n + 1) ((body s').start l') j d ∧
          e = d.bind (onward body)) ∨
        ∃ m' r, H.Finishes t (n + 1) ((body s').start l') m' r ∧ m' ≤ j ∧
          H.Along t i ((loop body s).start l) m' e ∧ e = onward body r ∧ e.isDone)) := by
  -- on the moments that are left: each round takes at least one
  induction hn : j - i using Nat.strongRecOn generalizing s i l with
  | ind len ih =>
    rcases h.head with ⟨rfl, hidle⟩ | ⟨n, hnext, hfirst, hrest⟩
    · exact ⟨i, s, l, le_rfl, hI, .inl ⟨h.le, h.begins, hidle, rfl⟩⟩
    · have hentered : H.Enters t body i n s l := ⟨h.begins, hnext⟩
      rw [loop_step] at hfirst hrest
      rcases hrest.of_bind with hwithin | ⟨m', r, hfinishes, hafter⟩
      · exact ⟨i, s, l, le_rfl, hI, .inr ⟨n, hentered, .inl hwithin⟩⟩
      · have hthere := hfirst.trans (hfinishes.course.along.bind (onward body))
        by_cases hdone : (onward body r).isDone
        · obtain ⟨a, ha⟩ := Process.eq_pure_of_isDone hdone
          rw [ha] at hafter
          have he := (Course.of_pure hafter).1.trans ha.symm
          exact ⟨i, s, l, le_rfl, hI, .inr ⟨n, hentered, .inr
            ⟨m', r, hfinishes, hafter.le, he ▸ hthere, he, he ▸ hdone⟩⟩⟩
        · obtain ⟨_ | ⟨s' | _⟩, l'⟩ := r
          · exact absurd rfl hdone
          · have hle := hfinishes.le
            have hin := hnext.le
            have hm'j := hafter.le
            obtain ⟨m, s'', l'', him, hm, hwhere⟩ := ih (j - m') (by omega)
              (hround hI hentered hfinishes) hafter rfl
            refine ⟨m, s'', l'', by omega, hm, hwhere.imp_right ?_⟩
            rintro ⟨n', hentered', hwithin | ⟨m'', r, hover, hm'', halong, hrest⟩⟩
            · exact ⟨n', hentered', .inl hwithin⟩
            · exact ⟨n', hentered', .inr ⟨m'', r, hover, hm'', hthere.trans halong, hrest⟩⟩
          · exact absurd rfl hdone

lemma Finishes.of_loop (hround : ∀ {m n m' s s' l l'}, I m s l → H.Enters t body m n s l →
      H.Finishes t (n + 1) ((body s).start l) m' (.ok (.inl s'), l') → I m' s' l') (hI : I i s l)
    (h : H.Finishes t i ((loop body s).start l) j r) :
    ∃ m n s' l' r', i ≤ m ∧ I m s' l' ∧ H.Enters t body m n s' l' ∧
      H.Finishes t (n + 1) ((body s').start l') j r' ∧ onward body r' = .pure r := by
  obtain ⟨m, s', l', him, hm, ⟨-, -, -, heq⟩ | ⟨n, hentered, ⟨d, hgoing, -, heq⟩ |
    ⟨m', r', hfinishes, hm'j, hthere, heq, hdone⟩⟩⟩ := Course.of_loop hround hI h.course
  · cases heq
  · have hgoes := Process.isDone_bind hgoing (onward body)
    rw [← heq] at hgoes
    cases hgoes
  · rcases hm'j.lt_or_eq with hlt | rfl
    · cases h.first m' _ hlt hthere
    · exact ⟨m, n, s', l', r', him, hm, hentered, hfinishes, heq.symm⟩

end Loops

end History

end CanScript
