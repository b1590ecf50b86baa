import CanScript.Proofs.History
import CanScript.Proofs.Conduct

/-! # Regimes

    What a task may ask for depends on what it knows: that it has the turn, that the run was told to
    end.  Each reply adds to that knowledge or takes from it.  A regime says how, and a process
    keeps to it if it never asks for anything that is not allowed at that point. -/

namespace CanScript

variable {op : Request}

/-- How a task behaves by what it knows. -/
structure Regime (K : Type) where
  /-- Which requests are allowed. -/
  allows : K → Request → Prop
  /-- What may be known after a reply. -/
  after : K → (op : Request) → op.Reply → K → Prop

namespace Regime

open Process

variable {K α β σ : Type} {R : Regime K} {Q : K → α → Prop} {k : K}

def KeepsFor (R : Regime K) (Q : K → α → Prop) : Nat → K → Process α → Prop
  | 0, _, _ => True
  | _ + 1, k, .pure a => Q k a
  | n + 1, k, .act op next =>
    R.allows k op ∧ ∀ reply k', R.after k op reply k' → KeepsFor R Q n k' (next reply)
  | n + 1, k, .iter body s next => KeepsFor R Q n k (unfold body s next)

def Keeps (R : Regime K) (Q : K → α → Prop) (k : K) (p : Process α) : Prop :=
  ∀ n, R.KeepsFor Q n k p

variable {p : Process α} {f : α → Process β}

lemma KeepsFor.bind {Q' n} (hp : R.KeepsFor Q n k p)
    (hf : ∀ m, m ≤ n → ∀ k a, Q k a → R.KeepsFor Q' m k (f a)) : R.KeepsFor Q' n k (p.bind f) := by
  induction n generalizing k p with
  | zero => trivial
  | succ n ih =>
    have hrest := fun m (hm : m ≤ n) => hf m hm.step
    cases p with
    | pure a => exact hf (n + 1) le_rfl k a hp
    | act op next => exact ⟨hp.1, fun reply k' hafter => ih (hp.2 reply k' hafter) hrest⟩
    | iter body s next =>
      have hround := ih (p := unfold body s next) hp hrest
      rw [unfold_bind] at hround
      exact hround

namespace Keeps

lemma pure {a} (h : Q k a) : R.Keeps Q k (.pure a) := by
  intro n
  cases n with
  | zero => trivial
  | succ n => exact h

lemma act {next : op.Reply → Process α} (hop : R.allows k op)
    (hnext : ∀ reply k', R.after k op reply k' → R.Keeps Q k' (next reply)) :
    R.Keeps Q k (.act op next) := by
  intro n
  cases n with
  | zero => trivial
  | succ n => exact ⟨hop, fun reply k' hafter => hnext reply k' hafter n⟩

lemma bind {Q'} (hp : R.Keeps Q k p) (hf : ∀ k a, Q k a → R.Keeps Q' k (f a)) :
    R.Keeps Q' k (p.bind f) :=
  fun n => (hp n).bind fun m _ k a ha => hf k a ha m

lemma loop {I : K → σ → Prop} {Q} {body : σ → Process (σ ⊕ β)}
    (hbody : ∀ k s, I k s → R.Keeps (fun k => Sum.elim (I k) (Q k)) k (body s)) {s} (hs : I k s) :
    R.Keeps Q k (Process.loop body s) := by
  intro n
  -- on the number of moves, of which each round takes some
  induction n using Nat.strongRecOn generalizing k s with
  | ind n ih =>
    cases n with
    | zero => trivial
    | succ n =>
      refine (hbody k s hs n).bind fun m hm k' outcome houtcome => ?_
      cases outcome with
      | inl s' => exact ih m (Nat.lt_succ_of_le hm) houtcome
      | inr b =>
        have hend : R.Keeps Q k' (.pure b) := Keeps.pure houtcome
        exact hend m

lemma mono {Q'} (h : R.Keeps Q k p) (himp : ∀ k a, Q k a → Q' k a) : R.Keeps Q' k p := by
  have hbind := h.bind fun k a ha => Keeps.pure (R := R) (himp k a ha)
  rwa [bind_pure] at hbind

lemma of_pure {a} (h : R.Keeps Q k (.pure a)) : Q k a :=
  h 1

lemma of_bind {Q'} (h : R.Keeps Q' k (p.bind f)) : R.Keeps (fun k a => R.Keeps Q' k (f a)) k p := by
  intro n
  induction n generalizing k p with
  | zero => trivial
  | succ n ih =>
    cases p with
    | pure a => exact h
    | act op next =>
      exact ⟨(h 1).1, fun reply k' hafter => ih fun m => (h (m + 1)).2 reply k' hafter⟩
    | iter body s next =>
      refine ih (p := unfold body s next) ?_
      rw [unfold_bind]
      exact fun m => h (m + 1)

lemma of_act {next : op.Reply → Process α} (h : R.Keeps Q k (.act op next)) :
    R.allows k op ∧ ∀ reply k', R.after k op reply k' → R.Keeps Q k' (next reply) :=
  ⟨(h 1).1, fun reply k' hafter n => (h (n + 1)).2 reply k' hafter⟩

lemma of_iter {body : σ → Process (σ ⊕ β)} {s next} (h : R.Keeps Q k (.iter body s next)) :
    R.Keeps Q k (unfold body s next) :=
  fun n => h (n + 1)

end Keeps

/-! ## What is true of the bench -/

/-- What a task knows is true of the bench, and what it learns from a reply is, too. -/
structure Describes (R : Regime K) (fits : K → TaskId → Bench → Prop) : Prop where
  answered : ∀ {k t b b' op reply}, fits k t b →
    R.allows k op → (b.perform t op).answer? = some (b', reply) →
    ∃ k', R.after k op reply k' ∧ fits k' t b'
  waits : ∀ {k t b op}, fits k t b →
    (b.perform t op).answer? = none → fits k t (b.perform t op).bench

variable {fits : K → TaskId → Bench → Prop}

lemma Describes.move (h : R.Describes fits) {t b} (hfits : fits k t b)
    (hp : R.Keeps Q k p) : ∃ k', fits k' t (b.after t p) ∧ R.Keeps Q k' (p.step b t) := by
  cases p with
  | pure a => exact ⟨k, hfits, hp⟩
  | iter body s next => exact ⟨k, hfits, hp.of_iter⟩
  | act op next =>
    obtain ⟨hop, hnext⟩ := hp.of_act
    cases hanswer : (b.perform t op).answer? with
    | none =>
      rw [step_of_wait hanswer]
      exact ⟨k, h.waits hfits hanswer, hp⟩
    | some answer =>
      obtain ⟨k', hafter, hfits'⟩ := h.answered hfits hop hanswer
      rw [step_of_answer hanswer]
      refine ⟨k', ?_, hnext _ k' hafter⟩
      rw [Bench.after, Outcome.bench_of_answer hanswer]
      exact hfits'

end Regime

lemma History.Along.keeps {H : History} {K α : Type} {R : Regime K} {fits} (hR : R.Describes fits)
    {Q k t i j c d} (h : H.Along t i c j d) {rest : α → Process Unit} (hi : H.Has t i (c.bind rest))
    (hothers : ∀ m, i ≤ m → m < j → H.mover m ≠ some t → ∀ k, fits k t (H.bench m) →
      fits k t (H.bench (m + 1))) (hfits : fits k t (H.bench i)) (hc : R.Keeps Q k c) :
    ∃ k', fits k' t (H.bench j) ∧ R.Keeps Q k' d := by
  induction h with
  | start => exact ⟨k, hfits, hc⟩
  | @stay j d hd hmover ih =>
    obtain ⟨k', hfits', hkeeps⟩ := ih fun m him hmj => hothers m him (Nat.lt_succ_of_lt hmj)
    exact ⟨k', hothers j hd.le (Nat.lt_succ_self j) hmover k' hfits', hkeeps⟩
  | @move j d hd hmover hgoing ih =>
    obtain ⟨k', hfits', hkeeps⟩ := ih fun m him hmj => hothers m him (Nat.lt_succ_of_lt hmj)
    rw [((hd.has hi).move hmover).1, Bench.after_bind hgoing]
    exact hR.move hfits' hkeeps

/-! ## Executions -/

namespace Eval

open Regime

variable {K α β σ : Type} {R : Regime K} {E : K → Interrupt → Prop} {Q : K → α → Prop} {k : K}

def Leaving (E : K → Interrupt → Prop) (Q : K → α → Prop) (k : K) :
    Except Interrupt α × Local → Prop
  | (.ok a, _) => Q k a
  | (.error e, _) => E k e

/-- How an execution leaves off does not depend on the scopes of the task. -/
lemma Leaving.elsewhere {r} (h : Leaving E Q k r) (l) : Leaving E Q k (r.1, l) := by
  obtain ⟨result, l'⟩ := r
  cases result with
  | ok a | error e => exact h

lemma Leaving.mono {Q' : K → α → Prop} {r} (h : Leaving E Q k r) (himp : ∀ a, Q k a → Q' k a) :
    Leaving E Q' k r := by
  obtain ⟨result, l⟩ := r
  cases result with
  | ok a => exact himp a h
  | error e => exact h

def Under (R : Regime K) (E : K → Interrupt → Prop) (k : K) (x : Eval α) (Q : K → α → Prop) :
    Prop :=
  ∀ l, R.Keeps (Leaving E Q) k (x.start l)

def Attempted (E : K → Interrupt → Prop) (Q : K → α → Prop) (k : K) : Except Diagnostic α → Prop
  | .ok a => Q k a
  | .error d => E k (.error d)

namespace Under

lemma pure {a} (h : Q k a) : Under R E k (pure a : Eval α) Q :=
  fun _ => Keeps.pure h

lemma throw {e} (h : E k e) : Under R E k (throw e : Eval α) Q :=
  fun _ => Keeps.pure h

lemma ask {Q} (hop : R.allows k op) (hreply : ∀ reply k', R.after k op reply k' → Q k' reply) :
    Under R E k (ask op) Q :=
  fun _ => Keeps.act hop fun reply k' hafter => Keeps.pure (hreply reply k' hafter)

variable {x : Eval α}

lemma bind {Q'} {f : α → Eval β} (hx : Under R E k x Q) (hf : ∀ k a, Q k a → Under R E k (f a) Q') :
    Under R E k (x >>= f) Q' := by
  intro l
  refine (hx l).bind fun k' r hr => ?_
  obtain ⟨result, l'⟩ := r
  cases result with
  | ok a => exact hf k' a hr l'
  | error e => exact Keeps.pure hr

lemma askBind {f} (hop : R.allows k op)
    (hf : ∀ reply k', R.after k op reply k' → Under R E k' (f reply) Q) :
    Under R E k (Eval.ask op >>= f) Q :=
  fun l => Keeps.act hop fun reply k' hafter => hf reply k' hafter l

lemma mono {Q'} (h : Under R E k x Q) (himp : ∀ k a, Q k a → Q' k a) : Under R E k x Q' :=
  fun l => (h l).mono fun k _ hr => hr.mono (himp k)

lemma inScope {parent body} (hbody : ∀ id, Under R E k (body id) Q) :
    Under R E k (inScope parent body) Q :=
  fun _ => (hbody _ _).bind fun _ _ hr => Keeps.pure (hr.elsewhere _)

lemma deeper (hx : Under R E k x Q) : Under R E k (deeper x) Q :=
  fun _ => (hx _).bind fun _ _ hr => Keeps.pure (hr.elsewhere _)

lemma attempt {E'} (hx : Under R E k x Q) (hstopped : ∀ k, E k .stopped → E' k .stopped) :
    Under R E' k (attempt x) (Attempted E Q) := by
  intro l
  refine (hx l).bind fun k' r hr => ?_
  obtain ⟨result, l'⟩ := r
  cases result with
  | ok a => exact Keeps.pure hr
  | error e =>
    cases e with
    | error d => exact Keeps.pure hr
    | stopped => exact Keeps.pure (hstopped k' hr)

lemma loop {I : K → σ → Prop} {Q} {body : σ → Eval (σ ⊕ β)}
    (hbody : ∀ k s, I k s → Under R E k (body s) fun k => Sum.elim (I k) (Q k)) {s} (hs : I k s) :
    Under R E k (loop body s) Q := by
  intro l
  refine Keeps.loop (I := fun k (state : σ × Local) => I k state.1) (fun k state hstate => ?_) hs
  refine (hbody k state.1 hstate state.2).bind fun k' r hr => ?_
  obtain ⟨result, l'⟩ := r
  cases result with
  | ok outcome =>
    cases outcome with
    | inl s' | inr b => exact Keeps.pure hr
  | error e => exact Keeps.pure hr

lemma toProcess {Q x} (hx : Under R E k x Q) :
    R.Keeps (fun k _ => Q k () ∨ ∃ e, E k e) k x.toProcess := by
  refine (hx {}).bind fun k' r hr => ?_
  obtain ⟨result, l'⟩ := r
  cases result with
  | ok u => exact Keeps.pure (.inl hr)
  | error e => exact Keeps.pure (.inr ⟨e, hr⟩)

end Under

end Eval

end CanScript
