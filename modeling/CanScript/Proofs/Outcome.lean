import CanScript.Task.Role
import Mathlib.Tactic.Lemma

/-! # Outcomes of processes

    What a process can end with depends on the replies that it gets.  Here nothing is assumed of
    them: an outcome is a value at the end of some way through the tree of requests, with every loop
    unfolded as often as it goes round.  So what holds of all outcomes holds of every execution,
    whatever the other tasks, the clock and the bus do in between.

    Outcomes are counted by steps, because a loop is no smaller after a round but the way that is
    left to go is. -/

namespace CanScript

namespace Process

variable {α β σ : Type}

/-- A process can end with a value after a number of steps. -/
inductive EndsIn : Nat → Process α → α → Prop where
  | pure (a : α) : EndsIn 0 (.pure a) a
  | act {op : Request} {next : op.Reply → Process α} {n a} (reply : op.Reply) :
      EndsIn n (next reply) a → EndsIn (n + 1) (.act op next) a
  | iter {σ β : Type} {body : σ → Process (σ ⊕ β)} {s} {next : β → Process α} {n}
      {a} : EndsIn n (unfold body s next) a → EndsIn (n + 1) (.iter body s next) a

def CanEnd (p : Process α) (a : α) : Prop :=
  ∃ n, EndsIn n p a

lemma unfold_bind {γ : Type} (body) (s : σ) (next : β → Process α) (f : α → Process γ) :
    (unfold body s next).bind f = unfold body s fun b => (next b).bind f := by
  unfold unfold
  rw [bind_assoc]
  congr 1
  funext round
  cases round <;> rfl

/-- A sequence ends after its two parts. -/
lemma EndsIn.of_bind {p} {f : α → Process β} {n b} (h : EndsIn n (p.bind f) b) :
    ∃ a k m, k + m = n ∧ EndsIn k p a ∧ EndsIn m (f a) b := by
  induction n generalizing p with
  | zero =>
    cases p with
    | pure a => exact ⟨a, 0, 0, rfl, .pure a, h⟩
    | act op next => cases h
    | iter body s next => cases h
  | succ n ih =>
    cases p with
    | pure a => exact ⟨a, 0, n + 1, Nat.zero_add _, .pure a, h⟩
    | act op next =>
      cases h with
      | act reply h =>
        obtain ⟨a, k, m, hkm, hfirst, hsecond⟩ := ih h
        exact ⟨a, k + 1, m, by omega, .act reply hfirst, hsecond⟩
    | iter body s next =>
      cases h with
      | iter h =>
        rw [← unfold_bind] at h
        obtain ⟨a, k, m, hkm, hfirst, hsecond⟩ := ih h
        exact ⟨a, k + 1, m, by omega, .iter hfirst, hsecond⟩

/-- A loop ends with what some round of it ends with. -/
lemma EndsIn.of_loop {body : σ → Process (σ ⊕ β)} {s n b}
    (h : EndsIn n (loop body s) b) : ∃ s', CanEnd (body s') (.inr b) := by
  -- on the number of steps: each round takes some of them
  induction n using Nat.strongRecOn generalizing s with
  | ind n ih =>
    cases h with
    | iter h =>
      obtain ⟨round, k, m, hkm, hround, hrest⟩ := EndsIn.of_bind h
      cases round with
      | inl s' => exact ih m (by omega) hrest
      | inr b' =>
        cases hrest
        exact ⟨s, k, hround⟩

end Process

/-! ## What an execution ensures -/

namespace Eval

variable {α β σ : Type} {Q : α → Prop}

/-- Every value with which an execution can end satisfies a predicate, from whatever state of a task
    and with whatever replies. -/
def Ensures (x : Eval α) (Q : α → Prop) : Prop :=
  ∀ l a l', Process.CanEnd (x.start l) (.ok a, l') → Q a

namespace Ensures

variable {x : Eval α} {R : β → Prop}

lemma imp {R} (h : Ensures x Q) (hQR : ∀ a, Q a → R a) : Ensures x R :=
  fun l a l' hend => hQR a (h l a l' hend)

lemma pure {a} (h : Q a) : Ensures (pure a : Eval α) Q := by
  rintro l a' l' ⟨n, hend⟩
  cases hend
  exact h

/-- What the first part ensures is given to the second. -/
lemma bind {f : α → Eval β} (hx : Ensures x Q) (hf : ∀ a, Q a → Ensures (f a) R) :
    Ensures (x >>= f) R := by
  rintro l b l' ⟨n, hend⟩
  obtain ⟨⟨result, l1⟩, k, m, -, hfirst, hsecond⟩ := Process.EndsIn.of_bind hend
  cases result with
  | ok a => exact hf a (hx l a l1 ⟨k, hfirst⟩) l1 b l' ⟨m, hsecond⟩
  | error e => cases hsecond

lemma after {f} (hf : ∀ a, Ensures (f a) R) : Ensures (x >>= f) R :=
  bind (fun _ _ _ _ => True.intro) fun a _ => hf a

lemma ite {c} [Decidable c] {y} (hx : Ensures x Q) (hy : Ensures y Q) :
    Ensures (if c then x else y) Q := by
  split
  · exact hx
  · exact hy

lemma afterIf {c} [Decidable c] {x f} (hf : ∀ u, Ensures (f u) Q) :
    Ensures (if c then x >>= f else f ()) Q :=
  ite (after hf) (hf ())

lemma inScope {parent} {body : ScopeId → Eval α}
    (h : ∀ id, Ensures (body id) Q) : Ensures (inScope parent body) Q := by
  rintro l a l' ⟨n, hend⟩
  obtain ⟨⟨result, l1⟩, k, m, -, hbody, hclose⟩ := Process.EndsIn.of_bind hend
  cases hclose
  exact h _ _ a l1 ⟨k, hbody⟩

/-- A loop ensures what its rounds do when they are the last. -/
lemma loop {body} {s : σ} (h : ∀ s, Ensures (body s) fun round => ∀ b, round = .inr b → R b) :
    Ensures (loop body s) R := by
  rintro l b l' ⟨n, hend⟩
  obtain ⟨⟨s', l1⟩, m, hround⟩ := Process.EndsIn.of_loop hend
  obtain ⟨⟨result, l2⟩, i, j, -, hbody, hlast⟩ := Process.EndsIn.of_bind hround
  match result with
  | .ok (.inl _) => cases hlast
  | .ok (.inr _) =>
    cases hlast
    exact h s' l1 _ _ ⟨i, hbody⟩ b rfl
  | .error _ => cases hlast

end Ensures

end Eval

end CanScript
