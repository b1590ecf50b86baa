import CanScript.Task.Request

/-! # Processes

    A process is what a task still has to do: nothing more, a request followed by what the reply
    leads to, or a loop.  Between two requests a process only computes, so whoever answers the
    requests decides all that happens between tasks.  A loop is a node of its own, unfolded one
    round at a time; all else is a well-founded tree. -/

namespace CanScript

/-- A computation that makes requests and yields a value. -/
inductive Process : Type → Type 1 where
  | pure {α : Type} (a : α) : Process α
  | act {α : Type} (op : Request) (next : op.Reply → Process α) : Process α
  | iter {α σ β : Type} (body : σ → Process (σ ⊕ β)) (s : σ) (next : β → Process α) :
    Process α

namespace Process

variable {α β σ : Type}

def bind : Process α → (α → Process β) → Process β
  | pure a, f => f a
  | act op next, f => act op fun r => (next r).bind f
  | iter body s next, f => iter body s fun b => (next b).bind f

instance : Monad Process where
  pure := pure
  bind := bind

def ask (op : Request) : Process op.Reply :=
  act op pure

def loop (body : σ → Process (σ ⊕ β)) (s : σ) : Process β :=
  iter body s pure

def unfold (body : σ → Process (σ ⊕ β)) (s : σ) (next : β → Process α) : Process α :=
  (body s).bind fun
    | .inl s => iter body s next
    | .inr b => next b

def request? : Process α → Option Request
  | act op _ => some op
  | _ => none

@[simp] theorem pure_bind (a : α) (f : α → Process β) : (pure a).bind f = f a := rfl

@[simp] theorem act_bind (op : Request) (next : op.Reply → Process α) (f : α → Process β) :
    (act op next).bind f = act op fun r => (next r).bind f := rfl

@[simp] theorem bind_pure (p : Process α) : p.bind pure = p := by
  induction p with
  | pure a => rfl
  | act op next ih =>
    show act op (fun r => (next r).bind pure) = act op next
    rw [funext ih]
  | iter body s next _ ih =>
    show iter body s (fun b => (next b).bind pure) = iter body s next
    rw [funext ih]

theorem bind_assoc {γ : Type} (p : Process α) (f : α → Process β) (g : β → Process γ) :
    (p.bind f).bind g = p.bind fun a => (f a).bind g := by
  induction p with
  | pure a => rfl
  | act op next ih =>
    show act op (fun r => ((next r).bind f).bind g) = act op _
    rw [funext fun r => ih r f]
  | iter body s next _ ih =>
    show iter body s (fun b => ((next b).bind f).bind g) = iter body s _
    rw [funext fun b => ih b f]

instance : LawfulMonad Process :=
  LawfulMonad.mk' Process bind_pure (fun _ _ => rfl) bind_assoc

end Process

end CanScript
