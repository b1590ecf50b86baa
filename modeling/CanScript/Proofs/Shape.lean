import CanScript.Proofs.Alike
import CanScript.Proofs.Conduct

/-! # The shape of the scopes of a task

    Scopes are opened for blocks, rounds of loops, calls and tested frames, and a call counts as one
    deeper.  Each of these is undone however it ends, so an execution leaves the scopes of the task
    in the shape in which it found them. -/

namespace CanScript

open Eval

/-! ## Own states that correspond -/

namespace Eval

open Process

def passOn (yieldEvery : Nat) : Eval Unit := do
  if ← countStatement yieldEvery then
    release
    ask .yield
  acquire

section PassOn

variable {yieldEvery : Nat} {l : Local}

lemma passOn_due (h : max yieldEvery 1 ≤ l.sinceYield + 1) :
    (passOn yieldEvery).start l = .act .release fun _ => .act .yield fun _ =>
      .act .acquire fun going => (orStopped going).start { l with sinceYield := 0 } := by
  have hcount : countStatement yieldEvery l = Process.pure (.ok true, { l with sinceYield := 0 }) :=
    if_pos h
  show Process.bind (countStatement yieldEvery l) _ = _
  rw [hcount]
  rfl

lemma passOn_undue (h : ¬ max yieldEvery 1 ≤ l.sinceYield + 1) :
    (passOn yieldEvery).start l = .act .acquire fun going =>
      (orStopped going).start { l with sinceYield := l.sinceYield + 1 } := by
  have hcount : countStatement yieldEvery l
      = Process.pure (.ok false, { l with sinceYield := l.sinceYield + 1 }) := if_neg h
  show Process.bind (countStatement yieldEvery l) _ = _
  rw [hcount]
  rfl

end PassOn

variable {τ : Type} {scopes : Nat → Option ScopeId → Option ScopeId → Prop}
  {J : τ → Nat → Local → Local → Prop}

def alike (scopes : Nat → Option ScopeId → Option ScopeId → Prop)
    (J : τ → Nat → Local → Local → Prop) : Comparison where
  scopes := scopes
  evals n _ x y := ∀ k l l', J k n l l' →
    Alike false (fun r r' => r.1 = r'.1 ∧ J k n r.2 r'.2) (x.start l) (y.start l')

/-- Names mean the same in own states that correspond, and what is done to their scopes keeps them
    so. -/
structure Corresponds (scopes : Nat → Option ScopeId → Option ScopeId → Prop)
    (J : τ → Nat → Local → Local → Prop) : Prop where
  outermost : ∀ {n}, scopes n none none
  opened : ∀ {k n l l' parent parent'}, J k n l l' → scopes n parent parent' →
    scopes (n + 1) (some l.scopes.nextId) (some l'.scopes.nextId) ∧ ∃ inner,
      J inner (n + 1) { l with scopes := l.scopes.openScope parent }
        { l' with scopes := l'.scopes.openScope parent' } ∧
      ∀ m m', J inner (n + 1) m m' → J k n { m with scopes := m.scopes.close l.scopes.nextId }
        { m' with scopes := m'.scopes.close l'.scopes.nextId }
  found : ∀ {k n l l' scope scope'}, J k n l l' → scopes n scope scope' → ∀ name bs,
      l.scopes.lookup? scope name bs = l'.scopes.lookup? scope' name bs
  defined : ∀ {k n l l' scope scope'}, J k n l l' → scopes n scope scope' → ∀ name v bs,
      (l.scopes.define scope name v bs).2 = (l'.scopes.define scope' name v bs).2 ∧
      J k n { l with scopes := (l.scopes.define scope name v bs).1 }
        { l' with scopes := (l'.scopes.define scope' name v bs).1 }
  assigned : ∀ {k n l l' scope scope'}, J k n l l' → scopes n scope scope' → ∀ name v bs,
      Option.Rel (fun changed changed' => changed.2 = changed'.2 ∧
        J k n { l with scopes := changed.1 } { l' with scopes := changed'.1 })
      (l.scopes.assign? scope name v bs) (l'.scopes.assign? scope' name v bs)
  counted : ∀ {k n l l'}, J k n l l' → ∀ c c',
    J k n { l with sinceYield := c } { l' with sinceYield := c' }

namespace Corresponds

variable {n : Nat} {α : Type} {k : τ} {l l' : Local} (h : Corresponds scopes J)

include h

lemma inScope {parent parent'} {body body' : ScopeId → Eval α}
    (hparent : scopes n parent parent') (hbody : ∀ id id', scopes (n + 1) (some id) (some id') →
      (alike scopes J).evals (n + 1) (body id) (body' id')) :
    (alike scopes J).evals n (inScope parent body) (inScope parent' body') := by
  intro k l l' hl
  obtain ⟨hid, inner, hopened, hclosed⟩ := h.opened hl hparent
  exact (hbody _ _ hid _ _ _ hopened).bind fun r r' hr => .pure ⟨hr.1, hclosed _ _ hr.2⟩

lemma orStopped (hl : J k n l l') (c c' going) :
    Alike false (fun r r' => r.1 = r'.1 ∧ J k n r.2 r'.2)
      ((orStopped going).start { l with sinceYield := c })
      ((orStopped going).start { l' with sinceYield := c' }) := by
  cases going with
  | true | false => exact .pure ⟨rfl, h.counted hl c c'⟩

lemma passOn (every every') (hl : J k n l l') :
    Alike true (fun r r' => r.1 = r'.1 ∧ J k n r.2 r'.2) ((passOn every).start l)
      ((passOn every').start l') := by
  by_cases hdue : max every 1 ≤ l.sinceYield + 1
  · rw [passOn_due hdue]
    by_cases hdue' : max every' 1 ≤ l'.sinceYield + 1
    · rw [passOn_due hdue']
      exact .ask fun _ => .ask fun _ => .ask (h.orStopped hl _ _)
    · rw [passOn_undue hdue']
      exact .before (h.orStopped hl _ _)
  · rw [passOn_undue hdue]
    by_cases hdue' : max every' 1 ≤ l'.sinceYield + 1
    · rw [passOn_due hdue']
      exact .after (h.orStopped hl _ _)
    · rw [passOn_undue hdue']
      exact .ask (h.orStopped hl _ _)

/-- It makes no difference after how many statements a checkpoint yields. -/
lemma checkpoint (every every') :
    (alike scopes J).evals n (checkpoint every) (checkpoint every') := by
  intro k l l' hl
  refine .act fun standing => ?_
  cases standing with
  | running => exact h.passOn every every' hl
  | stopped => exact .pure ⟨rfl, hl⟩
  | paused =>
    refine .ask fun _ => .act fun going => ?_
    cases going with
    | true => exact h.passOn every every' hl
    | false => exact .pure ⟨rfl, hl⟩

omit h in
lemma store {own own' bs bs'} (hbs : bs = bs')
    (hl : J k n { l with scopes := own } { l' with scopes := own' }) :
    Alike false (fun r r' => r.1 = r'.1 ∧ J k n r.2 r'.2) ((store own bs).start l)
      ((store own' bs').start l') := by
  subst hbs
  refine .ask fun going => ?_
  cases going with
  | true | false => exact .pure ⟨rfl, hl⟩

omit h in
lemma asks (op) : (alike scopes J).Asks True op :=
  fun _ _ _ _ hf k l l' hl => .ask fun reply => hf reply (fun _ => trivial) k l l' hl

lemma uniform : Uniform True (alike scopes J) where
  pure _ _ _ _ hl := .pure ⟨rfl, hl⟩
  throw _ _ _ _ _ hl := .pure ⟨rfl, hl⟩
  ask op _ := asks op
  outermost := h.outermost
  inScope := h.inScope
  checkpoint every := h.checkpoint every every
  bind {n α β x y f g} hx hf := by
    intro k l l' hl
    refine (hx k l l' hl).bind fun r r' hr => ?_
    obtain ⟨result, l1⟩ := r
    obtain ⟨result', l1'⟩ := r'
    obtain ⟨rfl, hl1⟩ := hr
    cases result with
    | ok a => exact hf a k l1 l1' hl1
    | error e => exact .pure ⟨rfl, hl1⟩
  attempt {n α x y} hx := by
    intro k l l' hl
    refine (hx k l l' hl).bind fun r r' hr => ?_
    obtain ⟨result, l1⟩ := r
    obtain ⟨result', l1'⟩ := r'
    obtain ⟨rfl, hl1⟩ := hr
    cases result with
    | ok a => exact .pure ⟨rfl, hl1⟩
    | error e =>
      cases e with
      | error d | stopped => exact .pure ⟨rfl, hl1⟩
  lookup {n scope scope'} name hscope := asks .globals fun found _ k l l' hl => by
    cases found with
    | none => exact .pure ⟨rfl, hl⟩
    | some bs => exact .pure ⟨congrArg Except.ok (h.found hl hscope name bs), hl⟩

omit h in
lemma loop {σ β : Type} {body body' : σ → Eval (σ ⊕ β)}
    (hbody : ∀ s, (alike scopes J).evals n (body s) (body' s)) (s) :
    (alike scopes J).evals n (loop body s) (loop body' s) := by
  intro k l l' hl
  -- the state of a round: what is carried, and own states that correspond
  refine Alike.loop (S := fun p p' => p.1 = p'.1 ∧ J k n p.2 p'.2) (fun p p' hp => ?_) ⟨rfl, hl⟩
  obtain ⟨s, l1⟩ := p
  obtain ⟨s', l1'⟩ := p'
  obtain ⟨rfl, hl1⟩ := hp
  refine (hbody s k l1 l1' hl1).bind fun r r' hr => ?_
  obtain ⟨result, l2⟩ := r
  obtain ⟨result', l2'⟩ := r'
  obtain ⟨rfl, hl2⟩ := hr
  cases result with
  | error e => exact .pure (.inr ⟨rfl, hl2⟩)
  | ok outcome =>
    cases outcome with
    | inl s => exact .pure (.inl ⟨rfl, hl2⟩)
    | inr b => exact .pure (.inr ⟨rfl, hl2⟩)

lemma define {scope scope'} (name v) (hscope : scopes n scope scope') :
    (alike scopes J).evals n (define scope name v) (define scope' name v) := by
  refine asks .globals fun found _ k l l' hl => ?_
  cases found with
  | none => exact .pure ⟨rfl, hl⟩
  | some bs =>
    obtain ⟨hbs, hl'⟩ := h.defined hl hscope name v bs
    exact store hbs hl'

lemma assign {scope scope'} (name v) (hscope : scopes n scope scope') :
    (alike scopes J).evals n (assign scope name v) (assign scope' name v) := by
  refine asks .globals fun found _ k l l' hl => ?_
  cases found with
  | none => exact .pure ⟨rfl, hl⟩
  | some bs =>
    show Alike false _
      ((storeAssigned l.scopes name v bs (l.scopes.assign? scope name v bs)).start l)
      ((storeAssigned l'.scopes name v bs (l'.scopes.assign? scope' name v bs)).start l')
    have hchanged := h.assigned hl hscope name v bs
    generalize l.scopes.assign? scope name v bs = changed at hchanged ⊢
    generalize l'.scopes.assign? scope' name v bs = changed' at hchanged ⊢
    cases hchanged with
    | none => exact store rfl hl
    | some hchanged => exact store hchanged.1 hchanged.2

lemma executes (s : Setting) (A) : Executes s A (alike scopes J) :=
  h.uniform.executesAll asks loop h.define h.assign s A

end Corresponds

end Eval

/-! ## The shape -/

namespace Scopes

variable (own : Scopes)

/-- The parents of the open scopes. -/
def parents (own : Scopes) : Array (Option ScopeId) :=
  own.map Scope.parent

lemma parents_bind (id name v) : (own.bind id name v).parents = own.parents := by
  refine Array.ext_getElem? fun k => ?_
  rw [parents, parents, Array.getElem?_map, Array.getElem?_map, bind, Array.getElem?_modify]
  split
  · cases own[k]? <;> rfl
  · rfl

lemma parents_define (scope name v bs) : (own.define scope name v bs).1.parents = own.parents := by
  cases scope with
  | none => rfl
  | some id => exact parents_bind own id name v

lemma parents_assign? {scope name v bs changed} (h : own.assign? scope name v bs = some changed) :
    changed.1.parents = own.parents := by
  rw [assign?] at h
  split at h
  · cases h
    exact parents_bind own _ name v
  · split at h
    · cases h
      rfl
    · cases h
  · cases h

/-- Closing a scope gives the shape from before. -/
lemma parents_close {own own' : Scopes} {parent}
    (h : own'.parents = (own.openScope parent).parents) :
    (own'.close own.nextId).parents = own.parents := by
  rw [parents, close, Array.take_eq_extract, Array.map_extract, ← parents, h]
  simp [parents, openScope, nextId]

end Scopes

def Local.shape (l : Local) : Array (Option ScopeId) × Nat :=
  (l.scopes.parents, l.callDepth)

namespace Eval

open Process

/-- Two tasks have the same scopes, in a shape that is given, and calls are nested as deep as is
    allowed. -/
structure InShape (depths : Nat → Prop) (k : Array (Option ScopeId) × Nat) (_ : Nat)
    (l l' : Local) : Prop where
  scopes : l.scopes = l'.scopes
  shape : l.shape = k
  shape' : l'.shape = k
  depth : depths k.2

/-- Executions from one shape are alike and leave that shape. -/
def inShape (depths : Nat → Prop) : Comparison :=
  alike (fun _ scope scope' => scope = scope') (InShape depths)

namespace inShape

variable {depths : Nat → Prop} {k : Array (Option ScopeId) × Nat} {n : Nat} {l l' : Local}
  (s : Setting)

lemma keep (h : InShape depths k n l l') {own : Scopes} (hown : own.parents = l.scopes.parents) :
    InShape depths k n { l with scopes := own } { l' with scopes := own } where
  scopes := rfl
  shape := (congrArg (·, l.callDepth) hown).trans h.shape
  shape' := (congrArg (·, l'.callDepth) (hown.trans (congrArg _ h.scopes))).trans h.shape'
  depth := h.depth

lemma corresponds : Corresponds (fun _ scope scope' => scope = scope') (InShape depths) where
  outermost := rfl
  counted h _ _ := ⟨h.scopes, h.shape, h.shape', h.depth⟩
  opened {k n l l' parent parent'} h hparent := by
    subst hparent
    obtain ⟨hscopes, rfl, hshape', hdepth⟩ := h
    rw [← hscopes]
    refine ⟨rfl, ((l.scopes.openScope parent).parents, l.callDepth), ⟨rfl, rfl, ?_, hdepth⟩,
      fun m m' hm => ?_⟩
    · exact congrArg (_, ·) (congrArg Prod.snd hshape')
    · have hclosed : (m.scopes.close l.scopes.nextId).parents = l.scopes.parents :=
        Scopes.parents_close (congrArg Prod.fst hm.shape)
      rw [← hm.scopes]
      exact ⟨rfl, Prod.ext hclosed (congrArg Prod.snd hm.shape :),
        Prod.ext hclosed (congrArg Prod.snd hm.shape' :), hdepth⟩
  found {k n l l' scope scope'} h hscope name bs := by
    rw [h.scopes, hscope]
  defined {k n l l' scope scope'} h hscope name v bs := by
    rw [← h.scopes, hscope]
    exact ⟨rfl, keep h (Scopes.parents_define l.scopes scope' name v bs)⟩
  assigned {k n l l' scope scope'} h hscope name v bs := by
    rw [← h.scopes, hscope]
    cases hassign : l.scopes.assign? scope' name v bs with
    | none => exact .none
    | some changed => exact .some ⟨rfl, keep h (Scopes.parents_assign? l.scopes hassign)⟩

lemma executes : Executes s (fun _ => True) (inShape depths) :=
  corresponds.executes s _

lemma deeper {depths'} (hdepths : ∀ d, depths d → depths' (d + 1)) {α : Type} {x y : Eval α}
    (h : (inShape depths').evals n x y) : (inShape depths).evals n (deeper x) (deeper y) := by
  intro k l l' hl
  obtain ⟨hscopes, rfl, hshape', hd⟩ := hl
  have hdepth : l'.callDepth = l.callDepth := congrArg Prod.snd hshape'
  refine (h (l.scopes.parents, l.callDepth + 1) { l with callDepth := l.callDepth + 1 }
    { l' with callDepth := l'.callDepth + 1 } ⟨hscopes, rfl, ?_, hdepths _ hd⟩).bind
    fun r r' hr => .pure ⟨hr.1, hr.2.scopes, ?_, ?_, hd⟩
  · exact Prod.ext (congrArg Prod.fst hshape' :) (congrArg (· + 1) hdepth)
  · exact Prod.ext (congrArg Prod.fst hr.2.shape :) (congrArg (·.2 - 1) hr.2.shape)
  · exact Prod.ext (congrArg Prod.fst hr.2.shape' :) (congrArg (·.2 - 1) hr.2.shape')

lemma calls : Calls s (fun _ => True) (inShape fun _ => True) where
  toExecutes := executes s
  deeper := deeper fun _ _ => trivial

end inShape

end Eval

/-! ## Outcomes -/

namespace Process

variable {α α' : Type} {R : α → α' → Prop} {going : Bool} {p : Process α} {q : Process α'}

/-- What one of two that are alike ends with has its like. -/
lemma Alike.ends (h : Alike going R p q) {n a} (hend : EndsIn n p a) : ∃ a', R a a' := by
  -- on the number of steps, since a loop is no smaller after a round
  induction n using Nat.strongRecOn generalizing going p q with
  | ind n ih =>
    cases h with
    | pure hr =>
      cases hend
      exact ⟨_, hr⟩
    | act hnext =>
      cases hend with
      | act reply hend => exact ih _ (Nat.lt_succ_self _) (hnext reply) hend
    | iter S B hbody hs hnext =>
      cases hend with
      | iter hend => exact ih _ (Nat.lt_succ_self _) (.unfold hbody hs hnext) hend
    | before hnext =>
      cases hend with
      | act _ hend =>
        cases hend with
        | act _ hend =>
          cases hend with
          | act reply hend => exact ih _ (by omega) (hnext reply) hend
    | after hnext =>
      cases hend with
      | act reply hend => exact ih _ (Nat.lt_succ_self _) (hnext reply) hend

end Process

def Eval.Restores {α : Type} (x : Eval α) : Prop :=
  ∀ l r l', Process.CanEnd (x.start l) (r, l') →
    l'.scopes.parents = l.scopes.parents ∧ l'.callDepth = l.callDepth

/-- An execution that is like another keeps the shape of the scopes. -/
lemma Eval.inShape.restores {α : Type} {n} {x y : Eval α}
    (h : (inShape fun _ => True).evals n x y) : x.Restores := by
  rintro l r l' ⟨m, hend⟩
  obtain ⟨_, -, -, hshape, -⟩ := (h l.shape l l ⟨rfl, rfl, rfl, trivial⟩).ends hend
  exact ⟨congrArg Prod.fst hshape, congrArg Prod.snd hshape⟩

end CanScript
