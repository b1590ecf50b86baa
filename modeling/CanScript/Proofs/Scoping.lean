import CanScript.Proofs.Shape

/-! # Functions and the scopes of their callers

    A function sees its own scopes and the global variables, and nothing of the local scopes of its
    caller.  So two callers whose local scopes differ get the same result and the same effects from
    a call, and both find their scopes as they were. -/

namespace CanScript

open Scopes Array

/-! ## Scopes on top of others -/

def Scope.raise (height : Nat) (s : Scope) : Scope :=
  { s with parent := s.parent.map (height + ·) }

namespace Scopes

def above (base own : Scopes) : Scopes :=
  base ++ own.map (Scope.raise base.size)

/-- Each scope has an earlier one as its parent, or none. -/
def Nested (own : Scopes) : Prop :=
  ∀ (k : Nat) (scope : Scope) (parent : Nat), own[k]? = some scope →
    scope.parent = some parent → parent < k

/-- A scope is among the given ones, or it is the global one. -/
def Own (own : Scopes) (scope : Option ScopeId) : Prop :=
  ∀ k : Nat, scope = some k → k < own.size

lemma nested_empty : Nested #[] := by
  intro k scope parent hk
  simp at hk

variable {base own : Scopes} {scope : Option ScopeId}

@[simp] lemma above_empty (base) : above base #[] = base := by
  simp [above]

@[simp] lemma above_size (base own) : (above base own).size = base.size + own.size := by
  simp [above]

lemma above_getElem? (base own k) :
    (above base own)[base.size + k]? = own[k]?.map (Scope.raise base.size) := by
  rw [above, getElem?_append_right (Nat.le_add_right _ _), Nat.add_sub_cancel_left,
    getElem?_map]

lemma above_getElem?_below {i} (h : i < base.size) (own) : (above base own)[i]? = base[i]? :=
  getElem?_append_left h

lemma eq_above {scopes} (hbelow : ∀ i, i < base.size → scopes[i]? = base[i]?)
    (hown : ∀ k, scopes[base.size + k]? = own[k]?.map (Scope.raise base.size)) :
    scopes = above base own := by
  refine ext_getElem? fun i => ?_
  rcases Nat.lt_or_ge i base.size with hi | hi
  · rw [hbelow i hi, above_getElem?_below hi]
  · obtain ⟨k, rfl⟩ := Nat.exists_eq_add_of_le hi
    rw [hown, above_getElem?]

lemma above_openScope (base own parent) : (above base own).openScope (parent.map (base.size + ·))
      = above base (own.openScope parent) := by
  rw [openScope, openScope, above, above, map_push, append_push]
  rfl

lemma above_close (base own k) :
    (above base own).close (base.size + k) = above base (own.close k) := by
  refine eq_above (fun i hi => ?_) fun j => ?_
  · rw [close, take_eq_extract, getElem?_extract, Nat.zero_add,
      above_getElem?_below hi, if_pos]
    rw [above_size]
    omega
  · rw [close, close, take_eq_extract, take_eq_extract, getElem?_extract,
      getElem?_extract, Nat.zero_add, Nat.zero_add, above_getElem?, above_size]
    by_cases hj : j < min k own.size
    · rw [if_pos (by omega), if_pos (by omega)]
    · rw [if_neg (by omega), if_neg (by omega)]
      rfl

lemma above_bind (base own) (k : Nat) (name v) :
    (above base own).bind (base.size + k) name v = above base (own.bind k name v) := by
  refine eq_above (fun i hi => ?_) fun j => ?_
  · rw [bind, getElem?_modify, if_neg (by omega), above_getElem?_below hi]
  · rw [bind, bind, getElem?_modify, getElem?_modify, above_getElem?]
    by_cases hj : k = j
    · rw [if_pos (by omega), if_pos hj, Option.map_map, Option.map_map]
      rfl
    · rw [if_neg (by omega), if_neg hj]

lemma Nested.bind (h : Nested own) (k name v) : Nested (own.bind k name v) := by
  intro i scope parent hi hparent
  rw [Scopes.bind, getElem?_modify] at hi
  split at hi
  · obtain ⟨old, hold, rfl⟩ := Option.map_eq_some_iff.mp hi
    exact h i old parent hold hparent
  · exact h i scope parent hi hparent

lemma Nested.openScope (h : Nested own) {parent}
    (hparent : Own own parent) : Nested (own.openScope parent) := by
  intro i scope id hi hid
  rw [Scopes.openScope, getElem?_push] at hi
  split at hi
  · next heq =>
      cases hi
      rw [heq]
      exact hparent id hid
  · exact h i scope id hi hid

lemma Nested.close (h : Nested own) (k) : Nested (own.close k) := by
  intro i scope parent hi hparent
  rw [Scopes.close, take_eq_extract, getElem?_extract, Nat.zero_add] at hi
  split at hi
  · exact h i scope parent hi hparent
  · cases hi

lemma Nested.assign? (h : Nested own) {name v globals}
    {changed} (hassign : own.assign? scope name v globals = some changed) :
    changed.1.size = own.size ∧ Nested changed.1 := by
  rw [Scopes.assign?] at hassign
  split at hassign
  · cases hassign
    exact ⟨size_modify .., h.bind _ name v⟩
  · split at hassign
    · cases hassign
      exact ⟨rfl, h⟩
    · cases hassign
  · cases hassign

def raisePlace (height : Nat) : Place → Place
  | .inner id => .inner (height + id)
  | .global => .global

/-- From a scope on top of others a name leads nowhere below it. -/
lemma above_resolveFrom? (h : Nested own) (name) {budget budget'}
    (hbudget : ∀ k : Nat, scope = some k → k < budget ∧ k < budget') :
    (above base own).resolveFrom? name budget (scope.map (base.size + ·))
      = (own.resolveFrom? name budget' scope).map (raisePlace base.size) := by
  induction budget generalizing budget' scope with
  | zero =>
    cases scope with
    | none =>
      cases budget' <;> rfl
    | some k => exact absurd (hbudget k rfl).1 (Nat.not_lt_zero k)
  | succ budget ih =>
    cases scope with
    | none =>
      cases budget' <;> rfl
    | some k =>
      obtain ⟨hk, hk'⟩ := hbudget k rfl
      cases budget' with
      | zero => exact absurd hk' (Nat.not_lt_zero k)
      | succ budget' =>
        rw [Option.map_some, resolveFrom?, resolveFrom?, above_getElem?]
        cases hfound : own[k]? with
        | none => rfl
        | some found =>
          dsimp only [Option.map_some, Scope.raise]
          by_cases hbound : found.bindings.contains name
          · rw [if_pos hbound, if_pos hbound]
            rfl
          · rw [if_neg hbound, if_neg hbound]
            refine ih fun parent hparent => ?_
            have hlt := h k found parent hfound hparent
            exact ⟨by omega, by omega⟩

lemma above_resolve? (h : Nested own) (hscope : Own own scope) (name) :
    (above base own).resolve? (scope.map (base.size + ·)) name
      = (own.resolve? scope name).map (raisePlace base.size) := by
  refine above_resolveFrom? h name fun k hk => ?_
  have hlt := hscope k hk
  rw [above_size]
  exact ⟨by omega, hlt⟩

lemma above_lookup? (h : Nested own) (hscope : Own own scope) (name globals) :
    (above base own).lookup? (scope.map (base.size + ·)) name globals
      = own.lookup? scope name globals := by
  rw [lookup?, lookup?, above_resolve? h hscope]
  cases own.resolve? scope name with
  | none => rfl
  | some place =>
    cases place with
    | global => rfl
    | inner k =>
      show (above base own)[base.size + k]?.bind _ = own[k]?.bind _
      rw [above_getElem?]
      cases own[k]? with
      | none => rfl
      | some found => rfl

lemma above_define (base own scope name v globals) :
    (above base own).define (scope.map (base.size + ·)) name v globals
      = (above base (own.define scope name v globals).1, (own.define scope name v globals).2) := by
  cases scope with
  | none => rfl
  | some k => exact congrArg (·, globals) (above_bind base own k name v)

lemma above_assign? (h : Nested own) (hscope : Own own scope) (name v globals) :
    (above base own).assign? (scope.map (base.size + ·)) name v globals
      = (own.assign? scope name v globals).map fun changed =>
        (above base changed.1, changed.2) := by
  rw [assign?, assign?, above_resolve? h hscope]
  cases own.resolve? scope name with
  | none => rfl
  | some place =>
    cases place with
    | global =>
      show (if globals.contains name then _ else _) = Option.map _ (if _ then _ else _)
      split <;> rfl
    | inner k => exact congrArg (fun s => some (s, globals)) (above_bind base own k name v)

end Scopes

/-! ## Executions on top of different callers -/

def Local.OnTop (base base' : Scopes) (n : Nat) (l l' : Local) : Prop :=
  ∃ own : Scopes, own.size = n ∧ own.Nested ∧
    l.scopes = base.above own ∧ l'.scopes = base'.above own

variable {l : Local}

namespace Eval

open Process

def onTop (base base' : Scopes) : Comparison :=
  alike (fun n scope scope' => ∃ own : Option ScopeId, (∀ k : Nat, own = some k → k < n) ∧
    scope = own.map (base.size + ·) ∧ scope' = own.map (base'.size + ·))
    fun (_ : Unit) => Local.OnTop base base'

namespace onTop

variable {base base' : Scopes}

lemma corresponds : Corresponds (onTop base base').scopes
    fun (_ : Unit) => Local.OnTop base base' where
  outermost := ⟨none, by simp, rfl, rfl⟩
  counted htop _ _ := htop
  opened {_ n l l' parent parent'} htop hparent := by
    obtain ⟨own, rfl, hnested, hscopes, hscopes'⟩ := htop
    obtain ⟨k, hk, rfl, rfl⟩ := hparent
    have hid : l.scopes.nextId = base.size + own.size := by
      rw [hscopes]
      exact above_size base own
    have hid' : l'.scopes.nextId = base'.size + own.size := by
      rw [hscopes']
      exact above_size base' own
    refine ⟨⟨some own.size, fun k hk => ?_, congrArg some hid, congrArg some hid'⟩, (),
      ⟨own.openScope k, size_push _, hnested.openScope hk, ?_, ?_⟩, fun m m' hm => ?_⟩
    · cases hk
      exact Nat.lt_succ_self _
    · show l.scopes.openScope _ = _
      rw [hscopes, above_openScope]
    · show l'.scopes.openScope _ = _
      rw [hscopes', above_openScope]
    · -- both close all scopes from the one on that they have opened
      obtain ⟨own', hsize, hnested', hown, hown'⟩ := hm
      refine ⟨own'.close own.size, ?_, hnested'.close _, ?_, ?_⟩
      · show (take own' own.size).size = own.size
        rw [take_eq_extract, size_extract]
        omega
      · show m.scopes.close l.scopes.nextId = _
        rw [hown, hid, above_close]
      · show m'.scopes.close l'.scopes.nextId = _
        rw [hown', hid', above_close]
  found {_ n l l' scope scope'} htop hscope name bs := by
    obtain ⟨own, rfl, hnested, hscopes, hscopes'⟩ := htop
    obtain ⟨k, hk, rfl, rfl⟩ := hscope
    rw [hscopes, hscopes', above_lookup? hnested hk, above_lookup? hnested hk]
  defined {_ n l l' scope scope'} htop hscope name v bs := by
    obtain ⟨own, hsize, hnested, hscopes, hscopes'⟩ := htop
    obtain ⟨k, hk, rfl, rfl⟩ := hscope
    rw [hscopes, hscopes', above_define, above_define]
    refine ⟨rfl, _, ?_, ?_, rfl, rfl⟩
    · cases k with
      | none => exact hsize
      | some k => exact (size_modify ..).trans hsize
    · cases k with
      | none => exact hnested
      | some k => exact hnested.bind k name v
  assigned {_ n l l' scope scope'} htop hscope name v bs := by
    obtain ⟨own, rfl, hnested, hscopes, hscopes'⟩ := htop
    obtain ⟨k, hk, rfl, rfl⟩ := hscope
    rw [hscopes, hscopes', above_assign? hnested hk, above_assign? hnested hk]
    cases hassign : own.assign? k name v bs with
    | none => exact .none
    | some changed =>
      obtain ⟨hsize, hkeeps⟩ := hnested.assign? hassign
      exact .some ⟨rfl, _, hsize, hkeeps, rfl, rfl⟩

lemma calls (s) : Calls s (fun _ => True) (onTop base base') where
  toExecutes := corresponds.executes s _
  deeper h k l l' htop := (h k { l with callDepth := l.callDepth + 1 }
    { l' with callDepth := l'.callDepth + 1 } htop).bind fun _ _ hr => .pure hr

end onTop

end Eval

/-! ## Calls -/

open Eval

/-- An execution of a task that is alone leaves a bench, with a result, or waiting when the world
    has come to rest. -/
def Eval.Leaves {α : Type} (x : Eval α) (t : TaskId) (world : List (Bench → Bench)) (b : Bench)
    (l : Local) (b' : Bench) (result : Option (Except Interrupt α)) : Prop :=
  ∃ n ending, Process.Alone t n world b (x.start l) b' ending ∧ ending.map Prod.fst = result

lemma callFunction_alike (s deeperBy f args pos l l') : Process.Alike false
      (fun r r' => r.1 = r'.1 ∧ Local.OnTop l.scopes l'.scopes 0 r.2 r'.2)
      ((callFunction s deeperBy f args pos).start l)
      ((callFunction s deeperBy f args pos).start l') := by
  refine (onTop.calls s).callFunction (fun _ _ _ _ _ _ => trivial) deeperBy 0
    (fun _ _ => trivial) args pos () l l' ⟨#[], rfl, nested_empty, ?_, ?_⟩
  · exact (above_empty _).symm
  · exact (above_empty _).symm

lemma callFunction_leaves {s deeperBy f args pos t world b b' result}
    (h : (callFunction s deeperBy f args pos).Leaves t world b l b' result) (l') :
    (callFunction s deeperBy f args pos).Leaves t world b l' b' result := by
  obtain ⟨n, ending, halone, rfl⟩ := h
  obtain ⟨m, ending', halone', hends⟩ :=
    (callFunction_alike s deeperBy f args pos l l').alone (by simp) halone
  refine ⟨m, ending', halone', ?_⟩
  cases hends with
  | some hr => exact congrArg some hr.1.symm
  | none => rfl

/-- A call of a function by a task that is alone gives the same result, fails or waits in the same
    way, and leaves the same bench, whatever local scopes the caller has.  The caller finds its
    scopes as they were, however the call ends. -/
theorem call_lexically_scoped (s : Setting) (deeperBy : Nat) (f : Function) (args : List Value)
    (pos : Pos) (t : TaskId) (world : List (Bench → Bench)) (b b' : Bench) (l l' : Local) :
    (∀ result, (callFunction s deeperBy f args pos).Leaves t world b l b' result ↔
      (callFunction s deeperBy f args pos).Leaves t world b l' b' result) ∧
    ∀ n result last, Process.Alone t n world b ((callFunction s deeperBy f args pos).start l) b'
        (some (result, last)) →
      last.scopes = l.scopes ∧ last.callDepth = l.callDepth := by
  refine ⟨fun result => ⟨fun h => callFunction_leaves h l', fun h => callFunction_leaves h l⟩, ?_⟩
  intro n result last halone
  obtain ⟨_, _, -, hends⟩ := (callFunction_alike s deeperBy f args pos l l).alone (by simp) halone
  obtain ⟨_, _, -, hshapes⟩ := ((inShape.calls s).callFunction (fun _ _ _ _ _ _ => trivial)
    deeperBy 0 (fun _ _ => trivial) args pos l.shape l l ⟨rfl, rfl, rfl, trivial⟩).alone (by simp)
    halone
  cases hends with
  | some hr =>
    cases hshapes with
    | some hshape =>
      obtain ⟨own, hsize, -, hscopes, -⟩ := hr.2
      rw [Array.eq_empty_of_size_eq_zero hsize, Scopes.above_empty] at hscopes
      exact ⟨hscopes, congrArg Prod.snd hshape.2.shape⟩

end CanScript
