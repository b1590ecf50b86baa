import CanScript.Proofs.Additions
import CanScript.Proofs.Alike

/-! # Compound assignments

    An expression that calls no function of the script only reads variables, so it comes to the same
    value before and after another variable is read.  An assignment that combines the old value of a
    variable with such an expression is the same as one that writes the combination out. -/

namespace CanScript

lemma Process.Alone.bind {α β : Type} {t n m} {b b' b'' : Bench} {p a} {f : α → Process β} {result}
    (h : Alone t n [] b p b' (some a)) (hf : Alone t m [] b' (f a) b'' result) :
    ∃ k, Alone t k [] b (p.bind f) b'' result := by
  induction n generalizing b p with
  | zero =>
    cases h
    exact ⟨m, hf⟩
  | succ n ih =>
    cases h with
    | answered hanswer hrest =>
      obtain ⟨k, hk⟩ := ih hrest
      exact ⟨k + 1, .answered hanswer hk⟩
    | rounds hrest =>
      obtain ⟨k, hk⟩ := ih hrest
      rw [unfold_bind] at hk
      exact ⟨k + 1, .rounds hk⟩

namespace Eval

variable {α β : Type} {t : TaskId} {l l' : Local} {b b' b'' : Bench} {x : Eval α} {f : α → Eval β}

/-- An execution of a task that is alone ends without having to wait. -/
def Ends (x : Eval α) (t : TaskId) (l : Local) (b : Bench) (exit : Exit α) (b' : Bench) : Prop :=
  ∃ n, Process.Alone t n [] b (x.start l) b' (some exit)

/-- An execution ends and leaves all names bound as they were. -/
structure Computes (x : Eval α) (t : TaskId) (l : Local) (b : Bench) (r : Except Interrupt α)
    (b' : Bench) : Prop where
  ends : x.Ends t l b (r, l) b'
  globals : b'.globals = b.globals
  turn : b'.turn = b.turn

def Fails (x : Eval α) (t : TaskId) (l : Local) (b : Bench) : Prop :=
  ∃ e b', x.Computes t l b (.error e) b'

/-- Two executions succeed and leave the same state, or both fail and leave all names bound as they
    were. -/
def Agree (x y : Eval α) (t : TaskId) (l : Local) (b : Bench) : Prop :=
  (∃ a l' b', x.Ends t l b (.ok a, l') b' ∧ y.Ends t l b (.ok a, l') b') ∨
    x.Fails t l b ∧ y.Fails t l b

lemma Ends.pure (a : α) : (pure a : Eval α).Ends t l b (.ok a, l) b :=
  ⟨0, .ends _⟩

lemma Ends.bind {a exit} (hx : x.Ends t l b (.ok a, l') b') (hf : (f a).Ends t l' b' exit b'') :
    (x >>= f).Ends t l b exit b'' := by
  obtain ⟨n, hn⟩ := hx
  obtain ⟨m, hm⟩ := hf
  exact hn.bind hm

namespace Computes

lemma pure (a : α) : (pure a : Eval α).Computes t l b (.ok a) b :=
  ⟨.pure a, rfl, rfl⟩

lemma throw (e) : (throw e : Eval α).Computes t l b (.error e) b :=
  ⟨⟨0, .ends _⟩, rfl, rfl⟩

lemma bind {a r} (hx : x.Computes t l b (.ok a) b') (hf : (f a).Computes t l b' r b'') :
    (x >>= f).Computes t l b r b'' :=
  ⟨hx.ends.bind hf.ends, hf.globals.trans hx.globals, hf.turn.trans hx.turn⟩

lemma failing {e} (hx : x.Computes t l b (.error e) b') (f : α → Eval β) :
    (x >>= f).Computes t l b (.error e) b' := by
  obtain ⟨⟨n, hn⟩, hglobals, hturn⟩ := hx
  exact ⟨hn.bind (.ends _), hglobals, hturn⟩

lemma ask {op reply} (h : (b.perform t op).answer? = some (b', reply))
    (hglobals : b'.globals = b.globals) (hturn : b'.turn = b.turn) :
    (ask op).Computes t l b (.ok reply) b' :=
  ⟨⟨_, .answered h (.ends _)⟩, hglobals, hturn⟩

end Computes

lemma Fails.fail (pos : Pos) (f : Fault) : (fail pos f : Eval α).Fails t l b :=
  ⟨_, _, .throw _⟩

lemma Fails.bind (hx : x.Fails t l b) (f : α → Eval β) : (x >>= f).Fails t l b := by
  obtain ⟨e, b', hx⟩ := hx
  exact ⟨e, b', hx.failing f⟩

lemma Fails.after {a} (hx : x.Computes t l b (.ok a) b') (hf : (f a).Fails t l b') :
    (x >>= f).Fails t l b := by
  obtain ⟨e, b'', hf⟩ := hf
  exact ⟨e, b'', hx.bind hf⟩

lemma Computes.fails {r} (hx : x.Computes t l b r b') (hf : ∀ a, (f a).Fails t l b') :
    (x >>= f).Fails t l b := by
  cases r with
  | error e => exact ⟨e, b', hx.failing f⟩
  | ok a => exact .after hx (hf a)

/-! ## Variables -/

/-- What a task is shown of the global variables. -/
def shown (t : TaskId) (b : Bench) : Except Interrupt Bindings :=
  if b.turn = some t then .ok b.globals else .error .stopped

lemma Computes.shown {r : Except Interrupt α} (h : x.Computes t l b r b') :
    shown t b' = Eval.shown t b := by
  rw [Eval.shown, h.turn, h.globals, Eval.shown]

lemma globals_computes (t l b) : globals.Computes t l b (shown t b) b := by
  have hreply : ∀ reply, (if b.turn = some t then some b.globals else none) = reply →
      (Eval.ask .globals).Computes t l b (.ok reply) b :=
    fun _ h => .ask (congrArg (fun reply : Option Bindings => some (b, reply)) h) rfl rfl
  rw [shown]
  by_cases hturn : b.turn = some t
  · rw [if_pos hturn]
    exact (hreply _ (if_pos hturn)).bind (.pure _)
  · rw [if_neg hturn]
    exact (hreply _ (if_neg hturn)).bind (.throw _)

/-- What is found for a name depends only on what the task is shown. -/
lemma lookup_computes (scope name t l b) :
    (lookup? scope name).Computes t l b ((shown t b).map (l.scopes.lookup? scope name)) b := by
  have hglobals := globals_computes t l b
  cases hshown : shown t b with
  | error e => exact (hshown ▸ hglobals).failing _
  | ok bs => exact (hshown ▸ hglobals).bind ⟨⟨0, .ends _⟩, rfl, rfl⟩

lemma store_ends (hturn : b.turn = some t) (scopes bs) :
    (store scopes bs).Ends t l b (.ok (), { l with scopes }) { b with globals := bs } := by
  have hperform : b.perform t (.setGlobals bs) = .done { b with globals := bs } true := if_pos hturn
  exact ⟨_, .answered (congrArg Outcome.answer? hperform) (.ends _)⟩

lemma assign_ends {bs} (hshown : shown t b = .ok bs) (scope : Option ScopeId) (name v) :
    ∃ l' b', (assign scope name v).Ends t l b (.ok (), l') b' := by
  have hglobals := (globals_computes t l b).ends
  rw [hshown] at hglobals
  have hturn : b.turn = some t := by
    by_contra hturn
    rw [shown, if_neg hturn] at hshown
    cases hshown
  have hstores : ∀ changed, ∃ l' b',
      (storeAssigned l.scopes name v bs changed).Ends t l b (.ok (), l') b' := by
    intro changed
    cases changed with
    | none | some changed => exact ⟨_, _, store_ends hturn _ _⟩
  obtain ⟨l', b', hstore⟩ := hstores (l.scopes.assign? scope name v bs)
  exact ⟨l', b', hglobals.bind hstore⟩

/-! ## Expressions -/

lemma computes_closed (t l) : Closed (.of fun x => ∀ b, ∃ r b', x.Computes t l b r b') where
  pure a b := ⟨_, b, .pure a⟩
  stop b := by
    have hfinish : (Eval.ask .finish).Computes t l b (.ok ()) b.finish := by
      refine .ask rfl ?_ ?_
      all_goals rw [b.finish_eq]; rfl
    exact ⟨_, _, hfinish.bind (.throw _)⟩
  throw d b := ⟨_, b, .throw _⟩
  bind hx hf b := by
    obtain ⟨r, b', hx⟩ := hx b
    cases r with
    | error e => exact ⟨_, b', hx.failing _⟩
    | ok a =>
      obtain ⟨r, b'', hf⟩ := hf a b'
      exact ⟨r, b'', hx.bind hf⟩
  lookup name _ b := ⟨_, b, lookup_computes _ name t l b⟩
  elapsed b := ⟨_, b, .ask rfl rfl rfl⟩
  entropy b := ⟨_, _, .ask rfl rfl rfl⟩

lemma evalExpr_computes {s : Setting} {e} (hcalls : ∀ name,
    .call name ∈ e.deeds → s.program.function? name = none) (call scope t l b) :
    ∃ r b', (evalExpr s call scope e).Computes t l b r b' :=
  (computes_closed t l).plain hcalls call scope b

end Eval

open Eval

/-! ## Assignments -/

lemma evalExpr_combines {op : AssignOp} {operator} (hop : op.binary? = some operator)
    (s call scope pos left right) : evalExpr s call scope (.binary pos operator left right) = (do
      let a ← evalExpr s call scope left
      let b ← evalExpr s call scope right
      ofResult pos (Value.binary operator a b)) := by
  cases op with
  | set => cases hop
  | add | sub | mul | div =>
    cases hop
    rw [evalExpr]

lemma assignValue_combines {op : AssignOp} {operator} (hop : op.binary? = some operator)
    (scope pos name v) : assignValue scope pos name op v
      = lookup? scope name >>= assignCombined scope pos name operator v := by
  rw [assignValue, hop]
  refine congrArg (lookup? scope name >>= ·) (funext fun found => ?_)
  cases found with
  | none | some old => rfl

/-- **Compound assignment.**  An assignment that combines the value of a variable with an expression
    does the same as the assignment of the written combination, if the expression calls no function
    of the script. -/
theorem compound_assign_expands (s : Setting) (call : Caller) (scope : Option ScopeId) (x : String)
    {op : AssignOp} {operator : BinaryOp} (hop : op.binary? = some operator) {e : Expr}
    (hcalls : ∀ name, .call name ∈ e.deeds → s.program.function? name = none)
    (pos opPos namePos : Pos) (t : TaskId) (l : Local) (b : Bench) :
    (execStmt s call scope (.assign pos x op e)).Agree
      (execStmt s call scope (.assign pos x .set (.binary opPos operator (.name namePos x) e)))
      t l b := by
  rw [execStmt, execStmt, evalExpr_combines hop]
  simp only [assignValue_combines hop]
  obtain ⟨r, b', he⟩ := evalExpr_computes hcalls call scope t l b
  -- the variable is found alike before the expression is evaluated and after it
  have hbefore := lookup_computes scope x t l b
  have hafter := lookup_computes scope x t l b'
  rw [he.shown] at hafter
  cases hshown : shown t b with
  | error i =>
    rw [hshown] at hbefore hafter
    rw [evalExpr]
    exact .inr ⟨he.fails fun _ => .bind (.bind ⟨_, _, hafter⟩ _) _,
      .bind (.bind (.bind ⟨_, _, hbefore⟩ _) _) _⟩
  | ok bs =>
    rw [hshown] at hbefore hafter
    cases hfound : l.scopes.lookup? scope x bs with
    | none =>
      rw [Except.map, hfound] at hbefore hafter
      rw [evalExpr]
      exact .inr ⟨he.fails fun _ => .bind (.after hafter (.fail pos _)) _,
        .bind (.bind (.after hbefore (.fail namePos _)) _) _⟩
    | some old =>
      rw [Except.map, hfound] at hbefore hafter
      have hname : (evalExpr s call scope (.name namePos x)).Computes t l b (.ok old) b := by
        rw [evalExpr]
        exact hbefore.bind (.pure old)
      cases r with
      | error i => exact .inr ⟨.bind ⟨_, _, he⟩ _, .bind (.after hname (.bind ⟨_, _, he⟩ _)) _⟩
      | ok v =>
        cases hw : Value.binary operator old v with
        | error f =>
          have hfails : ∀ p, (ofResult p (Value.binary operator old v)).Fails t l b' := by
            intro p
            rw [hw]
            exact .fail p _
          exact .inr ⟨.after he (.bind (.after hafter ((hfails pos).bind _)) _),
            .bind (.after hname (.after he (hfails opPos))) _⟩
        | ok w =>
          have hnew : ∀ p,
              (ofResult p (Value.binary operator old v)).Ends t l b' (.ok w, l) b' := by
            intro p
            rw [hw]
            exact .pure w
          obtain ⟨l', b'', hassign⟩ := assign_ends (he.shown.trans hshown) scope x w
          exact .inl ⟨.normal, l', b'',
            he.ends.bind (.bind (hafter.ends.bind ((hnew pos).bind hassign)) (.pure _)),
            .bind (hname.ends.bind (he.ends.bind (hnew opPos))) (hassign.bind (.pure _))⟩

/-- A task in a block with a variable of its own, which hides a global one. -/
def hidingLocal : Local :=
  { scopes := #[⟨[("x", .int 5)], none⟩, ⟨[], some 0⟩] }

def hidingBench : Bench :=
  { Bench.ofLimits {} (.ofCapacity 1) 0 with
    globals := [("x", .int 1), ("y", .int 2)]
    turn := some 0 }

theorem compound_assign_expands_hidden :
    let e : Expr := .binary ⟨1, 8⟩ .sub (.name ⟨1, 6⟩ "y") (.name ⟨1, 10⟩ "x")
    (execStmt ⟨{}, [], {}⟩ (fun _ _ _ => pure .void) (some 1)
      (.assign ⟨1, 1⟩ "x" .mul e)).Agree (execStmt ⟨{}, [], {}⟩ (fun _ _ _ => pure .void) (some 1)
        (.assign ⟨1, 1⟩ "x" .set (.binary ⟨1, 7⟩ .mul (.name ⟨1, 5⟩ "x") e)))
      0 hidingLocal hidingBench :=
  compound_assign_expands _ _ _ _ rfl (by simp [Expr.deeds]) _ _ _ _ _ _

end CanScript
