import CanScript.Proofs.Outcome
import CanScript.Proofs.Nesting

/-! # Jumps

    A script leaves a loop or goes on with its next round only inside of a loop, and gives a value
    back only inside of a body.  The readers see to that, and so no execution of a program that was
    read, faultless or not, carries a jump out of the loop or the body that it belongs to. -/

namespace CanScript

open Eval

/-! ## Where jumps stand -/

/-- Whether a statement is a loop. -/
def Stmt.isLoop : Stmt → Bool
  | .times .. => true
  | .forever .. => true
  | _ => false

/-- Whether a statement neither jumps nor holds other statements. -/
def Stmt.isPlain : Stmt → Bool
  | .declare .. => true
  | .assign .. => true
  | .send .. => true
  | .delay .. => true
  | .print .. => true
  | .eval .. => true
  | _ => false

/-- Every jump of a statement belongs to a loop or a body, given how many loops of the same body are
    around the statement and whether it stands in a body.  The declaration of a function is no
    statement at all. -/
inductive Stmt.Placed : Nat → Bool → Stmt → Prop where
  | plain {depth body} {stmt : Stmt} : stmt.isPlain = true → Placed depth body stmt
  | times {depth body pos count block} :
      (∀ s ∈ block, Placed (depth + 1) body s) → Placed depth body (.times pos count block)
  | forever {depth body pos block} :
      (∀ s ∈ block, Placed (depth + 1) body s) → Placed depth body (.forever pos block)
  | when {depth body pos condition yes no} : (∀ s ∈ yes, Placed depth body s) →
      (∀ block, no = some block → ∀ s ∈ block, Placed depth body s) →
      Placed depth body (.when pos condition yes no)
  | waitFor {depth body pos predicate timeout fallback} :
      (∀ block, fallback = some block → ∀ s ∈ block, Placed depth body s) →
      Placed depth body (.waitFor pos predicate timeout fallback)
  | giveBack {depth pos value} : Placed depth true (.giveBack pos value)
  | leave {depth body pos} : 0 < depth → Placed depth body (.leave pos)
  | again {depth body pos} : 0 < depth → Placed depth body (.again pos)

/-- Every jump of a program belongs to a loop or a body of its own, and no function has a parameter
    twice. -/
structure Program.Placed (p : Program) : Prop where
  params : ∀ f ∈ p.functions, f.params.Nodup
  functions : ∀ f ∈ p.functions, ∀ s ∈ f.body, s.Placed 0 true
  receiveHandlers : ∀ h ∈ p.receiveHandlers, ∀ s ∈ h.body, s.Placed 0 true
  intervalHandlers : ∀ h ∈ p.intervalHandlers, ∀ s ∈ h.body, s.Placed 0 true
  statements : ∀ s ∈ p.statements, s.Placed 0 false

variable {stmt : Stmt} {flow : Flow}

namespace Parse

lemma StmtFrom.placed {τ depth body} (h : StmtFrom τ depth body stmt) : stmt.Placed depth body := by
  induction h with
  | declare _ _ | assign _ _ | send _ _ | delay _ => exact .plain rfl
  | times _ _ ih => exact .times ih
  | forever _ ih => exact .forever ih
  | when _ _ _ ihyes ihno => exact .when ihyes ihno
  | waitFor _ _ _ ih => exact .waitFor ih
  | giveBack _ => exact .giveBack
  | leave hdepth => exact .leave hdepth
  | again hdepth => exact .again hdepth
  | print _ | eval _ => exact .plain rfl

lemma ProgramFrom.placed {τ p} (h : ProgramFrom τ p) : p.Placed where
  params f hf := (h.functions f hf).distinct
  functions f hf s hs := ((h.functions f hf).body s hs).placed
  receiveHandlers f hf s hs := ((h.receiveHandlers f hf).body s hs).placed
  intervalHandlers f hf s hs := ((h.intervalHandlers f hf).body s hs).placed
  statements s hs := (h.statements s hs).placed

end Parse

/-! ## How executions end -/

def Flow.May (depth : Nat) (body : Bool) : Flow → Prop
  | .normal => True
  | .leave => 0 < depth
  | .again => 0 < depth
  | .giveBack _ => body = true

/-- Whether an execution ended with a jump out of a loop or to its next round. -/
def Flow.isLoopJump : Flow → Bool
  | .leave => true
  | .again => true
  | _ => false

lemma Flow.May.not_isLoopJump {body} (h : flow.May 0 body) : flow.isLoopJump = false := by
  cases flow with
  | normal => rfl
  | leave | again => exact absurd h (Nat.lt_irrefl 0)
  | giveBack v => rfl

lemma Flow.May.eq_normal (h : flow.May 0 false) : flow = .normal := by
  cases flow with
  | normal => rfl
  | leave | again => exact absurd h (Nat.lt_irrefl 0)
  | giveBack v => exact absurd h Bool.false_ne_true

lemma afterRound_may {depth outer body flow'} (h : flow.May depth body)
    (hafter : afterRound flow = some flow') : flow'.May outer body := by
  cases flow with cases hafter
  | leave => exact True.intro
  | giveBack v => exact h

section Loops

variable {depth outer : Nat} {body : Bool} {round : Eval Flow} (yieldEvery : Nat)

lemma repeatTimes_may (h : Ensures round (Flow.May depth body)) (n first) :
    Ensures (repeatTimes yieldEvery round n first) (Flow.May outer body) := by
  induction n generalizing first with
  | zero => exact .pure True.intro
  | succ n ih =>
    rw [repeatTimes]
    refine .afterIf fun _ => h.bind fun flow hflow => ?_
    split
    · next flow' hafter => exact .pure (afterRound_may hflow hafter)
    · exact ih false

lemma repeatForever_may (h : Ensures round (Flow.May depth body)) :
    Ensures (repeatForever yieldEvery round) (Flow.May outer body) := by
  refine .loop fun first => .afterIf fun _ => h.bind fun flow hflow => ?_
  split
  · next flow' hafter =>
      refine .pure fun b hb => ?_
      obtain rfl := Sum.inr.inj hb
      exact afterRound_may hflow hafter
  · exact .pure nofun

end Loops

section Statements

variable {s : Setting} {call : Caller} {depth : Nat} {body : Bool}

variable {scope : Option ScopeId} {block : List Stmt}

lemma execStmts_may
    (h : ∀ stmt ∈ block, Ensures (execStmt s call scope stmt) (Flow.May depth body)) :
    Ensures (execStmts s call scope block) (Flow.May depth body) := by
  induction block with
  | nil => exact .pure True.intro
  | cons stmt rest ih =>
    rw [execStmts]
    refine .after fun _ => (h stmt List.mem_cons_self).bind fun flow hflow => ?_
    split
    · exact ih fun stmt' hmem => h stmt' (List.mem_cons_of_mem stmt hmem)
    · exact .pure hflow

lemma execBlock_may
    (h : ∀ stmt ∈ block, ∀ scope, Ensures (execStmt s call scope stmt) (Flow.May depth body)) :
    Ensures (inScope scope fun inner => execStmts s call (some inner) block)
      (Flow.May depth body) :=
  .inScope fun inner => execStmts_may fun stmt hmem => h stmt hmem (some inner)

lemma execOptional_may {block} (h : ∀ b, block = some b → ∀ stmt ∈ b, ∀ scope,
      Ensures (execStmt s call scope stmt) (Flow.May depth body)) :
    Ensures (execOptional s call scope block) (Flow.May depth body) := by
  cases block with
  | none => exact .pure True.intro
  | some b =>
    rw [execOptional]
    exact execBlock_may (h b rfl)

lemma execStmt_plain (h : stmt.isPlain) (scope) :
    Ensures (execStmt s call scope stmt) (Flow.May depth body) := by
  cases stmt with
  | declare pos name value =>
    cases value with
    | none => exact .after fun _ => .pure True.intro
    | some e => exact .after fun _ => .after fun _ => .pure True.intro
  | assign pos name op value => exact .after fun _ => .after fun _ => .pure True.intro
  | send pos id data extended => exact .after fun _ => .pure True.intro
  | delay pos duration =>
    exact .after fun _ => .after fun _ => .after fun _ => .after fun _ => .after fun _ =>
      .pure True.intro
  | print pos value => exact .after fun _ => .after fun _ => .pure True.intro
  | eval pos value => exact .after fun _ => .pure True.intro
  | _ => cases h

lemma execStmt_may (h : stmt.Placed depth body) (scope) :
    Ensures (execStmt s call scope stmt) (Flow.May depth body) := by
  induction h generalizing scope with
  | plain hplain => exact execStmt_plain hplain scope
  | times _ ih =>
    rw [execStmt]
    exact .after fun _ => .after fun _ => repeatTimes_may _ (execBlock_may ih) _ _
  | forever _ ih =>
    rw [execStmt]
    exact repeatForever_may _ (execBlock_may ih)
  | when _ _ ihyes ihno =>
    rw [execStmt]
    exact .after fun _ => .ite (execBlock_may ihyes) (execOptional_may ihno)
  | waitFor _ ih =>
    rw [execStmt]
    refine .after fun _ => .after fun _ => .after fun found => .ite (.pure True.intro) ?_
    exact .after fun _ => .afterIf fun _ => execOptional_may ih
  | @giveBack _ _ value =>
    cases value with
    | none => exact .pure rfl
    | some e => exact .after fun _ => .pure rfl
  | leave hdepth | again hdepth => exact .pure hdepth

lemma execStmt_loop (h : stmt.isLoop) (scope) :
    Ensures (execStmt s call scope stmt) fun flow => flow.isLoopJump = false := by
  -- inside of a loop and a body every way of ending is allowed
  have hround : ∀ x, Ensures x (Flow.May 1 true) := by
    intro x l flow l' _
    cases flow with
    | normal => exact True.intro
    | leave | again => exact Nat.one_pos
    | giveBack v => rfl
  cases stmt with
  | times pos count block =>
    rw [execStmt]
    refine .after fun _ => .after fun _ => ?_
    exact (repeatTimes_may _ (hround _) _ _).imp fun _ hflow => Flow.May.not_isLoopJump hflow
  | forever pos block =>
    rw [execStmt]
    exact (repeatForever_may _ (hround _)).imp fun _ hflow => Flow.May.not_isLoopJump hflow
  | _ => cases h

lemma execStmts_body (h : ∀ stmt ∈ block, stmt.Placed 0 body) (scope) :
    Ensures (execStmts s call scope block) fun flow => flow.isLoopJump = false :=
  (execStmts_may fun stmt hmem => execStmt_may (h stmt hmem) scope).imp
    fun _ hflow => hflow.not_isLoopJump

end Statements

/-- In the program that is read from any tokens, every jump belongs to a loop or a body and no
    function has a parameter twice.  So whatever happens during an execution, a loop does not end
    with a jump of a loop, nor does the body of a function or of a handler, and a statement of the
    main sequence that comes to its end ends normally. -/
theorem jumps_stay_inside (tokens : List Token) :
    (Program.ofTokens tokens).1.Placed ∧
    ∀ (s : Setting) (call : Caller) (scope : Option ScopeId),
      (∀ stmt : Stmt, stmt.isLoop = true →
        Ensures (execStmt s call scope stmt) fun flow => flow.isLoopJump = false) ∧
      (∀ f ∈ (Program.ofTokens tokens).1.functions,
        Ensures (execStmts s call scope f.body) fun flow => flow.isLoopJump = false) ∧
      (∀ h ∈ (Program.ofTokens tokens).1.receiveHandlers,
        Ensures (execStmts s call scope h.body) fun flow => flow.isLoopJump = false) ∧
      (∀ h ∈ (Program.ofTokens tokens).1.intervalHandlers,
        Ensures (execStmts s call scope h.body) fun flow => flow.isLoopJump = false) ∧
      (∀ stmt ∈ (Program.ofTokens tokens).1.statements,
        Ensures (execStmt s call scope stmt) fun flow => flow = .normal) := by
  have hplaced : (Program.ofTokens tokens).1.Placed :=
    (Parse.ofTokens_from (τ := fun _ => True) tokens (fun _ _ => True.intro)
      fun _ _ => True.intro).placed
  refine ⟨hplaced, fun s call scope => ?_⟩
  refine ⟨fun stmt hloop => execStmt_loop hloop scope, ?_, ?_, ?_, ?_⟩
  · exact fun f hf => execStmts_body (hplaced.functions f hf) scope
  · exact fun h hh => execStmts_body (hplaced.receiveHandlers h hh) scope
  · exact fun h hh => execStmts_body (hplaced.intervalHandlers h hh) scope
  · exact fun stmt hmem =>
      (execStmt_may (hplaced.statements stmt hmem) scope).imp fun _ hflow => hflow.eq_normal

end CanScript
