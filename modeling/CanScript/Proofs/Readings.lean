import CanScript.Proofs.Contract
import CanScript.Proofs.Provenance

/-! # All readers keep to a pairing

    Whatever pairing two readings keep to, they give the same, some lines further down for the
    second, and what they give is made of tokens that both have passed.  Every reader passes a token
    where it has to, and none uses up its budget. -/

namespace CanScript.Parse.Pairing

open List ParseFault

variable {α β : Type} {K : Pairing} {p : K.Spot} {σ : State × State} {fuel fuel' : Nat}

def Via (change : α → α) (P : α → Prop) (v v' : α) : Prop :=
  v' = change v ∧ P v

section Via

variable {change : α → α} {P : α → Prop} {W : β → β → Prop} {x x' : Reader α} {j n : Nat}

lemma Keeps.via {f f' : α → Reader β} (hx : Keeps p j (Via change P) x x' σ)
    (hf : ∀ v τ, P v → At p τ → Fewer j σ τ → Keeps p (n - j) W (f v) (f' (change v)) τ) :
    Keeps p n W (x >>= f) (x' >>= f') σ := by
  refine hx.bind ?_
  rintro v _ τ ⟨rfl, hv⟩
  exact hf v τ hv

lemma Keeps.last {f f' : α → β} (hx : Keeps p n (Via change P) x x' σ)
    (hf : ∀ v, P v → W (f v) (f' (change v))) :
    Keeps p 0 W (do return f (← x)) (do return f' (← x')) σ := by
  refine (hx.mono (Nat.zero_le n)).map ?_
  rintro v _ ⟨rfl, hv⟩
  exact hf v hv

end Via

/-- Two expressions that were read. -/
abbrev ofExpr (K : Pairing) : Expr → Expr → Prop :=
  Via (Expr.down K.down) (ExprFrom K.passed)

/-- Two lists of expressions that were read. -/
abbrev ofExprs (K : Pairing) : List Expr → List Expr → Prop :=
  Via (Expr.allDown K.down) fun es => ∀ e ∈ es, ExprFrom K.passed e

/-- The budgets of two readers are enough for the tokens ahead. -/
abbrev Enough (each more : Nat) (σ : State × State) (fuel fuel' : Nat) : Prop :=
  each * σ.1.rest.length + more ≤ fuel ∧ each * σ.2.rest.length + more ≤ fuel'

/-! ## Readers of expressions -/

variable {kind : TokenKind}

section Expressions

variable {t : Token}

lemma integer_keeps (hK : K.Lawful) {base digits} (h : At p σ) :
    Keeps p 0 (fun n n' => n' = n ∧ Number.readInt64? base digits = some n) (integer base digits t)
      (integer base digits (t.down K.down)) σ := by
  unfold integer
  split
  · next n hn => exact .pure ⟨rfl, hn⟩ h
  · exact hK.failAt h (by simp [kind])

lemma seconds_keeps (hK : K.Lawful) (h : At p σ) :
    Keeps p 0 (fun ms ms' => ms' = ms ∧ ∃ n, Number.readInt64? 10 t.text.toList.dropLast = some n
      ∧ Number.int64? (n.toInt * 1000) = some ms) (seconds t) (seconds (t.down K.down)) σ := by
  refine (integer_keeps hK h).bind ?_
  rintro n _ τ ⟨rfl, hn⟩ hτ -
  split
  · next ms hms => exact .pure ⟨rfl, _, hn, hms⟩ hτ
  · exact hK.failAt hτ (by simp [kind])

lemma float_keeps (hK : K.Lawful) (h : At p σ) :
    Keeps p 0 (fun x x' => x' = x ∧ Number.readFloat? t.text.toList = some x) (float t)
      (float (t.down K.down)) σ := by
  unfold float
  simp only [Token.down_text]
  split
  · next x hx => exact .pure ⟨rfl, hx⟩ h
  · exact hK.failAt h (by simp [kind])

lemma Lawful.ended_ne (hK : K.Lawful) (h : At p σ) (heof : σ.1.current.kind = .eof)
    (hkind : σ.2.current.kind = kind) (hne : kind ≠ .eof) (hstart : startsItem kind = false) :
    False :=
  hne (((hK.kind_iff h hne hstart).mp hkind).symm.trans heof)

lemma memberName_keeps (hK : K.Lawful) (h : At p σ) :
    Keeps p 1 (fun n n' => n' = n ∧ WordFrom K.passed n) memberName memberName σ := by
  have hfail := hK.failExpected (V := fun n n' => n' = n ∧ WordFrom K.passed n) (n := 1)
    "member name after '.'" h
  refine Keeps.peekKind ?_
  by_cases heof : σ.1.current.kind = .eof
  · simp only [heof]
    split
    case h_4 => exact hfail
    all_goals next hkind => exact (hK.ended_ne h heof hkind (by simp) rfl).elim
  · obtain ⟨hcurrent, hpassed⟩ := hK.meets h.states heof
    have hword : isOperandName σ.1.current.kind → isInner σ.1.current.kind →
        Keeps p 1 (fun n n' => n' = n ∧ WordFrom K.passed n) (do return (← advance).text)
          (do return (← advance).text) σ := fun hword hinner =>
      hK.pass h rfl hinner fun τ hτ _ => .pure ⟨rfl, _, hpassed, hword, rfl⟩ hτ
    simp only [hcurrent, Token.down_kind]
    split
    · next hkind => exact hword (.inl hkind) (hkind ▸ rfl)
    · next hkind => exact hword (.inr (.inl hkind)) (hkind ▸ rfl)
    · next hkind => exact hword (.inr (.inr hkind)) (hkind ▸ rfl)
    · exact hfail

/-- Operators of few levels, none of them a brace. -/
structure Manageable (levels : List (List (Symbol × BinaryOp))) : Prop where
  few : levels.length ≤ 10
  inner : ∀ operators ∈ levels, ∀ p ∈ operators, isInner (.symbol p.1) = true

lemma Manageable.tail {operators}
    {tighter : List (List (Symbol × BinaryOp))} (h : Manageable (operators :: tighter)) :
    Manageable tighter :=
  ⟨Nat.le_of_succ_le h.few, fun ops hops => h.inner ops (mem_cons_of_mem _ hops)⟩

lemma isInner_of_operatorAt? {operators op} (hinner : ∀ p ∈ operators, isInner (.symbol p.1))
    (h : operatorAt? operators kind = some op) : isInner kind := by
  cases kind with
  | symbol sym =>
    obtain ⟨before, after, hsplit, -⟩ := lookup_eq_some_iff.mp h
    exact hinner (sym, op) (by rw [hsplit]; exact mem_append_right _ mem_cons_self)
  | _ => cases h

lemma isInner_of_unaryOperator? {op} (h : unaryOperator? kind = some op) : isInner kind := by
  unfold unaryOperator? at h
  split at h
  · rfl
  · rfl
  · rfl
  · cases h

lemma Lawful.lookup_eq (hK : K.Lawful) (h : At p σ) {γ : Type} {f : TokenKind → Option γ}
    (hf : ∀ kind, (∀ sym, kind ≠ .symbol sym) → f kind = none) :
    f σ.2.current.kind = f σ.1.current.kind := by
  by_cases heof : σ.1.current.kind = .eof
  · rw [hf σ.1.current.kind (by rw [heof]; simp), hf σ.2.current.kind]
    intro sym hsym
    exact hK.ended_ne h heof hsym (by simp) rfl
  · rw [(hK.meets h.states heof).1, Token.down_kind]

lemma operatorAt?_none (operators) (kind : TokenKind) (h : ∀ sym, kind ≠ .symbol sym) :
    operatorAt? operators kind = none := by
  cases kind with
  | symbol sym => exact absurd rfl (h sym)
  | _ => rfl

lemma unaryOperator?_none (kind : TokenKind) (h : ∀ sym, kind ≠ .symbol sym) :
    unaryOperator? kind = none := by
  cases kind with
  | symbol sym => exact absurd rfl (h sym)
  | _ => rfl

/-- The contracts of all readers of expressions with two budgets.  Twenty steps are enough for each
    token; how many more a reader needs follows from the readers that it starts before it passes a
    token. -/
structure Expressions (p : K.Spot) (fuel fuel' : Nat) : Prop where
  ternary : ∀ σ, At p σ → Enough 20 14 σ fuel fuel' →
    Keeps p 1 (ofExpr K) (Parse.ternary fuel) (Parse.ternary fuel') σ
  binary : ∀ levels, Manageable levels → ∀ σ, At p σ → Enough 20 (3 + levels.length) σ fuel fuel' →
    Keeps p 1 (ofExpr K) (Parse.binary fuel levels) (Parse.binary fuel' levels) σ
  binaryRest : ∀ operators tighter left, Manageable (operators :: tighter) →
    ExprFrom K.passed left → ∀ σ, At p σ → Enough 20 1 σ fuel fuel' →
    Keeps p 0 (ofExpr K) (Parse.binaryRest fuel operators tighter left)
      (Parse.binaryRest fuel' operators tighter (left.down K.down)) σ
  unary : ∀ σ, At p σ → Enough 20 2 σ fuel fuel' →
    Keeps p 1 (ofExpr K) (Parse.unary fuel) (Parse.unary fuel') σ
  postfixRest : ∀ target, ExprFrom K.passed target → ∀ σ, At p σ → Enough 20 1 σ fuel fuel' →
    Keeps p 0 (ofExpr K) (Parse.postfixRest fuel target)
      (Parse.postfixRest fuel' (target.down K.down)) σ
  arguments : ∀ close what, isInner (.symbol close) = true → ∀ σ, At p σ →
    Enough 20 16 σ fuel fuel' →
    Keeps p 1 (ofExprs K) (Parse.arguments fuel close what) (Parse.arguments fuel' close what) σ
  commaSeparated : ∀ σ, At p σ → Enough 20 15 σ fuel fuel' →
    Keeps p 1 (ofExprs K) (Parse.commaSeparated fuel) (Parse.commaSeparated fuel') σ
  primary : ∀ σ, At p σ → Enough 20 1 σ fuel fuel' →
    Keeps p 1 (ofExpr K) (Parse.primary fuel) (Parse.primary fuel') σ

lemma Lawful.opens_iff (hK : K.Lawful) (h : At p σ) (sym) :
    (σ.2.current.kind == .symbol sym && σ.2.current.pos.line == σ.2.last.pos.line)
      ↔ (σ.1.current.kind == .symbol sym && σ.1.current.pos.line == σ.1.last.pos.line) := by
  simp only [Bool.and_eq_true, beq_iff_eq (b := TokenKind.symbol sym)]
  rw [hK.kind_iff h (by simp) rfl]
  exact and_congr_right fun hkind => by rw [hK.opens h.states hkind]

lemma postfixRest_keeps (hK : K.Lawful) (h : Expressions p fuel fuel') (target)
    (htarget : ExprFrom K.passed target) (σ) (hσ : At p σ)
    (lσ : Enough 20 1 σ (fuel + 1) (fuel' + 1)) :
    Keeps p 0 (ofExpr K) (postfixRest (fuel + 1) target)
      (postfixRest (fuel' + 1) (target.down K.down)) σ := by
  rw [postfixRest, postfixRest]
  refine Keeps.get (Keeps.peek (Keeps.ite (hK.opens_iff hσ _) (fun hopen => ?_) fun _ => ?_))
  · have hkind := eq_of_beq ((Bool.and_eq_true _ _).mp hopen).1
    rw [hK.current hσ hkind rfl]
    refine hK.pass hσ hkind rfl fun σ1 h1 l1 => ?_
    refine (h.arguments _ _ rfl σ1 h1 (by omega)).via fun args σ2 hargs h2 l2 => ?_
    exact h.postfixRest _ (.call htarget hargs) σ2 h2 (by omega)
  refine Keeps.ite (hK.opens_iff hσ _) (fun hopen => ?_) fun _ => ?_
  · have hkind := eq_of_beq ((Bool.and_eq_true _ _).mp hopen).1
    rw [hK.current hσ hkind rfl]
    refine hK.pass hσ hkind rfl fun σ1 h1 l1 => ?_
    refine (h.ternary σ1 h1 (by omega)).via fun index σ2 hindex h2 l2 => ?_
    refine hK.symbol h2 rfl fun σ3 h3 l3 => ?_
    exact h.postfixRest _ (.index htarget hindex) σ3 h3 (by omega)
  refine hK.ifKind hσ (by simp) rfl (fun hkind => ?_) fun _ => .pure ⟨rfl, htarget⟩ hσ
  rw [hK.current hσ hkind rfl]
  refine hK.pass hσ hkind rfl fun σ1 h1 l1 => ?_
  refine (memberName_keeps hK h1).via fun field σ2 hfield h2 l2 => ?_
  exact h.postfixRest _ (.member htarget hfield) σ2 h2 (by omega)

lemma primary_keeps (hK : K.Lawful) (h : Expressions p fuel fuel') (σ) (hσ : At p σ)
    (lσ : Enough 20 1 σ (fuel + 1) (fuel' + 1)) :
    Keeps p 1 (ofExpr K) (primary (fuel + 1)) (primary (fuel' + 1)) σ := by
  have hfail := hK.failExpected (V := ofExpr K) (n := 1) "expression" hσ
  rw [primary, primary]
  refine Keeps.peek ?_
  by_cases heof : σ.1.current.kind = .eof
  · simp only [heof]
    split
    case h_15 => exact hfail
    all_goals next hkind => exact (hK.ended_ne hσ heof hkind (by simp) rfl).elim
  obtain ⟨hcurrent, hpassed⟩ := hK.meets hσ.states heof
  rw [hcurrent]
  simp only [Token.down_kind]
  -- a literal is read after its token was passed
  have hliteral : ∀ {α : Type} {kind : TokenKind} {V : α → α → Prop} {x x' : Reader α}
      {f : α → Literal}, σ.1.current.kind = kind → isInner kind →
      (∀ τ, At p τ → Keeps p 0 V x x' τ) →
      (∀ v v', V v v' → f v' = f v ∧ LiteralFrom K.passed (f v)) →
      Keeps p 1 (ofExpr K) (do let _ ← advance; return .literal σ.1.current.pos (f (← x)))
        (do let _ ← advance; return .literal (σ.1.current.pos.down K.down) (f (← x'))) σ := by
    intro α kind V x x' f hkind hinner hx hf
    refine hK.pass hσ hkind hinner fun σ1 h1 _ => (hx σ1 h1).map fun v v' hv => ?_
    obtain ⟨heq, hfrom⟩ := hf v v' hv
    exact ⟨by rw [heq]; rfl, .literal hfrom⟩
  have hplain : ∀ {kind : TokenKind} {e e' : Expr}, σ.1.current.kind = kind →
      isInner kind → ofExpr K e e' →
      Keeps p 1 (ofExpr K) (do let _ ← advance; return e) (do let _ ← advance; return e') σ :=
    fun hkind hinner he => hK.pass hσ hkind hinner fun σ1 h1 _ => .pure he h1
  have hname : isOperandName σ.1.current.kind → ofExpr K (.name σ.1.current.pos σ.1.current.text)
      (.name (σ.1.current.pos.down K.down) σ.1.current.text) :=
    fun hword => ⟨rfl, .name ⟨_, hpassed, hword, rfl⟩⟩
  split
  · next hkind =>
      refine hliteral hkind rfl (fun τ => integer_keeps hK) ?_
      rintro n _ ⟨rfl, hn⟩
      exact ⟨rfl, .decimal hpassed hkind hn⟩
  · next hkind =>
      refine hliteral hkind rfl (fun τ => integer_keeps hK) ?_
      rintro n _ ⟨rfl, hn⟩
      exact ⟨rfl, .hexadecimal hpassed hkind hn⟩
  · next hkind =>
      refine hliteral hkind rfl (fun τ => seconds_keeps hK) ?_
      rintro ms _ ⟨rfl, n, hn, hms⟩
      exact ⟨rfl, .seconds hpassed hkind hn hms⟩
  · next hkind =>
      refine hliteral hkind rfl (fun τ => float_keeps hK) ?_
      rintro x _ ⟨rfl, hx⟩
      exact ⟨rfl, .float hpassed hkind hx⟩
  · next hkind => exact hplain hkind rfl ⟨rfl, .literal (.text hpassed hkind)⟩
  · next hkind => exact hplain hkind rfl ⟨rfl, .literal .bool⟩
  · next hkind => exact hplain hkind rfl ⟨rfl, .literal .bool⟩
  · next hkind => exact hplain hkind rfl (hname (.inl hkind))
  · next hkind => exact hplain hkind rfl (hname (.inr (.inl hkind)))
  · next hkind => exact hplain hkind rfl (hname (.inr (.inr hkind)))
  · next hkind =>
      refine hK.pass hσ hkind rfl fun σ1 h1 l1 => ?_
      refine (h.ternary σ1 h1 (by omega)).bind fun inner inner' σ2 hinner h2 l2 => ?_
      exact hK.closing h2 rfl hinner
  · next hkind =>
      refine hK.pass hσ hkind rfl fun σ1 h1 l1 => ?_
      exact (h.arguments _ _ rfl σ1 h1 (by omega)).last fun items hitems => ⟨rfl, .bytes hitems⟩
  · next hkind =>
      refine hK.pass hσ hkind rfl fun σ1 h1 l1 => ?_
      refine hK.symbol h1 rfl fun σ2 h2 l2 => ?_
      refine (h.ternary σ2 h2 (by omega)).via fun low σ3 hlow h3 l3 => ?_
      refine hK.symbol h3 rfl fun σ4 h4 l4 => ?_
      refine (h.ternary σ4 h4 (by omega)).via fun high σ5 hhigh h5 l5 => ?_
      exact hK.closing h5 rfl ⟨rfl, .random hlow hhigh⟩
  · next hkind =>
      refine hK.pass hσ hkind rfl fun σ1 h1 l1 => ?_
      refine hK.symbol h1 rfl fun σ2 h2 l2 => ?_
      refine (h.ternary σ2 h2 (by omega)).via fun length σ3 hlength h3 l3 => ?_
      exact hK.closing h3 rfl ⟨rfl, .randomBytes hlength⟩
  · exact hfail

/-- With one step more, every reader can start those that it is made of. -/
lemma Expressions.step (hK : K.Lawful) (h : Expressions p fuel fuel') :
    Expressions p (fuel + 1) (fuel' + 1) where
  ternary σ hσ lσ := by
    rw [Parse.ternary, Parse.ternary]
    refine (h.binary levels ⟨by decide, by decide⟩ σ hσ (by simp [levels]; omega)).via fun condition σ1
      hcondition h1 l1 => ?_
    refine Keeps.peek (hK.ifKind h1 (by simp) rfl (fun hkind => ?_) fun _ =>
      .pure ⟨rfl, hcondition⟩ h1)
    rw [hK.current h1 hkind rfl]
    refine hK.pass h1 hkind rfl fun σ2 h2 l2 => ?_
    refine (h.ternary σ2 h2 (by omega)).via fun yes σ3 hyes h3 l3 => ?_
    refine hK.symbol h3 rfl fun σ4 h4 l4 => ?_
    exact (h.ternary σ4 h4 (by omega)).last fun no hno => ⟨rfl, .ternary hcondition hyes hno⟩
  binary levels hlevels σ hσ lσ := by
    cases levels with
    | nil =>
      rw [Parse.binary, Parse.binary]
      exact h.unary σ hσ (by simp at lσ; omega)
    | cons operators tighter =>
      rw [length_cons] at lσ
      rw [Parse.binary, Parse.binary]
      refine (h.binary tighter hlevels.tail σ hσ (by omega)).via fun left σ1 hleft h1 l1 => ?_
      exact h.binaryRest operators tighter left hlevels hleft σ1 h1 (by omega)
  binaryRest operators tighter left hlevels hleft σ hσ lσ := by
    have hfew := hlevels.tail.few
    rw [Parse.binaryRest, Parse.binaryRest]
    refine Keeps.peek ?_
    rw [hK.lookup_eq hσ (operatorAt?_none operators)]
    split
    · exact .pure ⟨rfl, hleft⟩ hσ
    · next op hop =>
        have hinner := isInner_of_operatorAt? (hlevels.inner operators mem_cons_self) hop
        rw [(hK.meets hσ.states (isInner_end hinner)).1]
        refine hK.pass hσ rfl hinner fun σ1 h1 l1 => ?_
        refine (h.binary tighter hlevels.tail σ1 h1 (by omega)).via fun right σ2 hright h2 l2 => ?_
        exact h.binaryRest operators tighter _ hlevels (.binary hleft hright) σ2 h2 (by omega)
  unary σ hσ lσ := by
    rw [Parse.unary, Parse.unary]
    refine Keeps.peek ?_
    rw [hK.lookup_eq hσ unaryOperator?_none]
    split
    · refine (h.primary σ hσ (by omega)).via fun target σ1 htarget h1 l1 => ?_
      exact h.postfixRest target htarget σ1 h1 (by omega)
    · next op hop =>
        have hinner := isInner_of_unaryOperator? hop
        rw [(hK.meets hσ.states (isInner_end hinner)).1]
        refine hK.pass hσ rfl hinner fun σ1 h1 l1 => ?_
        exact (h.unary σ1 h1 (by omega)).last fun operand hoperand => ⟨rfl, .unary hoperand⟩
  postfixRest := postfixRest_keeps hK h
  arguments close what hclose σ hσ lσ := by
    rw [Parse.arguments, Parse.arguments]
    refine Keeps.peekKind (hK.ifKind hσ (by simp) rfl (fun hkind => ?_) fun _ => ?_)
    · exact hK.pass hσ hkind hclose fun σ1 h1 _ => .pure ⟨rfl, forall_mem_nil _⟩ h1
    · refine (h.commaSeparated σ hσ (by omega)).bind fun args args' σ1 hargs h1 l1 => ?_
      exact hK.closing h1 hclose hargs
  commaSeparated σ hσ lσ := by
    rw [Parse.commaSeparated, Parse.commaSeparated]
    refine (h.ternary σ hσ (by omega)).via fun first σ1 hfirst h1 l1 => ?_
    refine hK.ifEat h1 rfl rfl fun more σ2 h2 l2 => ?_
    cases more with
    | false => exact .pure ⟨rfl, forall_mem_singleton.mpr hfirst⟩ h2
    | true =>
      exact (h.commaSeparated σ2 h2 (by omega)).last fun rest hrest =>
        ⟨rfl, forall_mem_cons.mpr ⟨hfirst, hrest⟩⟩
  primary := primary_keeps hK h

lemma expressions_keep (hK : K.Lawful) (p : K.Spot) (fuel fuel') : Expressions p fuel fuel' := by
  induction fuel generalizing fuel' with
  | zero =>
    -- no budget is enough for any reader
    refine ⟨?_, ?_, ?_, ?_, ?_, ?_, ?_, ?_⟩ <;> intros <;> omega
  | succ fuel ih =>
    cases fuel' with
    | zero => refine ⟨?_, ?_, ?_, ?_, ?_, ?_, ?_, ?_⟩ <;> intros <;> omega
    | succ fuel' => exact (ih fuel').step hK

lemma expression_keeps (hK : K.Lawful) (h : At p σ) :
    Keeps p 1 (ofExpr K) expression expression σ :=
  Keeps.get ((expressions_keep hK p _ _).ternary σ h (by omega))

end Expressions

/-! ## Readers of statements -/

section Statements

/-- Two statements that were read. -/
abbrev ofStmt (p : K.Spot) : Stmt → Stmt → Prop :=
  Via (Stmt.down K.down) (StmtFrom K.passed p.depth p.body)

/-- Two blocks that were read: a block can be read only where both readings have the same end. -/
abbrev ofBlock (p : K.Spot) : List Stmt → List Stmt → Prop :=
  Via (Stmt.allDown K.down) fun ss => K.closed ∧ BlockFrom K.passed p.depth p.body ss

/-- Two functions that were read. -/
abbrev ofFunction (K : Pairing) : Function → Function → Prop :=
  Via (Function.down K.down) fun f => K.closed ∧ FunctionFrom K.passed f

/-- Two statements or functions that were read. -/
abbrev ofItem (p : K.Spot) : Item → Item → Prop :=
  Via (Item.down K.down) fun i =>
    ItemFrom K.passed p.depth p.body i ∧ ∀ f, i = .function f → K.closed

lemma sendData_keeps (hK : K.Lawful) (fuel fuel' σ) (hσ : At p σ) (lσ : Enough 1 1 σ fuel fuel') :
    Keeps p 0 (fun r r' => r' = (Expr.allDown K.down r.1, r.2.map (Pos.down K.down))
      ∧ ∀ e ∈ r.1, ExprFrom K.passed e) (sendData fuel) (sendData fuel') σ := by
  induction fuel generalizing fuel' σ with
  | zero => omega
  | succ fuel ih =>
    cases fuel' with
    | zero => omega
    | succ fuel' =>
      rw [sendData, sendData]
      refine hK.ifEat hσ rfl rfl fun more σ1 h1 l1 => ?_
      cases more with
      | false => exact .pure ⟨rfl, forall_mem_nil _⟩ h1
      | true =>
        refine Keeps.get (Keeps.ite ?_ (fun hext => ?_) fun _ => ?_)
        · simp only [Bool.and_eq_true, beq_iff_eq]
          rw [hK.kind_iff h1 (by simp) rfl]
          refine and_congr_right fun hkind => ?_
          have hne : σ1.1.current.kind ≠ .eof := by rw [hkind]; simp
          have hcurrent := (hK.meets h1.states hne).1
          rw [nextKind_eq hne, nextKind_eq (by rwa [hcurrent])]
          exact hK.kind_iff (hK.at_advance h1 (hkind ▸ rfl)) (by simp) rfl
        · exact hK.pass h1 (eq_of_beq ((Bool.and_eq_true _ _).mp hext).1) rfl
            fun σ2 h2 _ => .pure ⟨rfl, forall_mem_nil _⟩ h2
        · refine (expression_keeps hK h1).via fun first σ2 hfirst h2 l2 => ?_
          refine (ih fuel' σ2 h2 (by omega)).map ?_
          rintro ⟨data, extended⟩ _ ⟨rfl, hdata⟩
          exact ⟨rfl, forall_mem_cons.mpr ⟨hfirst, hdata⟩⟩

/-- Parameters are names, and none is read twice. -/
lemma parameters_keeps (hK : K.Lawful) (fuel fuel' seen) (hseen : ∀ n ∈ seen, NameFrom K.passed n)
    (hdistinct : seen.Nodup) (σ) (hσ : At p σ) (lσ : Enough 1 1 σ fuel fuel') :
    Keeps p 1 (fun ns ns' => ns' = ns ∧ (∀ n ∈ ns, NameFrom K.passed n) ∧ ns.Nodup)
      (parameters fuel seen) (parameters fuel' seen) σ := by
  -- what was read so far is the invariant: all names, all different
  induction fuel generalizing fuel' seen σ with
  | zero => omega
  | succ fuel ih =>
    cases fuel' with
    | zero => omega
    | succ fuel' =>
      rw [parameters, parameters]
      refine (hK.expect _ hσ rfl rfl).bind ?_
      rintro t _ σ1 ⟨rfl, ht, hkind⟩ h1 l1
      refine Keeps.ite Iff.rfl (fun _ => hK.failAt h1 (by simp [kind])) fun hnew => ?_
      have hnotMem : t.text ∉ seen := fun hmem => hnew (contains_iff_mem.mpr hmem)
      have hnames : ∀ n ∈ seen ++ [t.text], NameFrom K.passed n :=
        forall_mem_append.mpr ⟨hseen, forall_mem_singleton.mpr ⟨t, ht, hkind, rfl⟩⟩
      have hnodup : (seen ++ [t.text]).Nodup := by
        refine nodup_append.mpr ⟨hdistinct, pairwise_singleton _ _, ?_⟩
        intro a ha b hb hab
        rw [mem_singleton.mp hb] at hab
        exact hnotMem (hab ▸ ha)
      refine hK.ifEat h1 rfl rfl fun more σ2 h2 l2 => ?_
      cases more with
      | false => exact .pure ⟨rfl, hnames, hnodup⟩ h2
      | true => exact (ih fuel' _ hnames hnodup σ2 h2 (by omega)).mono (Nat.zero_le 1)

lemma declaration_keeps (hK : K.Lawful) (pos : Pos) (hσ : At p σ)
    (hkind : σ.1.current.kind = .keyword .var) :
    Keeps p 1 (ofStmt p) (declaration pos) (declaration (pos.down K.down)) σ := by
  refine hK.pass hσ hkind rfl fun σ1 h1 _ => ?_
  refine (hK.expect _ h1 rfl rfl).bind ?_
  rintro t _ σ2 ⟨rfl, ht, hkind⟩ h2 -
  have hname : NameFrom K.passed t.text := ⟨t, ht, hkind, rfl⟩
  refine hK.ifEat h2 rfl rfl fun more σ3 h3 _ => ?_
  cases more with
  | false => exact .pure ⟨rfl, .declare hname (by simp)⟩ h3
  | true =>
    exact (expression_keeps hK h3).last fun value hvalue =>
      ⟨rfl, .declare hname fun e he => Option.some.inj he ▸ hvalue⟩

lemma assignOperator?_none (kind) (h : ∀ sym, kind ≠ .symbol sym) :
    assignOperator? kind = none := by
  cases kind with
  | symbol sym => exact absurd rfl (h sym)
  | _ => rfl

lemma isInner_of_assignOperator? {op} (h : assignOperator? kind = some op) : isInner kind := by
  unfold assignOperator? at h
  split at h
  case h_6 => cases h
  all_goals rfl

lemma assignment_keeps (hK : K.Lawful) (pos : Pos) {op} (hσ : At p σ)
    (hkind : σ.1.current.kind = .name) (hop : assignOperator? σ.1.nextKind = some op) :
    Keeps p 1 (ofStmt p) (assignment pos op) (assignment (pos.down K.down) op) σ := by
  have hinner : isInner σ.1.current.kind := hkind ▸ rfl
  have hne := isInner_end hinner
  obtain ⟨hcurrent, hpassed⟩ := hK.meets hσ.states hne
  rw [nextKind_eq hne] at hop
  have hrun : ∀ s pos, assignment pos op s = (advance >>= fun _ =>
      do return Stmt.assign pos s.current.text op (← expression)) s.advance := fun _ _ => rfl
  unfold Keeps
  rw [hrun, hrun, hcurrent]
  refine Ends.after (τ := (σ.1.advance, σ.2.advance)) (k := 0) ?_ (moved_advance hne)
    (moved_advance (by rwa [hcurrent])) (Nat.le_refl 1)
  refine hK.pass (hK.at_advance hσ hinner) rfl (isInner_of_assignOperator? hop) fun σ2 h2 _ => ?_
  exact (expression_keeps hK h2).last fun value hvalue =>
    ⟨rfl, .assign ⟨_, hpassed, hkind, rfl⟩ hvalue⟩

lemma sendStatement_keeps (hK : K.Lawful) (pos) (hσ : At p σ)
    (hkind : σ.1.current.kind = .keyword .send) :
    Keeps p 1 (ofStmt p) (sendStatement pos) (sendStatement (pos.down K.down)) σ := by
  refine hK.pass hσ hkind rfl fun σ1 h1 _ => ?_
  refine hK.symbol h1 rfl fun σ2 h2 _ => ?_
  refine (expression_keeps hK h2).via fun id σ3 hid h3 _ => ?_
  refine Keeps.get ((sendData_keeps hK _ _ σ3 h3 (by omega)).bind ?_)
  rintro ⟨data, extended⟩ _ σ4 ⟨rfl, hdata⟩ h4 -
  exact hK.closing h4 rfl ⟨rfl, .send hid hdata⟩

lemma jump_keeps (hK : K.Lawful) (pos) {statement keyword} (hσ : At p σ)
    (hkind : σ.1.current.kind = .keyword keyword)
    (hdown : ∀ q, (statement q).down K.down = statement (q.down K.down))
    (hstatement : 0 < p.depth → StmtFrom K.passed p.depth p.body (statement pos)) :
    Keeps p 1 (ofStmt p) (jump pos statement) (jump (pos.down K.down) statement) σ := by
  refine hK.pass hσ hkind rfl fun σ1 h1 _ => ?_
  refine Keeps.get (Keeps.ite (by rw [h1.depth.1, h1.depth.2]) (fun _ => ?_) fun hloop => ?_)
  · exact hK.failAt h1 (by simp [kind])
  · rw [h1.depth.1, beq_iff_eq] at hloop
    exact .pure ⟨(hdown pos).symm, hstatement (Nat.pos_of_ne_zero hloop)⟩ h1

lemma returnStatement_keeps (hK : K.Lawful) (pos : Pos) (hσ : At p σ)
    (hkind : σ.1.current.kind = .keyword .giveBack) :
    Keeps p 1 (ofStmt p) (returnStatement pos) (returnStatement (pos.down K.down)) σ := by
  have hpassed := (hK.meets hσ.states (by rw [hkind]; simp)).2
  refine hK.pass hσ hkind rfl fun σ1 h1 _ => ?_
  refine Keeps.get (Keeps.ite (by rw [h1.body.1, h1.body.2]) (fun _ => ?_) fun hbody => ?_)
  · exact hK.failAt h1 (by simp [kind])
  have hfrom : ∀ value, (∀ e, value = some e → ExprFrom K.passed e) →
      StmtFrom K.passed p.depth p.body (.giveBack pos value) := by
    intro value hvalue
    rw [h1.body.1] at hbody
    rw [show p.body = true by simpa using hbody]
    exact .giveBack hvalue
  refine Keeps.peek (Keeps.ite ?_ (fun _ => ?_) fun _ => ?_)
  · rw [Token.down_pos, Pos.down_line, hK.returns h1.states hpassed]
  · exact .pure ⟨rfl, hfrom none (by simp)⟩ h1
  · exact (expression_keeps hK h1).last fun value hvalue =>
      ⟨rfl, hfrom _ fun e he => Option.some.inj he ▸ hvalue⟩

/-- The contracts of all readers of statements with two budgets.  Eight steps are enough for each
    token. -/
structure Statements (K : Pairing) (fuel fuel' : Nat) : Prop where
  item : ∀ (p : K.Spot) σ, At p σ → σ.2.current = σ.1.current.down K.down →
    Enough 8 3 σ fuel fuel' → Keeps p 1 (ofItem p) (Parse.item fuel) (Parse.item fuel') σ
  itemBody : ∀ (p : K.Spot) σ, At p σ → σ.2.current = σ.1.current.down K.down →
    Enough 8 2 σ fuel fuel' → Keeps p 1 (ofItem p) (Parse.itemBody fuel) (Parse.itemBody fuel') σ
  block : ∀ (p : K.Spot) σ, At p σ → Enough 8 1 σ fuel fuel' →
    Keeps p 1 (ofBlock p) (Parse.block fuel) (Parse.block fuel') σ
  -- the rest of a block starts inside of it and ends behind it
  blockRest : ∀ p σ, At p σ → σ.1.current.kind = .symbol .leftBrace → ∀ τ, Kept p τ →
    K.states (K.inside p.site σ) τ ∨ K.lost (K.inside p.site σ) τ → Enough 8 4 τ fuel fuel' →
    Keeps p 0 (ofBlock p) (Parse.blockRest fuel) (Parse.blockRest fuel') τ
  branch : ∀ (p : K.Spot) σ, At p σ → K.closed → Enough 8 4 σ fuel fuel' →
    Keeps p 1 (ofBlock p) (Parse.branch fuel) (Parse.branch fuel') σ
  waitStatement : ∀ (p : K.Spot) σ pos, At p σ → σ.1.current.kind = .keyword .waitFor →
    Enough 8 1 σ fuel fuel' → Keeps p 1 (ofStmt p) (Parse.waitStatement fuel pos)
      (Parse.waitStatement fuel' (pos.down K.down)) σ
  function : ∀ (p : K.Spot) σ pos, At p σ → σ.1.current.kind = .keyword .function →
    Enough 8 1 σ fuel fuel' → Keeps p 1 (ofFunction K) (Parse.function fuel pos)
      (Parse.function fuel' (pos.down K.down)) σ

lemma itemBody_keeps (hK : K.Lawful) (h : Statements K fuel fuel') (p : K.Spot) (σ) (hσ : At p σ)
    (hcurrent : σ.2.current = σ.1.current.down K.down) (lσ : Enough 8 2 σ (fuel + 1) (fuel' + 1)) :
    Keeps p 1 (ofItem p) (itemBody (fuel + 1)) (itemBody (fuel' + 1)) σ := by
  have hitem : ∀ {st st' : Stmt}, ofStmt p st st' → ofItem p (.stmt st) (.stmt st') := by
    rintro st _ ⟨rfl, hst⟩
    exact ⟨rfl, .stmt hst, fun _ hf => by cases hf⟩
  have hstmt : ∀ {x x' : Reader Stmt}, Keeps p 1 (ofStmt p) x x' σ →
      Keeps p 1 (ofItem p) (do return .stmt (← x)) (do return .stmt (← x')) σ :=
    fun hx => hx.map fun _ _ => hitem
  have heval : Keeps p 1 (ofItem p) (do return .stmt (.eval σ.1.current.pos (← expression)))
      (do return .stmt (.eval (σ.1.current.pos.down K.down) (← expression))) σ := by
    refine (expression_keeps hK hσ).map ?_
    rintro value _ ⟨rfl, hvalue⟩
    exact hitem ⟨rfl, .eval hvalue⟩
  rw [itemBody, itemBody]
  refine Keeps.get ?_
  simp only [hcurrent, Token.down_kind, Token.down_pos, Token.down_text]
  split
  · next hkind => exact hstmt (declaration_keeps hK _ hσ hkind)
  · next hkind => exact hstmt (sendStatement_keeps hK _ hσ hkind)
  · next hkind =>
      refine hK.pass hσ hkind rfl fun σ1 h1 _ => ?_
      exact (expression_keeps hK h1).last fun duration hduration => hitem ⟨rfl, .delay hduration⟩
  · next hkind =>
      refine hK.pass hσ hkind rfl fun σ1 h1 l1 => ?_
      refine (expression_keeps hK h1).via fun count σ2 hcount h2 l2 => ?_
      exact (hK.insideLoop h2 fun τ hτ _ => h.block _ τ hτ (by omega)).last fun body hbody =>
        hitem ⟨rfl, .times hcount hbody.2⟩
  · next hkind =>
      refine hK.pass hσ hkind rfl fun σ1 h1 l1 => ?_
      exact (hK.insideLoop h1 fun τ hτ _ => h.block _ τ hτ (by omega)).last fun body hbody =>
        hitem ⟨rfl, .forever hbody.2⟩
  · next hkind =>
      -- a condition stands only where the readings have the same end
      have hclosed := hK.closes (hK.meets hσ.states (by rw [hkind]; simp)).2 (.inr hkind)
      refine hK.pass hσ hkind rfl fun σ1 h1 l1 => ?_
      refine (expression_keeps hK h1).via fun condition σ2 hcondition h2 l2 => ?_
      refine (h.branch p σ2 h2 hclosed (by omega)).via fun yes σ3 hyes h3 l3 => ?_
      refine hK.ifEat h3 rfl rfl fun more σ4 h4 l4 => ?_
      cases more with
      | false => exact .pure (hitem ⟨rfl, .when hcondition hyes.2 (by simp)⟩) h4
      | true =>
        exact (h.branch p σ4 h4 hclosed (by omega)).last fun no hno =>
          hitem ⟨rfl, .when hcondition hyes.2 fun block hblock => Option.some.inj hblock ▸ hno.2⟩
  · next hkind => exact hstmt (h.waitStatement p σ _ hσ hkind (by omega))
  · next hkind =>
      refine (h.function p σ _ hσ hkind (by omega)).map ?_
      rintro f _ ⟨rfl, hclosed, hf⟩
      exact ⟨rfl, .function hf, fun _ _ => hclosed⟩
  · next hkind => exact hstmt (returnStatement_keeps hK _ hσ hkind)
  · next hkind => exact hstmt (jump_keeps hK _ hσ hkind (fun _ => rfl) .leave)
  · next hkind => exact hstmt (jump_keeps hK _ hσ hkind (fun _ => rfl) .again)
  · next hkind =>
      refine hK.pass hσ hkind rfl fun σ1 h1 _ => ?_
      exact (expression_keeps hK h1).last fun value hvalue => hitem ⟨rfl, .print hvalue⟩
  · exact hK.failAt hσ (by simp [kind])
  · exact hK.failAt hσ (by simp [kind])
  · next hkind =>
      have hne : σ.1.current.kind ≠ .eof := by rw [hkind]; simp
      rw [nextKind_eq (s := σ.2) (by rwa [hcurrent]),
        hK.lookup_eq (hK.at_advance hσ (hkind ▸ rfl)) assignOperator?_none, ← nextKind_eq hne]
      split
      · next op hop => exact hstmt (assignment_keeps hK _ hσ hkind hop)
      · exact heval
  · exact heval

lemma expectSymbol_of_kind {sym what s} (h : s.current.kind = .symbol sym) :
    expectSymbol sym what s = (.ok (), s.advance) := by
  have hexpect : expect (.symbol sym) what s = (.ok s.current, s.advance) := by
    show (if s.current.kind == .symbol sym then advance else failExpected what) s = _
    rw [if_pos (beq_iff_eq.mpr h)]
    rfl
  unfold expectSymbol
  rw [bind_apply, hexpect]
  rfl

lemma block_keeps (hK : K.Lawful) (h : Statements K fuel fuel') (p : K.Spot) (σ) (hσ : At p σ)
    (lσ : Enough 8 1 σ (fuel + 1) (fuel' + 1)) :
    Keeps p 1 (ofBlock p) (block (fuel + 1)) (block (fuel' + 1)) σ := by
  rw [block, block]
  by_cases hopen : σ.1.current.kind = .symbol .leftBrace
  · have hne : σ.1.current.kind ≠ .eof := by rw [hopen]; simp
    have hcurrent := (hK.meets hσ.states hne).1
    have hm := moved_advance hne
    have hm' : Moved 1 σ.2 σ.2.advance := moved_advance (by rwa [hcurrent])
    have hle := hm.length_le
    have hle' := hm'.length_le
    unfold Keeps
    rw [bind_apply, expectSymbol_of_kind hopen, bind_apply,
      expectSymbol_of_kind (by rwa [hcurrent])]
    exact Ends.after (h.blockRest p σ hσ hopen (σ.1.advance, σ.2.advance) hσ.toKept.advance
      (.inl (hK.enter hσ.states hopen)) (by dsimp only [Enough]; omega)) hm hm' (Nat.le_refl 1)
  · have hfail : Keeps p 1 (fun _ _ => False) (expect (.symbol .leftBrace) "'\x7b'")
        (expect (.symbol .leftBrace) "'\x7b'") σ :=
      Keeps.peekKind (hK.ifKind hσ (by simp) rfl (fun hkind => absurd hkind hopen) fun _ =>
        hK.failExpected _ hσ)
    have hbrace : Keeps p 1 (fun _ _ => False) (expectSymbol .leftBrace "'\x7b'")
        (expectSymbol .leftBrace "'\x7b'") σ :=
      hfail.bind fun _ _ _ hfalse _ _ => hfalse.elim
    exact hbrace.bind fun _ _ _ hfalse _ _ => hfalse.elim

lemma blockRest_end {s} (hend : s.current.kind = .eof) : blockRest (fuel + 1) s
      = (.error (.fault (unclosedBlock.toDiagnostic s.current.pos)), s) := by
  rw [blockRest]
  show (if s.current.kind == .symbol .rightBrace then _ else if
    (s.current.kind == .eof) then _ else _ : Reader (List Stmt)) s = _
  rw [hend]
  rfl

/-- The statements of a block are passed one by one, each inside of the block, whether it can be
    read or not. -/
lemma blockRest_keeps (hK : K.Lawful) (h : Statements K fuel fuel') (p σ) (hσ : At p σ)
    (hopen : σ.1.current.kind = .symbol .leftBrace) (τ) (hkept : Kept p τ)
    (hτ : K.states (K.inside p.site σ) τ ∨ K.lost (K.inside p.site σ) τ)
    (lτ : Enough 8 4 τ (fuel + 1) (fuel' + 1)) :
    Keeps p 0 (ofBlock p) (blockRest (fuel + 1)) (blockRest (fuel' + 1)) τ := by
  have hclosed := hK.closes (hK.meets hσ.states (by rw [hopen]; simp)).2 (.inl hopen)
  by_cases hend : τ.1.current.kind = .eof
  · have hend' : τ.2.current.kind = .eof := by
      rcases hτ with hstates | hlost
      · rw [hK.same hclosed hstates]
        exact hend
      · exact (hK.lost_ends hlost).2
    unfold Keeps
    rw [blockRest_end hend, blockRest_end hend']
    exact .fault (hK.unclosed hσ.states hopen hτ hend) hkept (.refl _) (.refl _)
  have hstates : K.states (K.inside p.site σ) τ :=
    hτ.resolve_right fun hlost => hend (hK.lost_ends hlost).1
  have hcurrent := (hK.meets hstates hend).1
  have hend' : τ.2.current.kind ≠ .eof := by rwa [hcurrent]
  have hm := moved_advance hend
  have hm' := moved_advance hend'
  have hle := hm.length_le
  have hle' := hm'.length_le
  rw [blockRest, blockRest]
  refine Keeps.peek ?_
  simp only [hcurrent, Token.down_kind, Token.down_pos]
  refine Keeps.ite Iff.rfl (fun hclose => ?_) fun hclose => ?_
  · exact .ok ⟨rfl, hclosed, forall_mem_nil _⟩
      ⟨hkept.advance, hK.leave hσ.states hopen hstates (eq_of_beq hclose)⟩
      (hm.mono (Nat.zero_le 1)) (hm'.mono (Nat.zero_le 1))
  refine Keeps.ite Iff.rfl (fun heof => absurd (eq_of_beq heof) hend) fun _ => ?_
  refine Keeps.ite Iff.rfl (fun hsemi => ?_) fun _ => ?_
  · have hinner : isInner τ.1.current.kind = true := by rw [eq_of_beq hsemi]; rfl
    exact Ends.after (h.blockRest p σ hσ hopen (τ.1.advance, τ.2.advance) hkept.advance
      (.inl (hK.advance hstates hinner)) (by dsimp only [Enough]; omega)) hm hm' (Nat.zero_le _)
  -- one statement inside of the block
  have hat : At (⟨K.inside p.site σ, p.depth, p.body⟩ : K.Spot) τ := ⟨⟨hkept.depth, hkept.body⟩,
    hstates⟩
  obtain ⟨o, o', υ, hrun, hrun', ho, hkept', hυ, hm, hm'⟩ :=
    hK.recovering hat hend (by simpa using hclose) (h.item _ τ hat hcurrent (by omega))
  have hle := hm.length_le
  have hle' := hm'.length_le
  have hkept' : Kept p υ := ⟨hkept'.depth, hkept'.body⟩
  unfold Keeps
  rw [bind_apply, hrun, bind_apply, hrun']
  cases ho with
  | none =>
    exact Ends.after (h.blockRest p σ hσ hopen υ hkept' (hυ.imp_right And.right) (by omega)) hm hm'
      (Nat.zero_le _)
  | @some read read' hread =>
    have hin : K.states (K.inside p.site σ) υ := hυ.resolve_right fun hnone => by cases hnone.1
    clear hυ
    obtain ⟨rfl, hfrom, -⟩ := hread
    cases hfrom with
    | stmt hst =>
      have hrest := h.blockRest p σ hσ hopen υ hkept' (.inl hin) (by omega)
      refine Ends.after (hrest.map ?_) hm hm' (Nat.zero_le _)
      rintro rest _ ⟨rfl, -, hrest⟩
      exact ⟨rfl, hclosed, forall_mem_cons.mpr ⟨hst, hrest⟩⟩
    | @function f hf =>
      have lυ : Enough 8 4 υ fuel fuel' := by omega
      exact Ends.after (h.blockRest p σ hσ hopen (υ.1.report (.nestedFunction f.name) f.pos,
        υ.2.report (.nestedFunction f.name) (f.pos.down K.down)) ⟨hkept'.depth, hkept'.body⟩
        (.inl (hK.report f.pos hin (by simp [kind]))) lυ) hm hm' (Nat.zero_le _)

lemma function_keeps (hK : K.Lawful) (h : Statements K fuel fuel') (p : K.Spot) (σ pos)
    (hσ : At p σ) (hkind : σ.1.current.kind = .keyword .function)
    (lσ : Enough 8 1 σ (fuel + 1) (fuel' + 1)) : Keeps p 1 (ofFunction K) (function (fuel + 1) pos)
      (function (fuel' + 1) (pos.down K.down)) σ := by
  rw [function, function]
  refine hK.pass hσ hkind rfl fun σ1 h1 l1 => ?_
  refine (hK.expect _ h1 rfl rfl).bind ?_
  rintro name _ σ2 ⟨rfl, hname, hkind⟩ h2 l2
  refine hK.symbol h2 rfl fun σ3 h3 l3 => ?_
  -- with and without parameters the readers go on in the same way
  have hrest : ∀ params, (∀ n ∈ params, NameFrom K.passed n) ∧ params.Nodup → ∀ τ, At p τ →
      Fewer 0 σ3 τ → Keeps p 0 (ofFunction K) (do
          expectSymbol .rightParen "')' after parameters"
          let body ← insideBody (block fuel)
          return (⟨pos, name.text, params, body⟩ : Function))
        (do
          expectSymbol .rightParen "')' after parameters"
          let body ← insideBody (block fuel')
          return (⟨pos.down K.down, name.text, params, body⟩ : Function)) τ := by
    intro params hparams τ hτ lτ
    refine hK.symbol hτ rfl fun σ4 h4 l4 => ?_
    exact (hK.insideBody h4 fun υ hυ _ => h.block _ υ hυ (by omega)).last fun body hbody =>
      ⟨rfl, hbody.1, ⟨name, hname, hkind, rfl⟩, hparams.1, hparams.2, hbody.2⟩
  refine Keeps.peekKind (hK.ifKind h3 (by simp) rfl (fun _ => ?_) fun _ => ?_)
  · exact hrest [] ⟨forall_mem_nil _, nodup_nil⟩ σ3 h3 (by omega)
  · refine Keeps.get ((parameters_keeps hK _ _ [] (forall_mem_nil _) nodup_nil σ3 h3
      (by omega)).bind ?_)
    rintro params _ σ4 ⟨rfl, hparams⟩ h4 l4
    exact hrest _ hparams σ4 h4 (by omega)

lemma Statements.step (hK : K.Lawful) (h : Statements K fuel fuel') :
    Statements K (fuel + 1) (fuel' + 1) where
  item p σ hσ hcurrent lσ := by
    rw [Parse.item, Parse.item]
    refine (h.itemBody p σ hσ hcurrent (by omega)).bind fun read read' σ1 hread h1 _ => ?_
    exact (hK.eat h1 rfl rfl).map fun _ _ _ => hread
  itemBody := itemBody_keeps hK h
  block := block_keeps hK h
  blockRest := blockRest_keeps hK h
  branch p σ hσ hclosed lσ := by
    have hcurrent := hK.same hclosed hσ.states
    rw [Parse.branch, Parse.branch]
    refine Keeps.peek ?_
    simp only [hcurrent, Token.down_kind, Token.down_pos]
    refine Keeps.ite Iff.rfl (fun _ => h.block p σ hσ (by omega)) fun _ => ?_
    refine (h.item p σ hσ hcurrent (by omega)).bind ?_
    rintro read _ σ1 ⟨rfl, hread, -⟩ h1 -
    cases hread with
    | stmt hst => exact .pure ⟨rfl, hclosed, forall_mem_singleton.mpr hst⟩ h1
    | function _ => exact hK.failAt h1 (by simp [kind])
  waitStatement p σ pos hσ hkind lσ := by
    rw [Parse.waitStatement, Parse.waitStatement]
    refine hK.pass hσ hkind rfl fun σ1 h1 l1 => ?_
    refine hK.symbol h1 rfl fun σ2 h2 l2 => ?_
    refine (expression_keeps hK h2).via fun predicate σ3 hpredicate h3 l3 => ?_
    refine hK.symbol h3 rfl fun σ4 h4 l4 => ?_
    refine Keeps.peek (Keeps.ite ?_ (fun _ => ?_) fun hfound => ?_)
    · simp only [bne_iff_ne]
      exact not_congr (hK.kind_iff h4 (by simp) rfl)
    · exact .fault (hK.noTimeout h4.states) h4.toKept (.refl _) (.refl _)
    refine hK.pass h4 (by simpa using hfound) rfl fun σ5 h5 l5 => ?_
    refine hK.symbol h5 rfl fun σ6 h6 l6 => ?_
    refine (expression_keeps hK h6).via fun timeout σ7 htimeout h7 l7 => ?_
    refine hK.symbol h7 rfl fun σ8 h8 l8 => ?_
    refine Keeps.peekKind (hK.ifKind h8 (by simp) rfl (fun _ => ?_) fun _ => ?_)
    · exact (h.block p σ8 h8 (by omega)).last fun fallback hfallback =>
        ⟨rfl, .waitFor hpredicate htimeout fun block hblock => Option.some.inj hblock ▸ hfallback.2⟩
    · exact .pure ⟨rfl, .waitFor hpredicate htimeout (by simp)⟩ h8
  function := function_keeps hK h

lemma statements_keep (hK : K.Lawful) (fuel fuel' : Nat) : Statements K fuel fuel' := by
  induction fuel generalizing fuel' with
  | zero => refine ⟨?_, ?_, ?_, ?_, ?_, ?_, ?_⟩ <;> intros <;> omega
  | succ fuel ih =>
    cases fuel' with
    | zero => refine ⟨?_, ?_, ?_, ?_, ?_, ?_, ?_⟩ <;> intros <;> omega
    | succ fuel' => exact (ih fuel').step hK

end Statements

/-! ## Declarations -/

section Declarations

/-- A part of a program: a handler, or what stands where a statement may. -/
inductive Part where
  | receive (h : ReceiveHandler)
  | interval (h : IntervalHandler)
  | item (i : Item)

/-- A part some lines further down. -/
def Part.down (k : Nat) : Part → Part
  | .receive h => .receive (h.down k)
  | .interval h => .interval (h.down k)
  | .item i => .item (i.down k)

def Part.addTo (q : Program) : Part → Program
  | .receive h => { q with receiveHandlers := q.receiveHandlers ++ [h] }
  | .interval h => { q with intervalHandlers := q.intervalHandlers ++ [h] }
  | .item (.stmt st) => { q with statements := q.statements ++ [st] }
  | .item (.function f) => { q with functions := q.functions ++ [f] }

/-- A part with names and literals from tokens. -/
inductive PartFrom (τ : Token → Prop) : Part → Prop where
  | receive {h} : ReceiveFrom τ h → PartFrom τ (.receive h)
  | interval {h} : IntervalFrom τ h → PartFrom τ (.interval h)
  | item {i} : ItemFrom τ 0 false i → PartFrom τ (.item i)

def Part.isStmt : Part → Bool
  | .item (.stmt _) => true
  | _ => false

def Extends (K : Pairing) (q q' r r' : Program) : Prop :=
  ∃ part : Part, r = part.addTo q ∧ r' = (part.down K.down).addTo q' ∧ PartFrom K.passed part ∧
    (part.isStmt = false → K.closed)

variable {i : K.Site}

lemma handler_keeps (hK : K.Lawful) (hσ : At p σ) {opening closing} {γ : Type}
    {make : Pos → Expr → List Stmt → γ} {V} (hkind : σ.1.current.kind = kind)
    (hinner : isInner kind = true)
    (hV : ∀ pos e body, K.closed → ExprFrom K.passed e → BlockFrom K.passed 0 true body →
      V (make pos e body) (make (pos.down K.down) (e.down K.down) (Stmt.allDown K.down body))) :
    let read : Reader γ := do
      let t ← advance
      expectSymbol .leftParen opening
      let e ← expression
      expectSymbol .rightParen closing
      let body ← insideBody (block (← statementBudget))
      return make t.pos e body
    Keeps p 1 V read read σ := by
  refine hK.pass hσ hkind hinner fun σ1 h1 _ => ?_
  refine hK.symbol h1 rfl fun σ2 h2 _ => ?_
  refine (expression_keeps hK h2).via fun e σ3 he h3 _ => ?_
  refine hK.symbol h3 rfl fun σ4 h4 _ => ?_
  exact Keeps.get ((hK.insideBody h4 fun υ hυ _ => (statements_keep hK _ _).block _ υ hυ
    (by omega)).last fun body hbody => hV _ e body hbody.1 he hbody.2)

/-- A declaration or a statement is one part more of both programs. -/
lemma topLevel_keeps (hK : K.Lawful) (hσ : At (⟨i, 0, false⟩ : K.Spot) σ)
    (hcurrent : σ.2.current = σ.1.current.down K.down) (q q') :
    Keeps (⟨i, 0, false⟩ : K.Spot) 1 (Extends K q q') (topLevel q) (topLevel q') σ := by
  refine Keeps.peekKind ?_
  simp only [hcurrent, Token.down_kind]
  split
  · next hkind =>
      refine (handler_keeps hK hσ (V := fun h h' => h' = h.down K.down ∧ K.closed ∧
        ReceiveFrom K.passed h) hkind rfl fun pos e body hclosed he hbody =>
          ⟨rfl, hclosed, he, hbody⟩).map ?_
      rintro h _ ⟨rfl, hclosed, hh⟩
      exact ⟨.receive h, rfl, rfl, .receive hh, fun _ => hclosed⟩
  · next hkind =>
      refine (handler_keeps hK hσ (V := fun h h' => h' = h.down K.down ∧ K.closed ∧
        IntervalFrom K.passed h) hkind rfl fun pos e body hclosed he hbody =>
          ⟨rfl, hclosed, he, hbody⟩).map ?_
      rintro h _ ⟨rfl, hclosed, hh⟩
      exact ⟨.interval h, rfl, rfl, .interval hh, fun _ => hclosed⟩
  · refine Keeps.get (((statements_keep hK _ _).item _ σ hσ hcurrent (by omega)).bind ?_)
    rintro read _ σ1 ⟨rfl, hread, hfunction⟩ h1 -
    cases hread with
    | stmt hst =>
      refine .pure ⟨.item (.stmt _), rfl, rfl, .item (.stmt hst), fun hnot => ?_⟩ h1
      cases hnot
    | function hf =>
      exact .pure ⟨.item (.function _), rfl, rfl, .item (.function hf), fun _ =>
        hfunction _ rfl⟩ h1

end Declarations

end CanScript.Parse.Pairing
