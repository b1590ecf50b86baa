import CanScript.Proofs.Grammar

/-! # The grammar of statements

    Which statement some tokens stand for, when every block is in braces and every statement inside
    of one ends with a semicolon.  As with expressions, the readers accept every sentence of this
    grammar, with the places of its tokens, and without a fault. -/

namespace CanScript.Parse

open List Parse

/-! ## Where statements end -/

/-- A statement that ends with `last` does not go on with `next`. -/
structure EndsStmt (last next : Token) : Prop where
  expr : EndsExpr last next
  value : endsReturn last.pos.line next = true
  assign : assignOperator? next.kind = none
  otherwise : next.kind ≠ .keyword .otherwise
  brace : next.kind ≠ .symbol .leftBrace

variable {last : Token} {s : State} {more rest : List Token} {f : Nat} {es : List Expr}
  {x : Option Pos}

lemma EndsStmt.of_semicolon {next} (h : next.kind = .symbol .semicolon) : EndsStmt last next where
  expr := .of_closes (by rw [h]; rfl)
  value := by simp [endsReturn, h]
  assign := by rw [h]; rfl
  otherwise := by simp [h]
  brace := by simp [h]

/-! ## Sentences -/

/-- The data of a `send` after its id, and the place of the word that asks for an extended frame.
    That word at the end is no data unless it stands in brackets. -/
inductive DataReads : List Expr → Option Pos → List Token → Prop where
  | none : DataReads [] none []
  | extended {comma t : Token} : comma.kind = .symbol .comma → t.kind = .keyword .ext →
      DataReads [] (some t.pos) [comma, t]
  | item {e es x ts rest} {comma : Token} : comma.kind = .symbol .comma → Reads (.ternary e) ts →
      (rest = [] → ts.map (·.kind) ≠ [.keyword .ext]) → DataReads es x rest →
      DataReads (e :: es) x (comma :: (ts ++ rest))

/-- Something that a reader of statements looks for, and what it stands for: a statement, a block in
    braces, or what is left of a block. -/
inductive Clause where
  | stmt (s : Stmt)
  | block (ss : List Stmt)
  | rest (ss : List Stmt)

/-- The tokens of a clause, given how many loops of the same body are around it and whether it
    stands in a body. -/
inductive Sentence : Nat → Bool → Clause → List Token → Prop where
  | declare {d b} {k n : Token} : k.kind = .keyword .var → n.kind = .name →
      Sentence d b (.stmt (.declare k.pos n.text none)) [k, n]
  | declareAs {d b} {k n a : Token} {e ts} :
      k.kind = .keyword .var → n.kind = .name → a.kind = .symbol .assign → Reads (.ternary e) ts →
      Sentence d b (.stmt (.declare k.pos n.text (some e))) (k :: n :: a :: ts)
  | assign {d b} {n a : Token} {op e ts} :
      n.kind = .name → assignOperator? a.kind = some op → Reads (.ternary e) ts →
      Sentence d b (.stmt (.assign n.pos n.text op e)) (n :: a :: ts)
  | send {d b} {k o c : Token} {id es x}
      {is ds} : k.kind = .keyword .send → o.kind = .symbol .leftParen →
      Reads (.ternary id) is → DataReads es x ds → c.kind = .symbol .rightParen →
      Sentence d b (.stmt (.send k.pos id es x)) (k :: o :: (is ++ (ds ++ [c])))
  | delay {d b} {k : Token} {e ts} : k.kind = .keyword .delay → Reads (.ternary e) ts →
      Sentence d b (.stmt (.delay k.pos e)) (k :: ts)
  | times {d b} {k : Token} {e ts bs ss} :
      k.kind = .keyword .times → Reads (.ternary e) ts → Sentence (d + 1) b (.block ss) bs →
      Sentence d b (.stmt (.times k.pos e ss)) (k :: (ts ++ bs))
  | forever {d b} {k : Token} {bs ss} :
      k.kind = .keyword .forever → Sentence (d + 1) b (.block ss) bs →
      Sentence d b (.stmt (.forever k.pos ss)) (k :: bs)
  | when {d b} {k : Token} {e ts bs ss} :
      k.kind = .keyword .when → Reads (.ternary e) ts → Sentence d b (.block ss) bs →
      Sentence d b (.stmt (.when k.pos e ss none)) (k :: (ts ++ bs))
  | whenElse {d b} {k o : Token} {e ts bs cs}
      {ss rs} : k.kind = .keyword .when → Reads (.ternary e) ts →
      Sentence d b (.block ss) bs → o.kind = .keyword .otherwise → Sentence d b (.block rs) cs →
      Sentence d b (.stmt (.when k.pos e ss (some rs))) (k :: (ts ++ (bs ++ o :: cs)))
  | waitFor {d b} {k o c w wo wc : Token} {p m ps ms} :
      k.kind = .keyword .waitFor → o.kind = .symbol .leftParen → Reads (.ternary p) ps →
      c.kind = .symbol .rightParen → w.kind = .keyword .timeout →
      wo.kind = .symbol .leftParen → Reads (.ternary m) ms → wc.kind = .symbol .rightParen →
      Sentence d b (.stmt (.waitFor k.pos p m none))
        (k :: o :: (ps ++ c :: w :: wo :: (ms ++ [wc])))
  | waitElse {d b} {k o c w wo wc : Token} {p m ps ms bs ss} :
      k.kind = .keyword .waitFor → o.kind = .symbol .leftParen → Reads (.ternary p) ps →
      c.kind = .symbol .rightParen → w.kind = .keyword .timeout →
      wo.kind = .symbol .leftParen → Reads (.ternary m) ms → wc.kind = .symbol .rightParen →
      Sentence d b (.block ss) bs → Sentence d b (.stmt (.waitFor k.pos p m (some ss)))
        (k :: o :: (ps ++ c :: w :: wo :: (ms ++ wc :: bs)))
  | giveBack {d} {k : Token} : k.kind = .keyword .giveBack →
      Sentence d true (.stmt (.giveBack k.pos none)) [k]
  | giveBackValue {d} {k : Token} {e ts} : k.kind = .keyword .giveBack → Reads (.ternary e) ts →
      (ts.headD k).pos.line = k.pos.line →
      Sentence d true (.stmt (.giveBack k.pos (some e))) (k :: ts)
  | leave {d b} {k : Token} : k.kind = .keyword .leave → 0 < d →
      Sentence d b (.stmt (.leave k.pos)) [k]
  | again {d b} {k : Token} : k.kind = .keyword .again → 0 < d →
      Sentence d b (.stmt (.again k.pos)) [k]
  | print {d b} {k : Token} {e ts} : k.kind = .keyword .print → Reads (.ternary e) ts →
      Sentence d b (.stmt (.print k.pos e)) (k :: ts)
  | eval {d b e t} {ts : List Token} :
      Reads (.ternary e) (t :: ts) → Sentence d b (.stmt (.eval t.pos e)) (t :: ts)
  | block {d b} {o : Token} {ss ts} : o.kind = .symbol .leftBrace → Sentence d b (.rest ss) ts →
      Sentence d b (.block ss) (o :: ts)
  | close {d b} {c : Token} : c.kind = .symbol .rightBrace → Sentence d b (.rest []) [c]
  | next {d b s ss} {semi : Token} {ts rest} :
      Sentence d b (.stmt s) ts → semi.kind = .symbol .semicolon → Sentence d b (.rest ss) rest →
      Sentence d b (.rest (s :: ss)) (ts ++ semi :: rest)

/-! ## What readers do with sentences -/

def StmtRead (d : Nat) (b : Bool) (st : Stmt) (ts : List Token) : Prop :=
  ∀ f (s : State) last (more : List Token), s.loopDepth = d → s.inBody = b →
    8 * ts.length ≤ f → EndsStmt (ts.getLastD last) (more.headD endToken) →
    Gives (itemBody f) s last ts more (.stmt st)

def BlockRead (d : Nat) (b : Bool) (ss : List Stmt) (ts : List Token) : Prop :=
  ∀ f (s : State) last more, s.loopDepth = d → s.inBody = b →
    8 * ts.length ≤ f → Gives (block f) s last ts more ss

def RestRead (d : Nat) (b : Bool) (ss : List Stmt) (ts : List Token) : Prop :=
  ∀ f (s : State) last more, s.loopDepth = d → s.inBody = b →
    8 * ts.length ≤ f → Gives (blockRest f) s last ts more ss

/-- What the reader of a clause does with its tokens. -/
def Clause.Holds (d : Nat) (b : Bool) : Clause → List Token → Prop
  | .stmt st, ts => StmtRead d b st ts
  | .block ss, ts => BlockRead d b ss ts
  | .rest ss, ts => RestRead d b ss ts

/-! ### Statements without blocks -/

section Simple

variable {d : Nat} {b : Bool} {e : Expr} {st : Stmt} {k : Token} {ts : List Token}

lemma StmtRead.of_head (h : ∀ f (s : State) last (more : List Token),
      s.loopDepth = d → s.inBody = b → 8 * ts.length + 7 ≤ f →
      EndsStmt (ts.getLastD k) (more.headD endToken) →
      Gives (itemBody (f + 1)) s last (k :: ts) more (.stmt st)) : StmtRead d b st (k :: ts) := by
  intro f s last more hdepth hbody hf hends
  rw [length_cons] at hf
  rw [getLastD_cons] at hends
  obtain _ | f := f
  · omega
  exact h f s last more hdepth hbody (by omega) hends

lemma StmtRead.of_reader {kind} (hk : k.kind = kind) (read : Pos → Reader Stmt)
    (h : ∀ s last more, s.loopDepth = d → s.inBody = b →
      EndsStmt (ts.getLastD k) (more.headD endToken) →
      Gives (read k.pos) s last (k :: ts) more st) (hitem : ∀ f (s : State), s.current.kind = kind →
      itemBody (f + 1) s = (read s.current.pos >>= fun st => pure (.stmt st)) s
        := by intro f s hs; rw [itemBody, bind_ok (get_apply _), hs]) : StmtRead d b st (k :: ts) :=
  .of_head fun f s last more hdepth hbody _ hends =>
    (hitem f (s.facing last (k :: (ts ++ more))) hk).trans
      (GoesOver.final (h s last more hdepth hbody hends))

lemma jump_gives {statement : Pos → Stmt} {kind} (hk : k.kind = kind)
    (hkind : kind ≠ .eof) (hdepth : s.loopDepth ≠ 0) :
    Gives (jump k.pos statement) s last [k] more (statement k.pos) := by
  refine .advance hk (.get ?_) hkind
  rw [if_neg (by simpa [State.facing] using hdepth)]
  rfl

lemma giveBackValue_gives (hk : k.kind = .keyword .giveBack) (he : Reads (.ternary e) ts)
    (hline : (ts.headD k).pos.line = k.pos.line) (hbody : s.inBody)
    (hends : EndsStmt (ts.getLastD k) (more.headD endToken)) :
    Gives (returnStatement k.pos) s last (k :: ts) more (.giveBack k.pos (some e)) := by
  have hvalue := he.expression s k more hends.expr
  obtain ⟨t, rest, rfl, ht⟩ := he.head
  -- the value starts on the line of the keyword, so it is not left out
  have hgoes : endsReturn k.pos.line t = false := by
    have hstart : startsExpr t.kind := ht
    have hne : ∀ kind, startsExpr kind = false → (t.kind == kind) = false := by
      intro kind hkind
      refine beq_eq_false_iff_ne.mpr fun heq => ?_
      rw [heq, hkind] at hstart
      cases hstart
    rw [headD_cons] at hline
    rw [endsReturn, hne _ rfl, hne _ rfl, hne _ rfl, hline]
    simp
  refine .advance hk (.get ?_)
  rw [if_neg (by simp [State.facing, hbody])]
  refine .peek ?_
  rw [hgoes]
  exact .final hvalue

lemma closesExpr_of_assign {kind op} (h : assignOperator? kind = some op) : closesExpr kind := by
  unfold assignOperator? at h
  split at h
  case h_6 => cases h
  all_goals rfl

lemma itemBody_expression (hstart : startsExpr s.current.kind)
    (hassign : s.current.kind = .name → assignOperator? s.nextKind = none) : itemBody (f + 1) s
      = (do return .stmt (.eval s.current.pos (← expression)) : Reader Item) s := by
  rw [itemBody, bind_ok (get_apply _)]
  cases hkind : s.current.kind with
  | keyword k =>
    rw [hkind] at hstart
    cases k with
    | yes | no | data | ext | random | randomBytes => rfl
    | _ => cases hstart
  | name =>
    dsimp only
    rw [hassign hkind]
  | _ => rfl

lemma nextKind_facing (s : State) (last t more) :
    (s.facing last (t :: more)).nextKind = (more.headD endToken).kind := by
  cases more with
  | nil => rfl
  | cons t' more => rfl

lemma eval_read (he : Reads (.ternary e) (k :: ts)) : StmtRead d b (.eval k.pos e) (k :: ts) := by
  refine .of_head fun f s last more _ _ _ hends => ?_
  have hstart : startsExpr k.kind := by
    obtain ⟨t', rest, heq, ht'⟩ := he.head
    obtain ⟨rfl, -⟩ := List.cons.inj heq
    exact ht'
  have hassign : k.kind = .name → assignOperator? ((ts ++ more).headD endToken).kind = none := by
    intro hname
    cases ts with
    | nil => exact hends.assign
    | cons t' ts =>
      -- an assignment would close the expression that goes on with it
      rw [cons_append, headD_cons]
      refine Option.eq_none_iff_forall_ne_some.mpr fun op hop => ?_
      have hsecond := he.second nofun k t' ts rfl (.inl hname)
      rw [closesExpr_of_assign hop] at hsecond
      cases hsecond
  exact (itemBody_expression (s := s.facing last (k :: (ts ++ more))) hstart
    (by rwa [nextKind_facing])).trans (GoesOver.final (he.expression s last more
      (by rw [getLastD_cons]; exact hends.expr)))

end Simple

/-! ### Sending -/

variable {ts : List Token} {c : Token}

lemma DataReads.head (h : DataReads es x ts) :
    ts = [] ∨ ∃ comma rest, ts = comma :: rest ∧ comma.kind = .symbol .comma := by
  cases h with
  | none => exact .inl rfl
  | extended hcomma _ | item hcomma _ _ _ => exact .inr ⟨_, _, rfl, hcomma⟩

lemma DataReads.closes (h : DataReads es x ts) (hc : c.kind = .symbol .rightParen) :
    closesExpr ((ts ++ c :: more).headD endToken).kind := by
  rcases h.head with rfl | ⟨comma, rest, rfl, hcomma⟩
  · rw [nil_append, headD_cons, hc]
    rfl
  · rw [cons_append, headD_cons, hcomma]
    rfl

lemma item_not_extended {e} (s : State) (last) (he : Reads (.ternary e) ts)
    (hlast : rest = [] → ts.map (·.kind) ≠ [.keyword .ext]) (hrest : DataReads es x rest) :
    ¬ ((s.facing last (ts ++ (rest ++ c :: more))).current.kind == .keyword .ext
      && (s.facing last (ts ++ (rest ++ c :: more))).nextKind == .symbol .rightParen) := by
  intro hboth
  obtain ⟨t, ts, rfl, -⟩ := he.head
  rw [cons_append, current_facing, nextKind_facing, Bool.and_eq_true, beq_iff_eq, beq_iff_eq]
    at hboth
  obtain ⟨hext, hparen⟩ := hboth
  cases ts with
  | nil =>
    rcases hrest.head with rfl | ⟨comma, rest', rfl, hcomma⟩
    · exact hlast rfl (by rw [map_singleton, hext])
    · rw [nil_append, cons_append, headD_cons, hcomma] at hparen
      cases hparen
  | cons t' ts =>
    -- no expression goes on with a closing bracket after its first word
    have hsecond := he.second nofun t t' ts rfl (.inr (.inr hext))
    rw [cons_append, headD_cons] at hparen
    rw [hparen] at hsecond
    cases hsecond

lemma DataReads.sendData (h : DataReads es x ts) (hc : c.kind = .symbol .rightParen) (s : State)
    (last) (hf : ts.length < f) : Gives (sendData f) s last ts (c :: more) (es, x) := by
  obtain _ | f := f
  · omega
  induction h generalizing f last with
  | none =>
    rw [sendData]
    exact .eat_ne (by simp [hc]) rfl
  | @extended comma t hcomma ht =>
    rw [sendData]
    refine .eat hcomma (.get ?_)
    rw [if_pos (by simp [nextKind_facing, ht, hc])]
    exact .advance ht rfl
  | @item e es x ts rest comma hcomma he hlast hrest ih =>
    simp only [length_cons, length_append] at hf
    rw [sendData]
    refine .eat hcomma (.get ?_)
    rw [append_assoc, if_neg (item_not_extended s comma he hlast hrest)]
    obtain _ | f := f
    · omega
    exact .bind (he.expression s comma _ (.of_closes (hrest.closes hc)))
      (.final (ih (ts.getLastD comma) f (by omega)))

lemma send_gives {k o : Token} {id is ds} (hk : k.kind = .keyword .send)
    (ho : o.kind = .symbol .leftParen) (hid : Reads (.ternary id) is) (hdata : DataReads es x ds)
    (hc : c.kind = .symbol .rightParen) : Gives (sendStatement k.pos) s last
      (k :: o :: (is ++ (ds ++ [c]))) more (.send k.pos id es x) := by
  have hends : closesExpr ((ds ++ c :: more).headD endToken).kind := hdata.closes hc
  refine .advance hk (.symbol ho (.bind (hid.expression s o _ (.of_closes ?_)) (.get (.bind
    (hdata.sendData hc s _ ?_) (.symbol hc rfl)))))
  · rwa [append_assoc]
  · rw [facing_rest, append_assoc, length_append]
    omega

/-! ### Blocks -/

lemma insideLoop_gives {α : Type} {read} {a : α}
    (h : Gives read { s with loopDepth := s.loopDepth + 1 } last ts more a) :
    Gives (insideLoop read) s last ts more a := by
  have hread : read { s.facing last (ts ++ more) with
    loopDepth := (s.facing last (ts ++ more)).loopDepth + 1 } = _ := h
  show insideLoop read (s.facing last (ts ++ more)) = _
  rw [insideLoop_apply]
  dsimp only
  rw [hread]
  rfl

lemma insideBody_gives {α : Type} {read} {a : α}
    (h : Gives read { s with loopDepth := 0, inBody := true } last ts more a) :
    Gives (insideBody read) s last ts more a := by
  have hread : read { s.facing last (ts ++ more) with loopDepth := 0, inBody := true } = _ := h
  show insideBody read (s.facing last (ts ++ more)) = _
  rw [insideBody_apply]
  dsimp only
  rw [hread]
  rfl

section Blocks

variable {d : Nat} {b : Bool} {k o : Token} {e : Expr} {ts bs : List Token} {ss : List Stmt}

lemma Sentence.block_head (h : Sentence d b (.block ss) ts) :
    ∃ o rest, ts = o :: rest ∧ o.kind = .symbol .leftBrace := by
  cases h with
  | block ho _ => exact ⟨_, _, rfl, ho⟩

lemma Sentence.block_closes (h : Sentence d b (.block ss) ts) :
    closesExpr ((ts ++ more).headD endToken).kind := by
  obtain ⟨o, rest, rfl, ho⟩ := h.block_head
  rw [cons_append, headD_cons, ho]
  rfl

lemma branch_block (hb : Sentence d b (.block ss) bs) (ih : BlockRead d b ss bs)
    (hdepth : s.loopDepth = d) (hbody : s.inBody = b) (hf : 8 * bs.length < f) :
    Gives (branch f) s last bs more ss := by
  obtain _ | f := f
  · omega
  have hread := ih f s last more hdepth hbody (by omega)
  obtain ⟨o, rest, rfl, ho⟩ := hb.block_head
  rw [branch]
  refine .peek ?_
  rw [if_pos (by simp [ho])]
  exact hread

lemma waitStatement_head {w wo wc : Token} {p m ps ms}
    (hk : k.kind = .keyword .waitFor) (ho : o.kind = .symbol .leftParen)
    (hp : Reads (.ternary p) ps) (hc : c.kind = .symbol .rightParen)
    (hw : w.kind = .keyword .timeout) (hwo : wo.kind = .symbol .leftParen)
    (hm : Reads (.ternary m) ms) (hwc : wc.kind = .symbol .rightParen) {st} (h : GoesOver (do
        if (← peekKind) == .symbol .leftBrace then return .waitFor k.pos p m (some (← block f))
        else return .waitFor k.pos p m none : Reader Stmt) s wc ts more (pure st)) :
    Gives (waitStatement (f + 1) k.pos) s last
      (k :: o :: (ps ++ c :: w :: wo :: (ms ++ wc :: ts))) more st := by
  rw [waitStatement]
  refine .advance hk (.symbol ho (.bind (hp.expression s o _ (.of_kind hc rfl)) (.symbol hc
    (.peek ?_))))
  rw [if_neg (by simp [hw])]
  exact .advance hw (.symbol hwo (.bind (hm.expression s wo _ (.of_kind hwc rfl)) (.symbol hwc h)))

variable {st : Stmt}

lemma StmtRead.terminated {semi} (h : StmtRead d b st ts) (hsemi : semi.kind = .symbol .semicolon)
    (s last more) (hdepth : s.loopDepth = d) (hbody : s.inBody = b) (hf : 8 * ts.length ≤ f) :
    Gives (item (f + 1)) s last (ts ++ [semi]) more (.stmt st) := by
  rw [item]
  exact .bind (h f s last _ hdepth hbody hf (.of_semicolon hsemi)) (.eat hsemi rfl)

def startsStmt : TokenKind → Bool
  | .keyword k => k != .otherwise && k != .timeout && k != .function && k != .onReceive
      && k != .onInterval
  | kind => startsExpr kind

lemma startsStmt_of_startsExpr {kind} (h : startsExpr kind) : startsStmt kind := by
  cases kind with
  | keyword k =>
    cases k with
    | yes | no | data | ext | random | randomBytes => rfl
    | _ => cases h
  | _ => exact h

lemma Sentence.stmt_head (h : Sentence d b (.stmt st) ts) :
    ∃ t rest, ts = t :: rest ∧ ∀ kind, startsStmt kind = false → t.kind ≠ kind := by
  have hstarts : ∃ t rest, ts = t :: rest ∧ startsStmt t.kind := by
    cases h with
    | assign hn _ _ => exact ⟨_, _, rfl, by rw [hn]; rfl⟩
    | eval he =>
      obtain ⟨t, rest, heq, ht⟩ := he.head
      exact ⟨t, rest, heq, startsStmt_of_startsExpr ht⟩
    | declare hk _ | declareAs hk _ _ _ | send hk _ _ _ _ | delay hk _ | times hk _ _ | forever hk _
      | when hk _ _ | whenElse hk _ _ _ _ | waitFor hk _ _ _ _ _ _ _ | waitElse hk _ _ _ _ _ _ _ _
      | giveBack hk | giveBackValue hk _ _ | leave hk _ | again hk _ | print hk _ =>
        exact ⟨_, _, rfl, by rw [hk]; rfl⟩
  obtain ⟨t, rest, hts, ht⟩ := hstarts
  refine ⟨t, rest, hts, fun kind hkind heq => ?_⟩
  rw [heq, hkind] at ht
  cases ht

lemma next_read {semi} (hst : Sentence d b (.stmt st) ts) (ih : StmtRead d b st ts)
    (hsemi : semi.kind = .symbol .semicolon) (ihrest : RestRead d b ss rest) :
    RestRead d b (st :: ss) (ts ++ semi :: rest) := by
  intro f s last more hdepth hbody hf
  simp only [length_cons, length_append] at hf
  obtain _ | _ | f := f
  · omega
  · omega
  have hitem : Gives (recovering (item (f + 1))) s last (ts ++ [semi]) (rest ++ more)
      (some (.stmt st)) := by
    show recovering (item (f + 1)) (s.facing last (ts ++ [semi] ++ (rest ++ more))) = _
    rw [recovering_apply, ih.terminated hsemi s last _ hdepth hbody (by omega)]
    rfl
  have hrest := ihrest (f + 1) s semi more hdepth hbody (by omega)
  obtain ⟨t, ts, rfl, hne⟩ := hst.stmt_head
  rw [blockRest]
  refine .peek ?_
  -- the reader first asks for a brace, the end and a semicolon
  rw [if_neg (by simpa using hne _ rfl), if_neg (by simpa using hne _ rfl),
    if_neg (by simpa using hne _ rfl)]
  show GoesOver _ s last (t :: ts ++ semi :: rest) more _
  rw [append_cons]
  refine .bind hitem ?_
  rw [getLastD_append]
  exact .final hrest

end Blocks

/-! ## Readers accept the grammar -/

/-- Every reader reads its sentences. -/
lemma Sentence.holds {d b c} (h : Sentence d b c ts) : c.Holds d b ts := by
  induction h with
  | @declare d b k n hk hn =>
    refine .of_reader hk declaration fun s last more _ _ hends =>
      .advance hk (.expect hn (.eat_ne (fun hassign => ?_) rfl))
    have hnone := hends.assign
    rw [hassign] at hnone
    cases hnone
  | @declareAs d b k n a e ts hk hn ha he =>
    refine .of_reader hk declaration fun s last more _ _ hends => ?_
    rw [getLastD_cons, getLastD_cons] at hends
    exact .advance hk (.expect hn (.eat ha (.final (he.expression s a more hends.expr))))
  | @assign d b n a op e ts hn ha he =>
    refine .of_head fun f s last more _ _ _ hends => ?_
    rw [getLastD_cons] at hends
    have hread : Gives (assignment n.pos op) s last (n :: a :: ts) more
        (.assign n.pos n.text op e) :=
      .advance hn (.advance rfl (.final (he.expression s a more hends.expr))
        fun hend => by rw [hend] at ha; cases ha)
    rw [itemBody]
    refine .get ?_
    have hnext : (s.facing last (n :: a :: ts ++ more)).nextKind = a.kind := rfl
    simp only [cons_append, current_facing, hn] at hnext ⊢
    rw [hnext, ha]
    exact .final hread
  | send hk ho hid hdata hc =>
    exact .of_reader hk sendStatement fun s last more _ _ _ => send_gives hk ho hid hdata hc
  | @delay d b k e ts hk he | @print d b k e ts hk he =>
    refine .of_head fun f s last more _ _ _ hends => ?_
    rw [itemBody]
    refine .get ?_
    simp only [cons_append, current_facing, hk]
    exact .advance hk (.final (he.expression s k more hends.expr))
  | @times d b k e ts bs ss hk he hb ih =>
    refine .of_head fun f s last more hdepth hbody hf _ => ?_
    rw [length_append] at hf
    rw [itemBody]
    refine .get ?_
    simp only [cons_append, current_facing, hk]
    exact .advance hk (.bind (he.expression s k _ (.of_closes hb.block_closes)) (.final
      (insideLoop_gives (ih f _ _ more (congrArg (· + 1) hdepth) hbody (by omega)))))
  | @forever d b k bs ss hk _ ih =>
    refine .of_head fun f s last more hdepth hbody hf _ => ?_
    rw [itemBody]
    refine .get ?_
    simp only [cons_append, current_facing, hk]
    exact .advance hk (.final
      (insideLoop_gives (ih f _ _ more (congrArg (· + 1) hdepth) hbody (by omega))))
  | @when d b k e ts bs ss hk he hb ih =>
    refine .of_head fun f s last more hdepth hbody hf hends => ?_
    rw [length_append] at hf
    rw [getLastD_append] at hends
    rw [itemBody]
    refine .get ?_
    simp only [cons_append, current_facing, hk]
    exact .advance hk (.bind (he.expression s k _ (.of_closes hb.block_closes)) (.stop (.final
      (branch_block hb ih hdepth hbody (by omega))) (.eat_ne hends.otherwise rfl)))
  | @whenElse d b k o e ts bs cs ss rs hk he hb ho hc ih ihc =>
    refine .of_head fun f s last more hdepth hbody hf _ => ?_
    simp only [length_append, length_cons] at hf
    rw [itemBody]
    refine .get ?_
    simp only [cons_append, current_facing, hk]
    exact .advance hk (.bind (he.expression s k _ (.of_closes (by
      rw [append_assoc]; exact hb.block_closes))) (.bind
      (branch_block hb ih hdepth hbody (by omega)) (.eat ho (.final
        (branch_block hc ihc hdepth hbody (by omega))))))
  | waitFor hk ho hp hc hw hwo hm hwc =>
    refine .of_head fun f s last more _ _ hf hends => ?_
    simp only [length_append, length_cons] at hf
    simp only [getLastD_append, getLastD_cons] at hends
    obtain _ | f := f
    · omega
    rw [itemBody]
    refine .get ?_
    simp only [cons_append, current_facing, hk]
    refine .final (waitStatement_head hk ho hp hc hw hwo hm hwc ?_)
    show (if ((more.headD endToken).kind == .symbol .leftBrace) then _ else _ : Reader Stmt) _ = _
    rw [if_neg fun h => hends.brace (beq_iff_eq.mp h)]
    rfl
  | waitElse hk ho hp hc hw hwo hm hwc hb ih =>
    refine .of_head fun f s last more hdepth hbody hf _ => ?_
    simp only [length_append, length_cons] at hf
    obtain _ | f := f
    · omega
    have hblock := fun last => ih f s last more hdepth hbody (by omega)
    obtain ⟨brace, rest, rfl, hbrace⟩ := hb.block_head
    rw [itemBody]
    refine .get ?_
    simp only [cons_append, current_facing, hk]
    refine .final (waitStatement_head hk ho hp hc hw hwo hm hwc (.peekKind ?_))
    rw [if_pos (by simp [hbrace])]
    exact .final (hblock _)
  | @giveBack d k hk =>
    refine .of_reader hk returnStatement fun s last more _ hbody hends => .advance hk (.get ?_)
    rw [if_neg (by simp [State.facing, hbody])]
    show (if endsReturn k.pos.line (more.headD endToken) then _ else _ : Reader Stmt) _ = _
    exact congrFun (if_pos hends.value) _
  | giveBackValue hk he hline =>
    exact .of_reader hk returnStatement fun s last more _ hbody hends =>
      giveBackValue_gives hk he hline hbody hends
  | leave hk hd | again hk hd =>
    exact .of_reader hk (jump · _) fun s last more hdepth _ _ => jump_gives hk (by simp) (by omega)
  | eval he => exact eval_read he
  | @block d b o ss ts ho _ ih =>
    intro f s last more hdepth hbody hf
    rw [length_cons] at hf
    obtain _ | f := f
    · omega
    rw [Parse.block]
    exact .symbol ho (ih f s o more hdepth hbody (by omega))
  | close hc =>
    intro f s last more _ _ hf
    obtain _ | f := f
    · simp at hf
    rw [blockRest]
    refine .peek ?_
    rw [if_pos (by simp [hc])]
    exact .advance hc rfl
  | next hst hsemi _ ih ihrest => exact next_read hst ih hsemi ihrest

end CanScript.Parse
