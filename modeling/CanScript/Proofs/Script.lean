import CanScript.Proofs.Sentence

/-! # The grammar of scripts

    A script is functions, handlers and statements in any order, and the program that it stands for
    has each of them in its list.  A script of this grammar is read whole, and nothing in it is
    reported but functions that are declared twice. -/

namespace CanScript.Parse

open List Parse

/-! ## Functions and handlers -/

/-- Names between commas. -/
inductive NamesRead : List String → List Token → Prop where
  | last {n : Token} : n.kind = .name → NamesRead [n.text] [n]
  | more {n comma : Token} {names ts} : n.kind = .name →
      comma.kind = .symbol .comma → NamesRead names ts →
      NamesRead (n.text :: names) (n :: comma :: ts)

def ParamsRead (names : List String) (ts : List Token) : Prop :=
  NamesRead names ts ∨ names = [] ∧ ts = []

/-- The tokens of a function. -/
inductive FunctionReads : Function → List Token → Prop where
  | mk {k n o c : Token} {params body ps bs} :
      k.kind = .keyword .function → n.kind = .name → o.kind = .symbol .leftParen →
      ParamsRead params ps → params.Nodup → c.kind = .symbol .rightParen →
      Sentence 0 true (.block body) bs →
      FunctionReads ⟨k.pos, n.text, params, body⟩ (k :: n :: o :: (ps ++ c :: bs))

/-- The tokens of a receive handler. -/
inductive ReceiveReads : ReceiveHandler → List Token → Prop where
  | mk {k o c : Token} {e body ts bs} :
      k.kind = .keyword .onReceive → o.kind = .symbol .leftParen → Reads (.ternary e) ts →
      c.kind = .symbol .rightParen → Sentence 0 true (.block body) bs →
      ReceiveReads ⟨k.pos, e, body⟩ (k :: o :: (ts ++ c :: bs))

/-- The tokens of an interval handler. -/
inductive IntervalReads : IntervalHandler → List Token → Prop where
  | mk {k o c : Token} {e body ts bs} :
      k.kind = .keyword .onInterval → o.kind = .symbol .leftParen → Reads (.ternary e) ts →
      c.kind = .symbol .rightParen → Sentence 0 true (.block body) bs →
      IntervalReads ⟨k.pos, e, body⟩ (k :: o :: (ts ++ c :: bs))

/-- The tokens that are left of a script, up to its end, and what they make of the program so far. A
    statement of the main sequence ends with a semicolon or before something that does not go on
    with it. -/
inductive ScriptReads : Program → List Token → Program → Prop where
  | done {p} {t : Token} : t.kind = .eof → ScriptReads p [t] p
  | function {p p' f ts rest} : FunctionReads f ts →
      ScriptReads { p with functions := p.functions ++ [f] } rest p' → ScriptReads p (ts ++ rest) p'
  | receive {p p' h ts rest} : ReceiveReads h ts →
      ScriptReads { p with receiveHandlers := p.receiveHandlers ++ [h] } rest p' →
      ScriptReads p (ts ++ rest) p'
  | interval {p p' h ts rest} : IntervalReads h ts →
      ScriptReads { p with intervalHandlers := p.intervalHandlers ++ [h] } rest p' →
      ScriptReads p (ts ++ rest) p'
  | stmt {p p' st} {semi : Token} {ts rest} :
      Sentence 0 false (.stmt st) ts → semi.kind = .symbol .semicolon →
      ScriptReads { p with statements := p.statements ++ [st] } rest p' →
      ScriptReads p (ts ++ semi :: rest) p'
  | line {p p' st} {ts rest : List Token} : Sentence 0 false (.stmt st) ts →
      EndsStmt (ts.getLastD endToken) (rest.headD endToken) →
      ScriptReads { p with statements := p.statements ++ [st] } rest p' →
      ScriptReads p (ts ++ rest) p'

/-! ## What readers do with functions and handlers -/

lemma not_contains_of_nodup {seen rest : List String} {n}
    (h : (seen ++ n :: rest).Nodup) : ¬ seen.contains n := by
  intro hseen
  rw [contains_iff_mem] at hseen
  exact (nodup_append.mp h).2.2 n hseen n mem_cons_self rfl

variable {f : Nat} {s : State} {last : Token} {ts us more : List Token} {fn : Function}

lemma NamesRead.parameters {names} (h : NamesRead names ts)
    (seen : List String) (hnodup : (seen ++ names).Nodup) (hf : ts.length ≤ f)
    (hcomma : (more.headD endToken).kind ≠ .symbol .comma) :
    Gives (parameters f seen) s last ts more (seen ++ names) := by
  induction h generalizing f seen last with
  | @last n hn =>
    obtain _ | f := f
    · simp at hf
    rw [parameters]
    refine .expect hn ?_
    rw [if_neg (not_contains_of_nodup hnodup)]
    exact .eat_ne hcomma rfl
  | @more n comma names ts hn hcomma' _ ih =>
    simp only [length_cons] at hf
    obtain _ | f := f
    · omega
    have hrest : Gives (parameters f (seen ++ [n.text])) s comma ts more _ :=
      ih (seen ++ [n.text]) (by simpa using hnodup) (by omega)
    rw [append_assoc] at hrest
    rw [parameters]
    refine .expect hn ?_
    rw [if_neg (not_contains_of_nodup hnodup)]
    exact .eat hcomma' hrest

lemma insideBody_block {body} (h : Sentence 0 true (.block body) ts)
    (hf : 8 * ts.length ≤ f) : Gives (insideBody (block f)) s last ts more body :=
  insideBody_gives (h.holds f { s with loopDepth := 0, inBody := true } last more rfl rfl hf)

lemma NamesRead.head {names} (h : NamesRead names ts) :
    ∃ n rest, ts = n :: rest ∧ n.kind = .name := by
  cases h with
  | last hn | more hn _ _ => exact ⟨_, _, rfl, hn⟩

lemma FunctionReads.function (h : FunctionReads fn ts) (hf : 8 * ts.length ≤ f + 8) :
    Gives (function (f + 1) fn.pos) s last ts more fn := by
  obtain @⟨k, n, o, c, params, body, ps, bs, hk, hn, ho, hparams, hnodup, hc, hbody⟩ := h
  simp only [length_cons, length_append] at hf
  have hrest : ∀ {last}, GoesOver (do
      expectSymbol .rightParen "')' after parameters"
      let body ← insideBody (block f)
      return ⟨k.pos, n.text, params, body⟩ : Reader Function) s last (c :: bs) more
        (pure ⟨k.pos, n.text, params, body⟩) :=
    .symbol hc (.final (insideBody_block hbody (by omega)))
  rw [function]
  refine .advance hk (.expect hn (.symbol ho ?_))
  rcases hparams with hnames | ⟨rfl, rfl⟩
  · have hread : Gives (parameters ((ps ++ c :: bs ++ more).length + 1) []) s o ps
        (c :: bs ++ more) params :=
      hnames.parameters [] hnodup (by simp only [length_append]; omega) (by simp [hc])
    obtain ⟨t, rest, rfl, ht⟩ := hnames.head
    refine .peekKind ?_
    rw [if_neg (by simp [ht])]
    exact .get (.bind hread hrest)
  · refine .peekKind ?_
    rw [if_pos (by simp [hc])]
    exact hrest

lemma FunctionReads.head (h : FunctionReads fn ts) :
    ∃ k rest, ts = k :: rest ∧ k.kind = .keyword .function ∧ k.pos = fn.pos := by
  cases h with
  | mk hk _ _ _ _ _ _ => exact ⟨_, _, rfl, hk, rfl⟩

lemma FunctionReads.item (h : FunctionReads fn ts) (hf : 8 * ts.length ≤ f)
    (hsemi : (more.headD endToken).kind ≠ .symbol .semicolon) :
    Gives (Parse.item (f + 3)) s last ts more (.function fn) := by
  have hread : Gives (Parse.function (f + 1) fn.pos) s last ts more fn := h.function (by omega)
  obtain ⟨k, rest, rfl, hk, hpos⟩ := h.head
  have hbody : Gives (itemBody (f + 2)) s last (k :: rest) more (.function fn) := by
    rw [itemBody]
    refine .get ?_
    simp only [cons_append, current_facing, hk, hpos]
    exact .final hread
  rw [Parse.item]
  exact .stop (.final hbody) (.eat_ne hsemi rfl)

/-! ## Programs -/

lemma handler_gives {α : Type} {k o c e body bs kind what what'}
    (build : Pos → Expr → List Stmt → α) (hk : k.kind = kind) (hkind : kind ≠ .eof)
    (ho : o.kind = .symbol .leftParen) (he : Reads (.ternary e) ts)
    (hc : c.kind = .symbol .rightParen) (hbody : Sentence 0 true (.block body) bs) : Gives (do
      let t ← advance
      expectSymbol .leftParen what
      let e ← expression
      expectSymbol .rightParen what'
      let body ← insideBody (block (← statementBudget))
      return build t.pos e body : Reader α) s last (k :: o :: (ts ++ c :: bs)) more
        (build k.pos e body) :=
  .advance hk (.symbol ho (.bind (he.expression s o _ (.of_kind hc rfl)) (.symbol hc (.get
    (.final (insideBody_block hbody (by simp only [facing_rest, length_append]; omega)))))))
    hkind

lemma ReceiveReads.topLevel {h} (hh : ReceiveReads h ts) (p s last) (more : List Token) :
    Gives (topLevel p) s last ts more
      { p with receiveHandlers := p.receiveHandlers ++ [h] } := by
  obtain @⟨k, o, c, e, body, ts, bs, hk, ho, he, hc, hbody⟩ := hh
  refine .peekKind ?_
  rw [hk, receiveHandler]
  exact .final (handler_gives ReceiveHandler.mk hk nofun ho he hc hbody)

lemma IntervalReads.topLevel {h} (hh : IntervalReads h ts) (p s last) (more : List Token) :
    Gives (topLevel p) s last ts more
      { p with intervalHandlers := p.intervalHandlers ++ [h] } := by
  obtain @⟨k, o, c, e, body, ts, bs, hk, ho, he, hc, hbody⟩ := hh
  refine .peekKind ?_
  rw [hk, intervalHandler]
  exact .final (handler_gives IntervalHandler.mk hk nofun ho he hc hbody)

def withItem (p : Program) : Item → Program
  | .stmt st => { p with statements := p.statements ++ [st] }
  | .function f => { p with functions := p.functions ++ [f] }

section Steps

variable {p p' : Program} {t : Token}

lemma topLevel_item {read} (ht : t.kind ≠ .keyword .onReceive ∧ t.kind ≠ .keyword .onInterval)
    (h : Gives (item (8 * (t :: ts ++ more).length + 8)) s last (t :: ts) more read) :
    Gives (topLevel p) s last (t :: ts) more (withItem p read) := by
  have hread : Gives (do match ← item (← statementBudget) with
      | .stmt st => return { p with statements := p.statements ++ [st] }
      | .function f => return { p with functions := p.functions ++ [f] } : Reader Program)
        s last (t :: ts) more (withItem p read) := by
    refine .get (.stop (.final h) ?_)
    cases read with
    | stmt st => rfl
    | function f => rfl
  refine .peekKind ?_
  cases hkind : t.kind with
  | keyword k =>
    cases k with
    | onReceive => exact absurd hkind ht.1
    | onInterval => exact absurd hkind ht.2
    | _ => exact hread
  | _ => exact hread

lemma programRest_step
    (ht : t.kind ≠ .eof ∧ t.kind ≠ .symbol .semicolon ∧ t.kind ≠ .symbol .rightBrace)
    (h : Gives (topLevel p) s last (t :: ts) more p') :
    GoesOver (programRest (f + 1) p) s last (t :: ts) more (programRest f p') := by
  have hrecover : Gives (recovering (topLevel p)) s last (t :: ts) more (some p') := by
    show recovering (topLevel p) (s.facing last (t :: ts ++ more)) = _
    rw [recovering_apply, h]
    rfl
  rw [programRest]
  refine .peek ?_
  rw [if_neg (by simpa using ht.1), if_neg (by simpa using ht.2.1), if_neg (by simpa using ht.2.2)]
  exact .final hrecover

end Steps

lemma ScriptReads.head {p p'} (h : ScriptReads p ts p') :
    (ts.headD endToken).kind ≠ .symbol .semicolon := by
  cases h with
  | done ht => simp [ht]
  | function hf _ =>
    obtain ⟨k, rest, rfl, hk, -⟩ := hf.head
    simp [hk]
  | receive hh _ | interval hh _ =>
    cases hh with
    | mk hk _ _ _ _ => simp [hk]
  | stmt hst _ _ | line hst _ _ =>
    obtain ⟨t, rest, rfl, hne⟩ := hst.stmt_head
    exact hne _ rfl

lemma programRest_stmt {p st} (hst : Sentence 0 false (.stmt st) ts)
    (h : Gives (item (8 * (us ++ more).length + 8)) s last us more (.stmt st)) (hus : ts <+: us) :
    GoesOver (programRest (f + 1) p) s last us more
      (programRest f { p with statements := p.statements ++ [st] }) := by
  obtain ⟨t, ts, rfl, hne⟩ := hst.stmt_head
  obtain ⟨rest, rfl⟩ := hus
  exact programRest_step ⟨hne _ rfl, hne _ rfl, hne _ rfl⟩ (topLevel_item ⟨hne _ rfl, hne _ rfl⟩ h)

/-- What is left of a script is read to its end. -/
lemma ScriptReads.programRest {p p'} (h : ScriptReads p ts p') (s : State) (last)
    (hdepth : s.loopDepth = 0) (hbody : s.inBody = false) (hf : ts.length ≤ f) :
    ∃ last' rest, programRest f p (s.facing last ts) = (.ok p', s.facing last' rest) := by
  induction h generalizing f last with
  | @done p t ht =>
    obtain _ | f := f
    · simp at hf
    refine ⟨last, [t], ?_⟩
    rw [programRest]
    show (if t.kind == .eof then _ else _ : Reader Program) _ = _
    rw [if_pos (by simp [ht])]
    rfl
  | @function p p' fn ts rest hfn hrest ih =>
    have hitem : Gives (item (8 * (ts ++ rest).length + 8)) s last ts rest (.function fn) :=
      hfn.item (by simp only [length_append]; omega) hrest.head
    obtain ⟨k, ks, rfl, hk, -⟩ := hfn.head
    simp only [length_append, length_cons] at hf
    obtain _ | f := f
    · omega
    rw [(programRest_step (by simp [hk]) (topLevel_item (by simp [hk]) hitem)).eq]
    exact ih _ (by omega)
  | @receive p p' h ts rest hh _ ih | @interval p p' h ts rest hh _ ih =>
    have hread := hh.topLevel p s last rest
    obtain @⟨k, _, _, _, _, _, _, hk, _, _, _, _⟩ := hh
    simp only [length_append, length_cons] at hf
    obtain _ | f := f
    · omega
    rw [(programRest_step (by simp [hk]) hread).eq]
    exact ih _ (by omega)
  | @stmt p p' st semi ts rest hst hsemi _ ih =>
    have hitem := hst.holds.terminated hsemi (f := 8 * (ts ++ [semi] ++ rest).length + 7) s last
      rest hdepth hbody (by simp only [length_append]; omega)
    simp only [length_append, length_cons] at hf
    obtain _ | f := f
    · omega
    rw [append_cons, (programRest_stmt hst hitem (prefix_append _ _)).eq]
    exact ih _ (by omega)
  | @line p p' st ts rest hst hends hrest ih =>
    -- without a semicolon it is what follows that ends the statement
    obtain ⟨t, ts', hts, -⟩ := hst.stmt_head
    have hne : ts ≠ [] := hts ▸ cons_ne_nil t ts'
    rw [getLastD_of_ne_nil hne endToken last] at hends
    have hread := hst.holds (8 * (ts ++ rest).length + 7) s last rest hdepth hbody
      (by simp only [length_append]; omega) hends
    have hitem : Gives (item (8 * (ts ++ rest).length + 8)) s last ts rest (.stmt st) := by
      rw [item]
      exact .stop (.final hread) (.eat_ne hrest.head rfl)
    have hpos : 0 < ts.length := length_pos_iff.mpr hne
    simp only [length_append] at hf
    obtain _ | f := f
    · omega
    rw [(programRest_stmt hst hitem prefix_rfl).eq]
    exact ih _ (by omega)

lemma ScriptReads.getLast {p p'} (h : ScriptReads p ts p') :
    ∃ t, ts.getLast? = some t ∧ t.kind = .eof := by
  induction h with
  | @done p t ht => exact ⟨t, rfl, ht⟩
  | function _ _ ih | receive _ _ ih | interval _ _ ih | line _ _ _ ih =>
    obtain ⟨t, hlast, ht⟩ := ih
    exact ⟨t, by rw [getLast?_append, hlast, Option.some_or], ht⟩
  | stmt _ _ _ ih =>
    obtain ⟨t, hlast, ht⟩ := ih
    exact ⟨t, by rw [getLast?_append, getLast?_cons, hlast]; rfl, ht⟩

lemma ScriptReads.readable {p p'} (h : ScriptReads p ts p')
    (hvalid : ∀ t ∈ ts, t.kind ≠ .invalid) : Parse.readable ts = ts := by
  have hfilter : ts.filter (fun t => t.kind != .invalid) = ts :=
    filter_eq_self.mpr fun t ht => bne_iff_ne.mpr (hvalid t ht)
  obtain ⟨t, hlast, ht⟩ := h.getLast
  unfold Parse.readable
  simp only [hfilter, hlast]
  rw [if_pos (by simp [ht])]

lemma ScriptReads.ofTokens {p} (h : ScriptReads {} ts p) (hvalid : ∀ t ∈ ts, t.kind ≠ .invalid) :
    Program.ofTokens ts = (p, repeatedFunctions [] p.functions) := by
  have hreadable := h.readable hvalid
  have hbefore : State.before ts = (State.before ts).facing (ts.headD endToken) ts := by
    simp only [State.before, State.facing, hreadable]
  obtain ⟨last, rest, hread⟩ := h.programRest (f := ts.length + 1) (State.before ts)
    (ts.headD endToken) rfl rfl (Nat.le_succ _)
  rw [← hbefore] at hread
  rw [ofTokens_of_run (by rw [hreadable]; exact hread)]
  rfl

end CanScript.Parse
