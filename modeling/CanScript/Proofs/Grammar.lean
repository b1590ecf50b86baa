import CanScript.Proofs.Nesting

/-! # The grammar of expressions

    Which expression some tokens stand for, as a grammar: operators bind by their levels, those of
    one level group to the left, a condition groups to the right, and a call or an index opens on
    the line where its operand ends.  The readers decide this by looking at one token at a time;
    here it is shown that they accept every phrase of the grammar, leave what follows alone, and
    have a large enough budget. -/

namespace CanScript.Parse

open List

/-! ## Readers in front of given tokens -/

def State.facing (s : State) (last : Token) (rest : List Token) : State :=
  { s with rest, last }

variable {kind : TokenKind} {what : String} {next : Token} {op : BinaryOp}

section Facing

variable {α β : Type} {s s' : State} {last t : Token} {ts us more : List Token}

lemma bind_ok {x} {f : α → Reader β} {a} (h : x s = (.ok a, s')) : (x >>= f) s = f a s' := by
  rw [bind_apply, h]

@[simp] lemma current_facing : (s.facing last (t :: more)).current = t := rfl

@[simp] lemma facing_rest : (s.facing last more).rest = more := rfl

lemma advance_facing (ht : t.kind = kind) (hkind : kind ≠ .eof) :
    (s.facing last (t :: more)).advance = s.facing t more := by
  simp [State.advance, State.facing, ht, hkind]

lemma getLastD_append (xs ys : List Token) (a) :
    (xs ++ ys).getLastD a = ys.getLastD (xs.getLastD a) := by
  induction xs generalizing a with
  | nil => rfl
  | cons x xs ih => rw [cons_append, getLastD_cons, getLastD_cons, ih]

def GoesOver (x : Reader α) (s : State) (last : Token) (ts more : List Token) (y : Reader α) :
    Prop :=
  x (s.facing last (ts ++ more)) = y (s.facing (ts.getLastD last) more)

/-- A reader passes over `ts` and gives a result. -/
abbrev Gives (x : Reader α) (s : State) (last : Token) (ts more : List Token) (a : α) : Prop :=
  GoesOver x s last ts more (pure a)

namespace GoesOver

lemma eq {x y : Reader α} (h : GoesOver x s last ts more y) :
    x (s.facing last (ts ++ more)) = y (s.facing (ts.getLastD last) more) :=
  h

lemma trans {x y z : Reader α} (h : GoesOver x s last ts (us ++ more) y)
    (h' : GoesOver y s (ts.getLastD last) us more z) : GoesOver x s last (ts ++ us) more z := by
  rw [GoesOver, append_assoc, getLastD_append]
  exact Eq.trans h h'

lemma stop {x y z : Reader α} (h : GoesOver x s last ts more y)
    (h' : GoesOver y s (ts.getLastD last) [] more z) : GoesOver x s last ts more z :=
  Eq.trans h h'

variable {y : Reader β} {kind : TokenKind} {f : Token → Reader β}

lemma final {x} {f : α → Reader β} {a} (h : Gives x s last ts more a) :
    GoesOver (x >>= f) s last ts more (f a) :=
  bind_ok h

lemma bind {x} {f : α → Reader β} {a} (h : Gives x s last ts (us ++ more) a)
    (hf : GoesOver (f a) s (ts.getLastD last) us more y) :
    GoesOver (x >>= f) s last (ts ++ us) more y :=
  trans (.final h) hf

lemma get {f} (h : GoesOver (f (s.facing last (ts ++ more))) s last ts more y) :
    GoesOver (MonadState.get >>= f) s last ts more y :=
  h

lemma peek (h : GoesOver (f t) s last (t :: ts) more y) :
    GoesOver (Parse.peek >>= f) s last (t :: ts) more y :=
  h

lemma peekBeyond (h : GoesOver (f (more.headD endToken)) s last [] more y) :
    GoesOver (Parse.peek >>= f) s last [] more y :=
  h

lemma peekKind {f : TokenKind → Reader β} (h : GoesOver (f t.kind) s last (t :: ts) more y) :
    GoesOver (Parse.peekKind >>= f) s last (t :: ts) more y :=
  h

lemma advance (ht : t.kind = kind) (h : GoesOver (f t) s t ts more y)
    (hkind : kind ≠ .eof := by decide) :
    GoesOver (Parse.advance >>= f) s last (t :: ts) more y := by
  show f t (s.facing last (t :: (ts ++ more))).advance = _
  rw [advance_facing ht hkind, h, getLastD_cons]

lemma expect (ht : t.kind = kind) (h : GoesOver (f t) s t ts more y)
    (hkind : kind ≠ .eof := by decide) :
    GoesOver (Parse.expect kind what >>= f) s last (t :: ts) more y := by
  have hexpect : Parse.expect kind what (s.facing last (t :: (ts ++ more)))
      = Parse.advance (s.facing last (t :: (ts ++ more))) := by
    show (if t.kind == kind then _ else _ : Reader Token) _ = _
    rw [if_pos (beq_iff_eq.mpr ht)]
  show (Parse.expect kind what >>= f) (s.facing last (t :: (ts ++ more))) = _
  rw [bind_apply, hexpect, ← bind_apply]
  exact advance ht h hkind

lemma symbol {f : Unit → Reader β} {sym} (ht : t.kind = .symbol sym)
    (h : GoesOver (f ()) s t ts more y) :
    GoesOver (expectSymbol sym what >>= f) s last (t :: ts) more y := by
  have hexpect : Gives (expectSymbol sym what) s last [t] (ts ++ more) () :=
    expect ht rfl nofun
  exact bind hexpect h

lemma eat {f : Bool → Reader β} (ht : t.kind = kind) (h : GoesOver (f true) s t ts more y)
    (hkind : kind ≠ .eof := by decide) :
    GoesOver (Parse.eat kind >>= f) s last (t :: ts) more y := by
  have heat : Gives (Parse.eat kind) s last [t] (ts ++ more) true := by
    show (if t.kind == kind then _ else _ : Reader Bool) _ = _
    rw [if_pos (beq_iff_eq.mpr ht)]
    exact congrArg (Except.ok true, ·) (advance_facing ht hkind)
  exact bind heat h

lemma eat_ne {f : Bool → Reader β} (ht : (more.headD endToken).kind ≠ kind)
    (h : GoesOver (f false) s last [] more y) :
    GoesOver (Parse.eat kind >>= f) s last [] more y := by
  show ((if ((more.headD endToken).kind == kind) then _ else _ : Reader Bool) >>= f)
    (s.facing last more) = _
  rw [if_neg fun heq => ht (beq_iff_eq.mp heq)]
  exact h

end GoesOver

end Facing

/-! ## Where phrases end -/

variable {k : Nat}

def EndsOperand (last next : Token) : Prop :=
  next.kind ≠ .symbol .dot ∧
    (next.kind = .symbol .leftParen ∨ next.kind = .symbol .leftBracket →
      next.pos.line ≠ last.pos.line)

def EndsLevels (k : Nat) (next : Token) : Prop :=
  ∀ operators ∈ levels.drop k, operatorAt? operators next.kind = none

/-- An expression that ends with `last` does not go on with `next`. -/
structure EndsExpr (last next : Token) : Prop where
  operand : EndsOperand last next
  levels : EndsLevels 0 next
  question : next.kind ≠ .symbol .question

def closesExpr (kind : TokenKind) : Bool :=
  kind != .symbol .dot && kind != .symbol .leftParen && kind != .symbol .leftBracket
    && kind != .symbol .question && levels.all fun operators => (operatorAt? operators kind).isNone

lemma EndsExpr.of_closes {last} (h : closesExpr next.kind) : EndsExpr last next := by
  simp only [closesExpr, Bool.and_eq_true, bne_iff_ne, all_eq_true, Option.isNone_iff_eq_none] at h
  obtain ⟨⟨⟨⟨hdot, hparen⟩, hbracket⟩, hquestion⟩, hlevels⟩ := h
  exact ⟨⟨hdot, fun hopen => absurd hopen (not_or.mpr ⟨hparen, hbracket⟩)⟩, hlevels, hquestion⟩

lemma EndsExpr.of_kind {last} (h : next.kind = kind) (hcloses : closesExpr kind) :
    EndsExpr last next :=
  .of_closes (h ▸ hcloses)

/-! ### Levels -/

lemma drop_levels (h : k < levels.length) :
    levels.drop k = levels.getD k [] :: levels.drop (k + 1) := by
  rw [drop_eq_getElem_cons h, getD_eq_getElem?_getD, getElem?_eq_getElem h, Option.getD_some]

lemma mem_getD_levels {p : Symbol × BinaryOp} (h : p ∈ levels.getD k []) : k < levels.length := by
  by_cases hk : k < levels.length
  · exact hk
  · rw [getD_eq_getElem?_getD, getElem?_eq_none (Nat.not_lt.mp hk)] at h
    exact absurd h not_mem_nil

lemma levels_apart : ∀ i < levels.length, ∀ j < levels.length,
    ∀ p ∈ levels.getD i [], ∀ q ∈ levels.getD j [], p.1 = q.1 → i = j := by
  decide

lemma operatorAt?_mem {operators}
    (h : operatorAt? operators kind = some op) : ∃ s, kind = .symbol s ∧ (s, op) ∈ operators := by
  cases kind with
  | symbol s =>
    obtain ⟨before, after, hsplit, -⟩ := lookup_eq_some_iff.mp h
    refine ⟨s, rfl, ?_⟩
    rw [hsplit]
    exact mem_append_right _ mem_cons_self
  | _ => cases h

lemma EndsLevels.of_operator {t : Token} (h : operatorAt? (levels.getD k []) t.kind = some op) :
    EndsLevels (k + 1) t := by
  intro operators hmem
  obtain ⟨s, hkind, hs⟩ := operatorAt?_mem h
  obtain ⟨j, hj, rfl⟩ := mem_iff_getElem.mp hmem
  cases hother : operatorAt? (levels.drop (k + 1))[j] t.kind with
  | none => rfl
  | some op' =>
    -- no symbol is an operator of two levels
    exfalso
    obtain ⟨s', hkind', hs'⟩ := operatorAt?_mem hother
    obtain rfl : s = s' := TokenKind.symbol.inj (hkind.symm.trans hkind')
    rw [getElem_drop] at hs'
    have hlt : k + 1 + j < levels.length := by
      rw [length_drop] at hj
      omega
    have hget : levels.getD (k + 1 + j) [] = levels[k + 1 + j] := by
      rw [getD_eq_getElem?_getD, getElem?_eq_getElem hlt, Option.getD_some]
    have happart := levels_apart k (mem_getD_levels hs) _ hlt _ hs (s, op') (hget ▸ hs') rfl
    omega

lemma EndsLevels.head (h : EndsLevels k next) (hk : k < levels.length) :
    operatorAt? (levels.getD k []) next.kind = none :=
  h _ (drop_levels hk ▸ mem_cons_self)

lemma EndsLevels.tail (h : EndsLevels k next) : EndsLevels (k + 1) next :=
  fun operators hmem => h operators (mem_of_mem_drop (by rwa [drop_drop]))

/-! ## Phrases -/

/-- The literal that a token stands for. -/
inductive Denotes (t : Token) : Literal → Prop where
  | decimal {n} : t.kind = .number → Number.readInt64? 10 t.text.toList = some n →
      Denotes t (.int n)
  | hexadecimal {n} : t.kind = .hexNumber →
      Number.readInt64? 16 (afterMark t.text.toList) = some n → Denotes t (.int n)
  | seconds {n ms} : t.kind = .seconds → Number.readInt64? 10 t.text.toList.dropLast = some n →
      Number.int64? (n.toInt * 1000) = some ms → Denotes t (.millis ms)
  | float {x} : t.kind = .float → Number.readFloat? t.text.toList = some x → Denotes t (.float x)
  | text : t.kind = .text → Denotes t (.text t.text)
  | yes : t.kind = .keyword .yes → Denotes t (.bool true)
  | no : t.kind = .keyword .no → Denotes t (.bool false)

/-- Something that a reader of expressions looks for, and what it stands for: an expression with a
    condition at most, one with operators from a level on, an operand with or without operators
    before it, an operand with or without anything after it, or expressions between commas. -/
inductive Phrase where
  | ternary (e : Expr)
  | level (k : Nat) (e : Expr)
  | unary (e : Expr)
  | operand (e : Expr)
  | primary (e : Expr)
  | items (es : List Expr)

/-- The tokens of a phrase. -/
inductive Reads : Phrase → List Token → Prop where
  | condition {c y n cs ys ns} {q colon : Token} :
      Reads (.level 0 c) cs → q.kind = .symbol .question → Reads (.ternary y) ys →
      colon.kind = .symbol .colon → Reads (.ternary n) ns →
      Reads (.ternary (.ternary q.pos c y n)) (cs ++ q :: (ys ++ colon :: ns))
  | plain {e ts} : Reads (.level 0 e) ts → Reads (.ternary e) ts
  | binary {k l r ls rs} {t : Token} {op} :
      Reads (.level k l) ls → operatorAt? (levels.getD k []) t.kind = some op →
      Reads (.level (k + 1) r) rs → Reads (.level k (.binary t.pos op l r)) (ls ++ t :: rs)
  | tighter {k : Nat} {e ts} : k < levels.length →
      Reads (.level (k + 1) e) ts → Reads (.level k e) ts
  | tightest {e ts} : Reads (.unary e) ts → Reads (.level levels.length e) ts
  | unary {e ts} {t : Token} {op} : unaryOperator? t.kind = some op → Reads (.unary e) ts →
      Reads (.unary (.unary t.pos op e)) (t :: ts)
  | bare {e ts} : Reads (.operand e) ts → Reads (.unary e) ts
  | call {e ts args es} {o c : Token} : Reads (.operand e) ts → o.kind = .symbol .leftParen →
      o.pos.line = (ts.getLastD o).pos.line → Reads (.items es) args →
      c.kind = .symbol .rightParen → Reads (.operand (.call o.pos e es)) (ts ++ o :: (args ++ [c]))
  | callEmpty {e ts} {o c : Token} : Reads (.operand e) ts → o.kind = .symbol .leftParen →
      o.pos.line = (ts.getLastD o).pos.line → c.kind = .symbol .rightParen →
      Reads (.operand (.call o.pos e [])) (ts ++ [o, c])
  | index {e i ts is} {o c : Token} : Reads (.operand e) ts → o.kind = .symbol .leftBracket →
      o.pos.line = (ts.getLastD o).pos.line → Reads (.ternary i) is →
      c.kind = .symbol .rightBracket → Reads (.operand (.index o.pos e i)) (ts ++ o :: (is ++ [c]))
  | member {e ts} {dot field : Token} :
      Reads (.operand e) ts → dot.kind = .symbol .dot → isOperandName field.kind →
      Reads (.operand (.member dot.pos e field.text)) (ts ++ [dot, field])
  | simple {e ts} : Reads (.primary e) ts → Reads (.operand e) ts
  | literal {t l} : Denotes t l → Reads (.primary (.literal t.pos l)) [t]
  | name {t : Token} : isOperandName t.kind → Reads (.primary (.name t.pos t.text)) [t]
  | group {e ts} {o c : Token} :
      o.kind = .symbol .leftParen → Reads (.ternary e) ts → c.kind = .symbol .rightParen →
      Reads (.primary e) (o :: (ts ++ [c]))
  | bytes {es ts} {o c : Token} :
      o.kind = .symbol .leftBracket → Reads (.items es) ts → c.kind = .symbol .rightBracket →
      Reads (.primary (.bytes o.pos es)) (o :: (ts ++ [c]))
  | bytesEmpty {o c : Token} : o.kind = .symbol .leftBracket → c.kind = .symbol .rightBracket →
      Reads (.primary (.bytes o.pos [])) [o, c]
  | random {l h ls hs} {k o comma c : Token} :
      k.kind = .keyword .random → o.kind = .symbol .leftParen → Reads (.ternary l) ls →
      comma.kind = .symbol .comma → Reads (.ternary h) hs → c.kind = .symbol .rightParen →
      Reads (.primary (.random k.pos l h)) (k :: o :: (ls ++ comma :: (hs ++ [c])))
  | randomBytes {e ts} {k o c : Token} :
      k.kind = .keyword .randomBytes → o.kind = .symbol .leftParen → Reads (.ternary e) ts →
      c.kind = .symbol .rightParen → Reads (.primary (.randomBytes k.pos e)) (k :: o :: (ts ++ [c]))
  | last {e ts} : Reads (.ternary e) ts → Reads (.items [e]) ts
  | more {e es ts rest} {comma : Token} :
      Reads (.ternary e) ts → comma.kind = .symbol .comma → Reads (.items es) rest →
      Reads (.items (e :: es)) (ts ++ comma :: rest)

/-! ## What readers do with phrases -/

def TernaryRead (e : Expr) (ts : List Token) : Prop :=
  -- a token may be reached only through all the levels, for which twenty is enough
  ∀ f s last (more : List Token), 20 * ts.length ≤ f →
    EndsExpr (ts.getLastD last) (more.headD endToken) → Gives (ternary f) s last ts more e

def LevelRead (k : Nat) (e : Expr) (ts : List Token) : Prop :=
  ∀ f s last (more : List Token),
    20 * ts.length + levels.length ≤ f + 11 + k →
    EndsOperand (ts.getLastD last) (more.headD endToken) →
    EndsLevels k (more.headD endToken) → Gives (binary f (levels.drop k)) s last ts more e

/-- The reader of a level comes over `ts` with `e` as what it has so far, and looks for an operator
    of the level. -/
def LevelOpen (k : Nat) (e : Expr) (ts : List Token) : Prop :=
  ∀ f s last (more : List Token),
    20 * ts.length + levels.length ≤ f + 11 + k →
    EndsOperand (ts.getLastD last) (more.headD endToken) →
    EndsLevels (k + 1) (more.headD endToken) →
    ∃ f', f ≤ f' + ts.length ∧ GoesOver (binary f (levels.drop k)) s last ts more
      (binaryRest f' (levels.getD k []) (levels.drop (k + 1)) e)

def UnaryRead (e : Expr) (ts : List Token) : Prop :=
  ∀ f s last (more : List Token), 20 * ts.length ≤ f + 12 →
    EndsOperand (ts.getLastD last) (more.headD endToken) → Gives (unary f) s last ts more e

def OperandOpen (e : Expr) (ts : List Token) : Prop :=
  ∀ f s last more, 20 * ts.length ≤ f + 13 →
    ∃ f', f ≤ f' + ts.length ∧
      GoesOver (primary f >>= postfixRest f) s last ts more (postfixRest f' e)

def PrimaryRead (e : Expr) (ts : List Token) : Prop :=
  ∀ f s last more, 20 * ts.length ≤ f + 13 →
    Gives (primary f) s last ts more e

def ItemsRead (es : List Expr) (ts : List Token) : Prop :=
  ∀ f s last (more : List Token), 20 * ts.length < f →
    EndsExpr (ts.getLastD last) (more.headD endToken) →
    (more.headD endToken).kind ≠ .symbol .comma → Gives (commaSeparated f) s last ts more es

/-- What the reader of a phrase does with its tokens. -/
def Phrase.Holds : Phrase → List Token → Prop
  | .ternary e, ts => TernaryRead e ts
  | .level k e, ts => LevelRead k e ts ∧ (k < levels.length → LevelOpen k e ts)
  | .unary e, ts => UnaryRead e ts
  | .operand e, ts => OperandOpen e ts
  | .primary e, ts => PrimaryRead e ts
  | .items es, ts => ItemsRead es ts

/-! ### Tokens of phrases -/

lemma getLastD_of_ne_nil {ts} (h : ts ≠ []) (a b : Token) : ts.getLastD a = ts.getLastD b := by
  cases ts with
  | nil => exact absurd rfl h
  | cons t ts => rw [getLastD_cons, getLastD_cons]

def startsExpr : TokenKind → Bool
  | .number | .hexNumber | .float | .seconds | .text | .name => true
  | .keyword k => k == .yes || k == .no || k == .data || k == .ext || k == .random
      || k == .randomBytes
  | .symbol s => s == .bang || s == .minus || s == .tilde || s == .leftParen || s == .leftBracket
  | _ => false

def startsOperand (kind : TokenKind) : Bool :=
  startsExpr kind && (unaryOperator? kind).isNone

lemma Denotes.startsOperand {t l} (h : Denotes t l) : startsOperand t.kind := by
  cases h <;> simp [*, Parse.startsOperand, startsExpr, unaryOperator?]

lemma isOperandName.startsOperand (h : isOperandName kind) : startsOperand kind := by
  rcases h with rfl | rfl | rfl <;> rfl

def Phrase.startsWith : Phrase → TokenKind → Bool
  | .operand _ => startsOperand
  | .primary _ => startsOperand
  | _ => startsExpr

lemma startsExpr_of_startsOperand (h : startsOperand kind) : startsExpr kind :=
  (Bool.and_eq_true_iff.mp h).1

lemma startsExpr_of_unaryOperator? {op} (h : unaryOperator? kind = some op) : startsExpr kind := by
  unfold unaryOperator? at h
  split at h <;> first | rfl | cases h

variable {p : Phrase} {ts : List Token}

lemma Reads.head (h : Reads p ts) : ∃ t rest, ts = t :: rest ∧ p.startsWith t.kind := by
  induction h with
  | condition _ _ _ _ _ ih _ _ | binary _ _ _ ih _ | call _ _ _ _ _ ih _ | callEmpty _ _ _ _ ih
    | index _ _ _ _ _ ih _ | member _ _ _ ih | more _ _ _ ih _ =>
    obtain ⟨t, rest, rfl, ht⟩ := ih
    exact ⟨t, _, rfl, ht⟩
  | plain _ ih | tighter _ _ ih | tightest _ ih | simple _ ih | last _ ih => exact ih
  | unary hop _ _ => exact ⟨_, _, rfl, startsExpr_of_unaryOperator? hop⟩
  | bare _ ih =>
    obtain ⟨t, rest, rfl, ht⟩ := ih
    exact ⟨t, rest, rfl, startsExpr_of_startsOperand ht⟩
  | literal hl => exact ⟨_, _, rfl, hl.startsOperand⟩
  | name hn => exact ⟨_, _, rfl, hn.startsOperand⟩
  | group hk _ _ _ | bytes hk _ _ _ | bytesEmpty hk _ | random hk _ _ _ _ _ _ _
    | randomBytes hk _ _ _ _ => exact ⟨_, _, rfl, by rw [hk]; rfl⟩

lemma Reads.ne_nil (h : Reads p ts) : ts ≠ [] := by
  obtain ⟨t, rest, rfl, -⟩ := h.head
  exact cons_ne_nil t rest

lemma Reads.length_pos (h : Reads p ts) : 0 < ts.length :=
  length_pos_iff.mpr h.ne_nil

def SecondGoesOn (ts : List Token) : Prop :=
  ∀ t t' rest, ts = t :: t' :: rest → isOperandName t.kind → closesExpr t'.kind = false

lemma SecondGoesOn.append {rest x} (h : SecondGoesOn ts) (hne : ts ≠ [])
    (hx : closesExpr x.kind = false) : SecondGoesOn (ts ++ x :: rest) := by
  intro t t' rest' heq hname
  match ts, hne, h with
  | [t0], _, _ =>
    obtain ⟨-, rfl, -⟩ : t0 = t ∧ x = t' ∧ rest = rest' := by simpa using heq
    exact hx
  | t0 :: t1 :: _, _, h =>
    obtain ⟨rfl, rfl, -⟩ := by simpa using heq
    exact h _ _ _ rfl hname

lemma SecondGoesOn.of_head {t} (h : ¬ isOperandName t.kind) : SecondGoesOn (t :: ts) := by
  intro t0 t' rest heq hname
  obtain ⟨rfl, -⟩ := List.cons.inj heq
  exact absurd hname h

lemma SecondGoesOn.singleton (t) : SecondGoesOn [t] := by
  intro t0 t' rest heq
  cases heq

lemma closesExpr_operator (h : operatorAt? (levels.getD k []) kind = some op) :
    closesExpr kind = false := by
  obtain ⟨sym, rfl, hmem⟩ := operatorAt?_mem h
  have hlevels : ∀ i < levels.length, ∀ p ∈ levels.getD i [],
      closesExpr (.symbol p.1) = false := by decide
  exact hlevels k (mem_getD_levels hmem) _ hmem

lemma Reads.second (h : Reads p ts) (hp : ∀ es, p ≠ .items es) : SecondGoesOn ts := by
  induction h with
  | condition h ht _ _ _ ih _ _ | call h ht _ _ _ ih _ | callEmpty h ht _ _ ih
    | index h ht _ _ _ ih _ | member h ht _ ih =>
    exact (ih nofun).append h.ne_nil (by rw [ht]; rfl)
  | binary hl hop _ ih _ => exact (ih nofun).append hl.ne_nil (closesExpr_operator hop)
  | plain _ ih | tighter _ _ ih | tightest _ ih | bare _ ih | simple _ ih => exact ih nofun
  | unary hop _ _ =>
    refine .of_head fun hname => ?_
    rcases hname with h | h | h <;> rw [h] at hop <;> cases hop
  | literal _ | name _ => exact .singleton _
  | group hk _ _ _ | bytes hk _ _ _ | bytesEmpty hk _ | random hk _ _ _ _ _ _ _
    | randomBytes hk _ _ _ _ => exact .of_head (by simp [isOperandName, hk])
  | last _ _ | more _ _ _ _ _ => exact absurd rfl (hp _)

/-! ### Conditions and levels -/

section Levels

variable {k : Nat} {e l r : Expr} {ts ls rs : List Token} {t : Token}

lemma LevelOpen.read (hk : k < levels.length) (hpos : 0 < ts.length) (h : LevelOpen k e ts) :
    LevelRead k e ts := by
  intro f s last more hf hoperand hlevels
  obtain ⟨f', hf', hread⟩ := h f s last more hf hoperand hlevels.tail
  obtain _ | g := f'
  · omega
  refine hread.stop ?_
  rw [binaryRest]
  refine .peekBeyond ?_
  rw [hlevels.head hk]
  rfl

lemma EndsOperand.of_ne {last} (hdot : next.kind ≠ .symbol .dot)
    (hparen : next.kind ≠ .symbol .leftParen) (hbracket : next.kind ≠ .symbol .leftBracket) :
    EndsOperand last next :=
  ⟨hdot, fun hopen => absurd hopen (not_or.mpr ⟨hparen, hbracket⟩)⟩

lemma EndsOperand.of_operator {last}
    (h : operatorAt? (levels.getD k []) t.kind = some op) : EndsOperand last t := by
  have hlevels : ∀ i < levels.length, ∀ p ∈ levels.getD i [],
      p.1 ≠ .dot ∧ p.1 ≠ .leftParen ∧ p.1 ≠ .leftBracket := by decide
  obtain ⟨sym, hkind, hmem⟩ := operatorAt?_mem h
  obtain ⟨hdot, hparen, hbracket⟩ := hlevels k (mem_getD_levels hmem) _ hmem
  exact .of_ne (by simpa [hkind] using hdot) (by simpa [hkind] using hparen)
    (by simpa [hkind] using hbracket)

lemma binary_open (hl : LevelOpen k l ls) (hop : operatorAt? (levels.getD k []) t.kind = some op)
    (hr : LevelRead (k + 1) r rs) : LevelOpen k (.binary t.pos op l r) (ls ++ t :: rs) := by
  intro f s last more hf hoperand hlevels
  simp only [length_append, length_cons] at hf ⊢
  simp only [getLastD_append, getLastD_cons] at hoperand hlevels
  obtain ⟨f', hf', hleft⟩ := hl f s last (t :: rs ++ more) (by omega) (.of_operator hop)
    (.of_operator hop)
  obtain ⟨sym, hkind, hmem⟩ := operatorAt?_mem hop
  have hk := mem_getD_levels hmem
  obtain _ | g := f'
  · omega
  refine ⟨g, by omega, hleft.trans ?_⟩
  rw [binaryRest]
  refine .peek ?_
  rw [hop]
  exact .advance hkind (.final (hr g s t more (by omega) hoperand hlevels)) (by simp)

lemma tighter_open (hk : k < levels.length) (h : LevelRead (k + 1) e ts) (hpos : 0 < ts.length) :
    LevelOpen k e ts := by
  intro f s last more hf hoperand hlevels
  obtain _ | f := f
  · omega
  refine ⟨f, by omega, ?_⟩
  rw [drop_levels hk, binary]
  exact .final (h f s last more (by omega) hoperand hlevels)

lemma tightest_read (h : UnaryRead e ts) (hpos : 0 < ts.length) : LevelRead levels.length e ts := by
  intro f s last more hf hoperand _
  obtain _ | f := f
  · omega
  rw [drop_length, binary]
  exact h f s last more (by omega) hoperand

end Levels

/-! ### Operands -/

lemma postfixRest_ends {f e s last} {more : List Token}
    (h : EndsOperand last (more.headD endToken)) :
    Gives (postfixRest (f + 1) e) s last [] more e := by
  obtain ⟨hdot, hopen⟩ := h
  -- a bracket on a new line does not belong to what stands before it
  have hopens : ∀ sym, sym = Symbol.leftParen ∨ sym = Symbol.leftBracket →
      ¬ ((more.headD endToken).kind == .symbol sym
        && (more.headD endToken).pos.line == last.pos.line) := by
    intro sym hsym hboth
    simp only [Bool.and_eq_true, beq_iff_eq] at hboth
    refine hopen ?_ hboth.2
    rcases hsym with rfl | rfl
    · exact .inl hboth.1
    · exact .inr hboth.1
  rw [postfixRest]
  show (if ((more.headD endToken).kind == _ && (more.headD endToken).pos.line == last.pos.line)
    then _ else if (more.headD endToken).kind == _ && (more.headD endToken).pos.line ==
      last.pos.line
    then _ else if (more.headD endToken).kind == _ then _ else _ : Reader Expr) _ = _
  rw [if_neg (hopens _ (.inl rfl)), if_neg (hopens _ (.inr rfl)),
    if_neg fun h => hdot (beq_iff_eq.mp h)]
  rfl

lemma OperandOpen.goesOn {e e' t} {rest : List Token} (h : OperandOpen e ts) (hne : ts ≠ [])
    (hstep : ∀ f s more, 20 * rest.length + 20 ≤ f →
      GoesOver (postfixRest (f + 1) e) s (ts.getLastD t) (t :: rest) more (postfixRest f e'))
    : OperandOpen e' (ts ++ t :: rest) := by
  intro f s last more hf
  have hpos : 0 < ts.length := length_pos_iff.mpr hne
  simp only [length_append, length_cons] at hf ⊢
  obtain ⟨f', hf', hread⟩ := h f s last (t :: rest ++ more) (by omega)
  obtain _ | g := f'
  · omega
  refine ⟨g, by omega, hread.trans ?_⟩
  rw [getLastD_of_ne_nil hne last t]
  exact hstep g s more (by omega)

section Bracketed

variable {f : Nat} {s : State} {last c : Token} {ts more : List Token} {close : Symbol}
  {es : List Expr}

lemma arguments_read (h : ItemsRead es ts)
    (hhead : ∃ t rest, ts = t :: rest ∧ startsExpr t.kind) (hc : c.kind = .symbol close)
    (hclose : close = .rightParen ∨ close = .rightBracket) (hf : 20 * ts.length + 2 ≤ f) :
    Gives (arguments f close what) s last (ts ++ [c]) more es := by
  obtain _ | f := f
  · omega
  have hitems := h f s last ([c] ++ more) (by omega)
    (.of_kind hc (by rcases hclose with rfl | rfl <;> rfl))
    (by rw [singleton_append, headD_cons, hc]; rcases hclose with rfl | rfl <;> simp)
  obtain ⟨t, rest, rfl, ht⟩ := hhead
  have hopen : ¬ (t.kind == .symbol close) := by
    intro hkind
    rw [beq_iff_eq.mp hkind] at ht
    rcases hclose with rfl | rfl <;> cases ht
  rw [arguments]
  refine .peekKind ?_
  rw [if_neg hopen]
  exact .bind hitems (.symbol hc rfl)

lemma arguments_empty (hc : c.kind = .symbol close) :
    Gives (arguments (f + 1) close what) s last [c] more [] := by
  rw [arguments]
  refine .peekKind ?_
  rw [if_pos (beq_iff_eq.mpr hc)]
  exact .advance hc rfl (by simp)

end Bracketed

variable {e : Expr}

lemma call_open {es} {rest : List Token} {o} (h : OperandOpen e ts) (hne : ts ≠ [])
    (ho : o.kind = .symbol .leftParen) (hline : o.pos.line = (ts.getLastD o).pos.line)
    (hargs : ∀ f s more, 20 * rest.length + 20 ≤ f →
      Gives (arguments f .rightParen "')' after arguments")
    s o rest more es) : OperandOpen (.call o.pos e es) (ts ++ o :: rest) := by
  refine h.goesOn hne fun f s more hf => ?_
  rw [postfixRest]
  refine .get (.peek ?_)
  rw [if_pos (by simp [ho, hline]; rfl)]
  exact .advance ho (.final (hargs f s more hf))

lemma index_open {i is} {o c : Token} (h : OperandOpen e ts)
    (hne : ts ≠ []) (ho : o.kind = .symbol .leftBracket)
    (hline : o.pos.line = (ts.getLastD o).pos.line) (hi : TernaryRead i is)
    (hc : c.kind = .symbol .rightBracket) :
    OperandOpen (.index o.pos e i) (ts ++ o :: (is ++ [c])) := by
  refine h.goesOn hne fun f s more hf => ?_
  simp only [length_append] at hf
  rw [postfixRest]
  refine .get (.peek ?_)
  rw [if_neg (by simp [ho]), if_pos (by simp [ho, hline]; rfl)]
  exact .advance ho (.bind (hi f s o _ (by omega) (.of_kind hc rfl)) (.symbol hc rfl))

lemma memberName_gives {s last t more} (h : isOperandName t.kind) :
    Gives memberName s last [t] more t.text := by
  refine .peekKind ?_
  rcases h with h | h | h <;> rw [h] <;> exact .advance h rfl

lemma member_open {dot field : Token} (h : OperandOpen e ts) (hne : ts ≠ [])
    (hdot : dot.kind = .symbol .dot) (hfield : isOperandName field.kind) :
    OperandOpen (.member dot.pos e field.text) (ts ++ [dot, field]) := by
  refine h.goesOn hne fun f s more _ => ?_
  rw [postfixRest]
  refine .get (.peek ?_)
  rw [if_neg (by simp [hdot]), if_neg (by simp [hdot]), if_pos (by simp [hdot])]
  exact .advance hdot (.final (memberName_gives hfield))

/-! ### Bare operands -/

lemma literal_read {t l} (h : Denotes t l) : PrimaryRead (.literal t.pos l) [t] := by
  intro f s last more hf
  obtain _ | f := f
  · simp at hf
  rw [primary]
  refine .peek ?_
  cases h with
  | decimal hkind hn | hexadecimal hkind hn =>
    rw [hkind]
    refine .advance hkind (.final ?_)
    rw [integer, hn]
    rfl
  | seconds hkind hn hms =>
    rw [hkind]
    refine .advance hkind (.final ?_)
    rw [seconds, integer, hn]
    simp only [pure_bind, hms]
    rfl
  | float hkind hx =>
    rw [hkind]
    refine .advance hkind (.final ?_)
    rw [float, hx]
    rfl
  | text hkind | yes hkind | no hkind =>
    rw [hkind]
    exact .advance hkind rfl

/-! ## Readers accept the grammar -/

/-- Every reader reads its phrases. -/
lemma Reads.holds (h : Reads p ts) : p.Holds ts := by
  have hlength : levels.length = 10 := rfl
  induction h with
  | @condition c y n cs ys ns q colon _ hq _ hcolon _ ihc ihy ihn =>
    intro f s last more hf hends
    simp only [length_append, length_cons] at hf
    simp only [getLastD_append, getLastD_cons] at hends
    obtain _ | f := f
    · omega
    have hlevels : EndsLevels 0 q := by
      rw [EndsLevels, hq]
      decide
    rw [ternary]
    refine .bind (ihc.1 f s last _ (by omega) (.of_ne (by simp [hq]) (by simp [hq])
      (by simp [hq])) hlevels) (.peek ?_)
    rw [if_pos (by simp [hq])]
    exact .advance hq (.bind (ihy f s q _ (by omega) (.of_kind hcolon rfl))
      (.symbol hcolon (.final (ihn f s colon more (by omega) hends))))
  | plain h ih =>
    intro f s last more hf hends
    have hpos := h.length_pos
    obtain _ | f := f
    · omega
    rw [ternary]
    refine (GoesOver.final (ih.1 f s last more (by omega) hends.operand hends.levels)).stop ?_
    show (if ((more.headD endToken).kind == .symbol .question) = true then _ else _
      : Reader Expr) _ = _
    rw [if_neg fun h => hends.question (beq_iff_eq.mp h)]
    rfl
  | binary hl hop hr ihl ihr =>
    obtain ⟨_, _, hmem⟩ := operatorAt?_mem hop
    have hk := mem_getD_levels hmem
    have hopen := binary_open (ihl.2 hk) hop ihr.1
    exact ⟨hopen.read hk (hl.binary hop hr).length_pos, fun _ => hopen⟩
  | tighter hk h ih =>
    have hopen := tighter_open hk ih.1 h.length_pos
    exact ⟨hopen.read hk h.length_pos, fun _ => hopen⟩
  | tightest h ih => exact ⟨tightest_read ih h.length_pos, fun hk => absurd hk (Nat.lt_irrefl _)⟩
  | @unary e ts t op hop _ ih =>
    intro f s last more hf hoperand
    rw [length_cons] at hf
    rw [getLastD_cons] at hoperand
    obtain _ | f := f
    · omega
    rw [Parse.unary]
    refine .peek ?_
    rw [hop]
    exact .advance rfl (.final (ih f s t more (by omega) hoperand))
      fun hend => by rw [hend] at hop; cases hop
  | bare h ih =>
    intro f s last more hf hoperand
    obtain ⟨t, rest, rfl, ht⟩ := h.head
    simp only [length_cons] at hf
    obtain _ | f := f
    · omega
    obtain ⟨f', hf', hread⟩ := ih f s last more (by rw [length_cons]; omega)
    rw [length_cons] at hf'
    obtain _ | g := f'
    · omega
    rw [Parse.unary]
    refine .peek ?_
    rw [Option.isNone_iff_eq_none.mp (Bool.and_eq_true_iff.mp ht).2]
    exact hread.stop (postfixRest_ends hoperand)
  | call h ho hline hargs hc ih ihargs =>
    refine call_open ih h.ne_nil ho hline fun f s more hf => ?_
    simp only [length_append] at hf
    exact arguments_read ihargs hargs.head hc (.inl rfl) (by omega)
  | callEmpty h ho hline hc ih =>
    refine call_open ih h.ne_nil ho hline fun f s more hf => ?_
    obtain _ | f := f
    · omega
    exact arguments_empty hc
  | index h ho hline _ hc ih ihi => exact index_open ih h.ne_nil ho hline ihi hc
  | member h hdot hfield ih => exact member_open ih h.ne_nil hdot hfield
  | simple _ ih =>
    exact fun f s last more hf => ⟨f, Nat.le_add_right _ _, .final (ih f s last more hf)⟩
  | literal hl => exact literal_read hl
  | name hn =>
    intro f s last more hf
    obtain _ | f := f
    · simp at hf
    rw [primary]
    refine .peek ?_
    rcases hn with h | h | h <;> rw [h] <;> exact .advance h rfl
  | @group e ts o c ho _ hc ih =>
    intro f s last more hf
    simp only [length_cons, length_append] at hf
    obtain _ | f := f
    · omega
    rw [primary]
    refine .peek ?_
    rw [ho]
    exact .advance ho (.bind (ih f s o _ (by omega) (.of_kind hc rfl)) (.symbol hc rfl))
  | bytes ho h hc ih =>
    intro f s last more hf
    simp only [length_cons, length_append] at hf
    obtain _ | f := f
    · omega
    rw [primary]
    refine .peek ?_
    rw [ho]
    exact .advance ho (.final (arguments_read ih h.head hc (.inr rfl) (by omega)))
  | bytesEmpty ho hc =>
    intro f s last more hf
    simp only [length_cons] at hf
    obtain _ | _ | f := f
    · omega
    · omega
    rw [primary]
    refine .peek ?_
    rw [ho]
    exact .advance ho (.final (arguments_empty hc))
  | @random l h ls hs k o comma c hk ho _ hcomma _ hc ihl ihh =>
    intro f s last more hf
    simp only [length_cons, length_append] at hf
    obtain _ | f := f
    · omega
    rw [primary]
    refine .peek ?_
    rw [hk]
    exact .advance hk (.symbol ho (.bind (ihl f s o _ (by omega) (.of_kind hcomma rfl))
      (.symbol hcomma (.bind (ihh f s comma _ (by omega) (.of_kind hc rfl)) (.symbol hc rfl)))))
  | @randomBytes e ts k o c hk ho _ hc ih =>
    intro f s last more hf
    simp only [length_cons, length_append] at hf
    obtain _ | f := f
    · omega
    rw [primary]
    refine .peek ?_
    rw [hk]
    exact .advance hk (.symbol ho (.bind (ih f s o _ (by omega) (.of_kind hc rfl))
      (.symbol hc rfl)))
  | last h ih =>
    intro f s last more hf hends hcomma
    obtain _ | f := f
    · omega
    rw [commaSeparated]
    exact .stop (.final (ih f s last more (by omega) hends)) (.eat_ne hcomma rfl)
  | @more e es ts rest comma _ hcomma _ ih ihrest =>
    intro f s last more hf hends hnext
    simp only [length_append, length_cons] at hf
    simp only [getLastD_append, getLastD_cons] at hends
    obtain _ | f := f
    · omega
    rw [commaSeparated]
    exact .bind (ih f s last _ (by omega) (.of_kind hcomma rfl))
      (.eat hcomma (.final (ihrest f s comma more (by omega) hends hnext)))

lemma Reads.expression (h : Reads (.ternary e) ts) (s last more)
    (hends : EndsExpr (ts.getLastD last) (more.headD endToken)) :
    Gives expression s last ts more e :=
  .get (h.holds _ s last more (by rw [facing_rest, length_append]; omega) hends)

end CanScript.Parse
