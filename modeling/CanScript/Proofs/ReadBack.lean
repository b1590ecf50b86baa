import CanScript.Proofs.Numerals
import CanScript.Proofs.Print
import CanScript.Proofs.Script

/-! # Expressions and statements are read back

    The words of an expression or a statement that was read from a source are read as the same
    again, but for its places. -/

namespace CanScript

open List Parse Print Scan CanScript.Expr Token Number String

/-! ## Styles -/

def TokenKind.endsLine : TokenKind → Bool
  | .symbol s => s == .semicolon || s == .leftBrace || s == .rightBrace
  | _ => false

/-- What a program is written out with: a spelling for every floating-point number that has one, and
    the blanks after words, a new line beginning only after semicolons and braces. -/
structure Style where
  spell : Float → String
  spell_reads : ∀ x, (∃ cs, Genuine .float cs ∧ Number.readFloat? cs = some x) →
    Genuine .float (spell x).toList ∧ Number.readFloat? (spell x).toList = some x
  after : Lexeme → Char
  after_blank : ∀ w, isSpace (after w) = true
  after_line : ∀ w, after w = '\n' → w.kind.endsLine = true

/-! ## Ranks -/

variable {m : Nat} {e : Expr} {w : Lexeme} {ws : List Lexeme} {t : Token} {s : Symbol}
  {name n : String} {es : List Expr} {us : List Token} {pos : Pos}

namespace Parse

variable {ts : List Token}

def Phrase.ranked : Nat → Expr → Phrase
  | 0, e => .ternary e
  | 11, e => .unary e
  | 12, e => .operand e
  | k + 1, e => .level k e

lemma Phrase.ranked_level {k} (h : k < 10) (e) : Phrase.ranked (k + 1) e = .level k e := by
  unfold Phrase.ranked
  split
  · omega
  · omega
  · omega
  · next hk => rw [Nat.succ.inj hk]

lemma Reads.loosen_step (hm : m < 12) (h : Reads (.ranked (m + 1) e) ts) :
    Reads (.ranked m e) ts := by
  have hlength : levels.length = 10 := rfl
  by_cases h11 : m = 11
  · subst h11
    exact .bare h
  · by_cases h10 : m = 10
    · subst h10
      exact .tighter (by decide) (.tightest h)
    · rw [Phrase.ranked_level (by omega)] at h
      cases m with
      | zero => exact .plain h
      | succ m =>
        rw [Phrase.ranked_level (by omega)]
        exact .tighter (by omega) h

lemma Reads.loosen {n} (h : Reads (.ranked m e) ts) (hm : m ≤ 12) (hn : n ≤ m) :
    Reads (.ranked n e) ts := by
  induction m with
  | zero =>
    obtain rfl : n = 0 := by omega
    exact h
  | succ m ih =>
    by_cases heq : n = m + 1
    · rw [heq]
      exact h
    · exact ih (h.loosen_step (by omega)) (by omega) (by omega)

lemma Reads.level_of_ranked {k : Nat} (hk : k ≤ 10) (h : Reads (.ranked (k + 1) e) ts) :
    Reads (.level k e) ts := by
  by_cases h10 : k = 10
  · subst h10
    exact .tightest h
  · rwa [Phrase.ranked_level (by omega)] at h

end Parse

/-! ## Tokens with given words -/

lemma lexemes_cons_iff {ts : List Token} : ts.map lexeme = w :: ws ↔
    ∃ t rest, ts = t :: rest ∧ t.kind = w.kind ∧ t.text = w.text ∧ rest.map lexeme = ws := by
  obtain ⟨kind, text⟩ := w
  simp only [map_eq_cons_iff, lexeme, Lexeme.mk.injEq, and_assoc]

lemma lexemes_iff (ts : List Token) : (ts.map lexeme = [] ↔ ts = []) ∧
    (∀ w ws, ts.map lexeme = w :: ws ↔ ∃ t rest, ts = t :: rest ∧ t.kind = w.kind ∧
      t.text = w.text ∧ rest.map lexeme = ws) ∧
    ∀ us ws, ts.map lexeme = us ++ ws ↔ ∃ as bs, ts = as ++ bs ∧
      as.map lexeme = us ∧ bs.map lexeme = ws :=
  ⟨map_eq_nil_iff, fun _ _ => lexemes_cons_iff, fun _ _ => map_eq_append_iff⟩

lemma lexemes_nil {ts : List Token} (h : ts.map lexeme = []) : ts = [] :=
  map_eq_nil_iff.mp h

/-! ## Literals and names -/

namespace Scan

lemma isNumeral_toDigits (n) : IsNumeral (Nat.toDigits 10 n) :=
  ⟨toDigits_ne_nil 10 n, fun _ hc =>
    Nat.isDigit_of_mem_toDigits (by decide) (by decide) hc⟩

lemma IsNumeral.unsigned {ds} (h : IsNumeral ds) : ∀ c, ds.head? = some c → c ≠ '-' ∧ c ≠ '+' :=
  unsigned_of_class (p := Char.isDigit) rfl rfl h.2

lemma Spelled.genuine {kind} (h : Spelled t) (hkind : t.kind = kind)
    (hinvalid : kind ≠ .invalid) (heof : kind ≠ .eof) : Genuine kind t.text.toList := by
  subst hkind
  exact h hinvalid heof

variable {cs : List Char}

lemma Genuine.number_numeral (h : Genuine .number cs) : IsNumeral cs := by
  cases h with
  | number hds => exact hds

lemma Genuine.afterMark_unsigned (h : Genuine .hexNumber cs) :
    ∀ c, (afterMark cs).head? = some c → c ≠ '-' ∧ c ≠ '+' := by
  cases h with
  | hexNumber _ _ hds => exact unsigned_of_class (p := isHexDigit) rfl rfl hds

lemma Genuine.seconds_numeral (h : Genuine .seconds cs) : IsNumeral cs.dropLast := by
  cases h with
  | seconds hds => rwa [dropLast_concat]

end Scan

lemma int_nonneg {n} (h : LiteralFrom Spelled (.int n)) : 0 ≤ n.toInt := by
  cases h with
  | decimal ht hkind hn =>
    exact readInt64?_nonneg (ht.genuine hkind nofun nofun).number_numeral.unsigned hn
  | hexadecimal ht hkind hn =>
    exact readInt64?_nonneg (ht.genuine hkind nofun nofun).afterMark_unsigned hn

lemma millis_seconds {ms} (h : LiteralFrom Spelled (.millis ms)) :
    ∃ n : Int64, 0 ≤ n.toInt ∧ int64? (n.toInt * 1000) = some ms
      ∧ ms.toInt.toNat / 1000 = n.toInt.toNat := by
  cases h with
  | @seconds t n ms ht hkind hn hms =>
    have hnonneg := readInt64?_nonneg
      (ht.genuine hkind nofun nofun).seconds_numeral.unsigned hn
    have hvalue := int64?_eq_some hms
    exact ⟨n, hnonneg, hms, by omega⟩

section Literals

variable (style : Style) {l : Literal}

lemma literal_denotes (h : LiteralFrom Spelled l)
    (hkind : t.kind = (literalWord style.spell l).kind)
    (htext : t.text = (literalWord style.spell l).text) : Denotes t l := by
  cases l with
  | int n =>
    refine .decimal hkind ?_
    rw [htext]
    show readInt64? 10 (ofList _).toList = _
    rw [toList_ofList, readInt64?_toDigits (int_nonneg h)]
  | millis ms =>
    obtain ⟨n, hn, hms, hdiv⟩ := millis_seconds h
    refine .seconds (n := n) hkind ?_ hms
    rw [htext]
    show readInt64? 10 (ofList _).toList.dropLast = _
    rw [toList_ofList, dropLast_concat, hdiv, readInt64?_toDigits hn]
  | float x =>
    cases h with
    | float ht' hkind' hx =>
      have hread := style.spell_reads x ⟨_, ht'.genuine hkind' nofun nofun, hx⟩
      refine .float hkind ?_
      rw [htext]
      exact hread.2
  | bool b =>
    cases b with
    | true => exact .yes hkind
    | false => exact .no hkind
  | text s =>
    rw [show s = t.text from htext.symm]
    exact .text hkind

lemma literal_genuine (h : LiteralFrom Spelled l) :
    Genuine (literalWord style.spell l).kind (literalWord style.spell l).text.toList := by
  cases l with
  | int n =>
    show Genuine .number (ofList _).toList
    rw [toList_ofList]
    exact .number (isNumeral_toDigits _)
  | millis ms =>
    show Genuine .seconds (ofList _).toList
    rw [toList_ofList]
    exact .seconds (isNumeral_toDigits _)
  | float x =>
    cases h with
    | float ht hkind hx => exact (style.spell_reads x ⟨_, ht.genuine hkind nofun nofun, hx⟩).1
  | bool b =>
    cases b with
    | true | false => exact .keyword
  | text s => exact .text

end Literals

/-- The word of a variable or a member is a genuine one of that text. -/
lemma nameWord_spec (h : WordFrom Spelled name) :
    Genuine (nameWord name).kind (nameWord name).text.toList ∧ isOperandName (nameWord name).kind
      ∧ (nameWord name).text = name := by
  obtain ⟨t, ht, hkind, rfl⟩ := h
  have hkeyword : ∀ k, t.kind = .keyword k → t.text = k.word := by
    intro k hk
    have hgenuine := ht.genuine hk nofun nofun
    generalize hcs : t.text.toList = cs at hgenuine
    cases hgenuine with
    | keyword => exact toList_inj.mp hcs
  rcases hkind with hname | hdata | hext
  · have hgenuine := ht.genuine hname nofun nofun
    have hnone : Keyword.ofWord? t.text = none := by
      generalize hcs : t.text.toList = cs at hgenuine
      cases hgenuine with
      | name _ _ hword => rwa [← hcs, ofList_toList] at hword
    have hne : ∀ k : Keyword, t.text ≠ k.word := by
      intro k hk
      rw [hk, Keyword.ofWord?_word] at hnone
      cases hnone
    have hword : nameWord t.text = ⟨.name, t.text⟩ := by
      rw [nameWord, if_neg (hne _), if_neg (hne _)]
    rw [hword]
    exact ⟨hgenuine, .inl rfl, rfl⟩
  · rw [hkeyword _ hdata]
    exact ⟨.keyword, .inr (.inl rfl), rfl⟩
  · rw [hkeyword _ hext]
    exact ⟨.keyword, .inr (.inr rfl), rfl⟩

lemma nameWord_kind (h : WordFrom Spelled name) (hkind : t.kind = (nameWord name).kind)
    (htext : t.text = (nameWord name).text) : isOperandName t.kind ∧ t.text = name := by
  rw [hkind, htext]
  exact (nameWord_spec h).2

/-! ## Expressions -/

lemma BinaryOp.level_le (op : BinaryOp) : op.level ≤ 9 := by
  cases op <;> decide

lemma rank_le (e : Expr) : rank e ≤ 12 := by
  cases e with
  | binary pos op l r => exact Nat.le_trans (Nat.succ_le_succ op.level_le) (by decide)
  | _ => simp [rank]

lemma BinaryOp.operatorAt?_sign (op : BinaryOp) :
    operatorAt? (levels.getD op.level []) (.symbol op.sign) = some op := by
  cases op <;> rfl

lemma UnaryOp.unaryOperator?_sign (op : UnaryOp) : unaryOperator? (.symbol op.sign) = some op := by
  cases op <;> rfl

lemma AssignOp.assignOperator?_sign (op : AssignOp) :
    assignOperator? (.symbol op.sign) = some op := by
  cases op <;> rfl

section Expressions

variable (style : Style)

def ReadsBack (e : Expr) : Prop :=
  ∀ (ts : List Token) line, ts.map Token.lexeme = exprWords style.spell e →
    (∀ t ∈ ts, t.pos.line = line) →
    ∃ e', Reads (.ranked (rank e) e') ts ∧ e'.unplaced = e.unplaced

variable {style} {ts : List Token} {line : Nat}

lemma ReadsBack.ternary (h : ReadsBack style e)
    (hts : ts.map lexeme = exprWords style.spell e) (hline : ∀ t ∈ ts, t.pos.line = line) :
    ∃ e', Reads (.ternary e') ts ∧ e'.unplaced = e.unplaced := by
  obtain ⟨e', hreads, heq⟩ := h ts line hts hline
  exact ⟨e', hreads.loosen (rank_le e) (Nat.zero_le _), heq⟩

lemma ReadsBack.enclosed (h : ReadsBack style e) (hm : m ≤ 12)
    (hts : ts.map lexeme = enclose (rank e < m) (exprWords style.spell e))
    (hline : ∀ t ∈ ts, t.pos.line = line) :
    ∃ e', Reads (.ranked m e') ts ∧ e'.unplaced = e.unplaced := by
  by_cases hrank : rank e < m
  · rw [enclose, if_pos (by simpa using hrank)] at hts
    simp only [lexemes_iff] at hts
    obtain ⟨o, _, rfl, ho, -, es, _, rfl, hes, c, _, rfl, hc, -, rfl⟩ := hts
    obtain ⟨e', hreads, heq⟩ := h.ternary hes fun t ht =>
      hline t (mem_cons_of_mem _ (mem_append_left _ ht))
    have hgroup := Reads.group ho hreads hc
    exact ⟨e', Reads.loosen (m := 12) (.simple hgroup) (Nat.le_refl _) hm, heq⟩
  · rw [enclose, if_neg (by simpa using hrank)] at hts
    obtain ⟨e', hreads, heq⟩ := h ts line hts hline
    exact ⟨e', hreads.loosen (rank_le e) (Nat.not_lt.mp hrank), heq⟩

lemma items_readBack (h : ∀ e' ∈ e :: es, ReadsBack style e')
    (hts : ts.map lexeme = itemWords style.spell (e :: es))
    (hline : ∀ t ∈ ts, t.pos.line = line) :
    ∃ es', Reads (.items es') ts ∧ allUnplaced es' = allUnplaced (e :: es) := by
  induction es generalizing e ts with
  | nil =>
    rw [itemWords, moreWords, append_nil] at hts
    obtain ⟨e', hreads, heq⟩ := (h e mem_cons_self).ternary hts hline
    exact ⟨[e'], .last hreads, by rw [allUnplaced, heq]; rfl⟩
  | cons e2 es ih =>
    obtain ⟨first, _, rfl, hfirst, hmore⟩ := map_eq_append_iff.mp hts
    obtain ⟨comma, rest, rfl, hcomma, -, hrest⟩ := lexemes_cons_iff.mp hmore
    obtain ⟨e', hreads, heq⟩ := (h e mem_cons_self).ternary hfirst fun t ht =>
      hline t (mem_append_left _ ht)
    obtain ⟨es', hitems, heqs⟩ := ih (fun e3 he3 => h e3 (mem_cons_of_mem e he3)) hrest
      fun t ht => hline t (mem_append_right _ (mem_cons_of_mem _ ht))
    refine ⟨e' :: es', .more hreads hcomma hitems, ?_⟩
    rw [allUnplaced, heq, heqs, ← allUnplaced]

lemma opens_on_line {o} (hts : ts ≠ []) (hline : ∀ t ∈ ts ++ o :: us, t.pos.line = line) :
    o.pos.line = (ts.getLastD o).pos.line := by
  have hlast : ts.getLastD o ∈ ts := by
    rw [getLastD_eq_getLast?, getLast?_eq_some_getLast hts]
    exact getLast_mem hts
  rw [hline o (by simp), hline _ (mem_append_left _ hlast)]

/-- The words of every expression of a source stand for it. -/
lemma exprWords_reads (h : ExprFrom Spelled e) : ReadsBack style e := by
  induction h with
    (intro ts line hts hline
     simp only [exprWords, lexemes_iff] at hts)
  | literal hl =>
    obtain ⟨t, _, rfl, ht, htext, rfl⟩ := hts
    exact ⟨.literal t.pos _, .simple (.literal (literal_denotes style hl ht htext)), rfl⟩
  | name hn =>
    obtain ⟨t, _, rfl, ht, htext, rfl⟩ := hts
    obtain ⟨hkind, htext⟩ := nameWord_kind hn ht htext
    exact ⟨.name t.pos t.text, .simple (.name hkind), by rw [unplaced, htext]; rfl⟩
  | @binary _ op _ _ _ _ ihl ihr =>
    obtain ⟨ls, _, rfl, hls, t, rs, rfl, ht, -, hrs⟩ := hts
    have hop : operatorAt? (levels.getD op.level []) t.kind = some op := by
      rw [ht]
      exact op.operatorAt?_sign
    have hlevel := op.level_le
    obtain ⟨l', hl, hleq⟩ := ihl.enclosed (by omega) hls fun t ht =>
      hline t (mem_append_left _ ht)
    obtain ⟨r', hr, hreq⟩ := ihr.enclosed (by omega) hrs fun t ht =>
      hline t (mem_append_right _ (mem_cons_of_mem _ ht))
    refine ⟨.binary t.pos op l' r', ?_, by rw [unplaced, hleq, hreq, ← unplaced]⟩
    rw [rank, Phrase.ranked_level (by omega)]
    exact .binary (hl.level_of_ranked (by omega)) hop (hr.level_of_ranked (by omega))
  | @unary _ op _ _ ih =>
    obtain ⟨t, es, rfl, ht, -, hes⟩ := hts
    have hop : unaryOperator? t.kind = some op := by
      rw [ht]
      exact op.unaryOperator?_sign
    obtain ⟨e', he, heq⟩ := ih.enclosed (by decide) hes fun t ht =>
      hline t (mem_cons_of_mem _ ht)
    exact ⟨.unary t.pos op e', .unary hop he, by rw [unplaced, heq, ← unplaced]⟩
  | ternary _ _ _ ihc ihy ihn =>
    obtain ⟨cs, _, rfl, hcs, q, _, rfl, hq, -, ys, _, rfl, hys, colon, ns, rfl, hcolon, -,
      hns⟩ := hts
    obtain ⟨c', hc, hceq⟩ := ihc.enclosed (by decide) hcs fun t ht => hline t (by simp [ht])
    obtain ⟨y', hy, hyeq⟩ := ihy.ternary hys fun t ht => hline t (by simp [ht])
    obtain ⟨n', hn, hneq⟩ := ihn.ternary hns fun t ht => hline t (by simp [ht])
    exact ⟨.ternary q.pos c' y' n', .condition hc hq hy hcolon hn,
      by rw [unplaced, hceq, hyeq, hneq, ← unplaced]⟩
  | @call _ _ args _ _ ihf ihargs =>
    obtain ⟨fs, _, rfl, hfs, o, _, rfl, ho, -, as, _, rfl, has, close, _, rfl, hclose, -,
      rfl⟩ := hts
    obtain ⟨f', hf, hfeq⟩ := ihf.enclosed (Nat.le_refl 12) hfs fun t ht => hline t (by simp [ht])
    have hopens := opens_on_line hf.ne_nil hline
    cases args with
    | nil =>
      obtain rfl := lexemes_nil has
      exact ⟨.call o.pos f' [], .callEmpty hf ho hopens hclose, by rw [unplaced, hfeq]; rfl⟩
    | cons a args =>
      obtain ⟨es', hitems, heqs⟩ := items_readBack ihargs has fun t ht => hline t (by simp [ht])
      exact ⟨.call o.pos f' es', .call hf ho hopens hitems hclose,
        by rw [unplaced, hfeq, heqs, ← unplaced]⟩
  | random _ _ ihl ihh =>
    obtain ⟨k, _, rfl, hk, -, o, _, rfl, ho, -, ls, _, rfl, hls, comma, _, rfl, hcomma, -, hs, _,
      rfl, hhs, close, _, rfl, hclose, -, rfl⟩ := hts
    obtain ⟨l', hl, hleq⟩ := ihl.ternary hls fun t ht => hline t (by simp [ht])
    obtain ⟨h', hh, hheq⟩ := ihh.ternary hhs fun t ht => hline t (by simp [ht])
    exact ⟨.random k.pos l' h', .simple (.random hk ho hl hcomma hh hclose),
      by rw [unplaced, hleq, hheq, ← unplaced]⟩
  | randomBytes _ ih =>
    obtain ⟨k, _, rfl, hk, -, o, _, rfl, ho, -, es, _, rfl, hes, close, _, rfl, hclose, -,
      rfl⟩ := hts
    obtain ⟨e', he, heq⟩ := ih.ternary hes fun t ht => hline t (by simp [ht])
    exact ⟨.randomBytes k.pos e', .simple (.randomBytes hk ho
        he hclose), by rw [unplaced, heq, ← unplaced]⟩
  | index _ _ ihe ihi =>
    obtain ⟨es, _, rfl, hes, o, _, rfl, ho, -, is, _, rfl, his, close, _, rfl, hclose, -,
      rfl⟩ := hts
    obtain ⟨e', he, heq⟩ := ihe.enclosed (Nat.le_refl 12) hes fun t ht => hline t (by simp [ht])
    obtain ⟨i', hi, hieq⟩ := ihi.ternary his fun t ht => hline t (by simp [ht])
    exact ⟨.index o.pos e' i', .index he ho (opens_on_line he.ne_nil hline) hi
        hclose, by rw [unplaced, heq, hieq, ← unplaced]⟩
  | member _ hfield ih =>
    obtain ⟨es, _, rfl, hes, dot, _, rfl, hdot, -, t, _, rfl, ht, htext, rfl⟩ := hts
    obtain ⟨e', he, heq⟩ := ih.enclosed (Nat.le_refl 12) hes fun t ht => hline t (by simp [ht])
    obtain ⟨hkind, htext⟩ := nameWord_kind hfield ht htext
    exact ⟨.member dot.pos e' t.text, .member he hdot hkind,
      by rw [unplaced, heq, htext, ← unplaced]⟩
  | @bytes _ items _ ih =>
    obtain ⟨o, _, rfl, ho, -, is, _, rfl, his, close, _, rfl, hclose, -, rfl⟩ := hts
    cases items with
    | nil =>
      obtain rfl := lexemes_nil his
      exact ⟨.bytes o.pos [], .simple (.bytesEmpty ho hclose), rfl⟩
    | cons e es =>
      obtain ⟨es', hitems, heqs⟩ := items_readBack ih his fun t ht => hline t (by simp [ht])
      exact ⟨.bytes o.pos es', .simple (.bytes ho hitems hclose),
        by rw [unplaced, heqs, ← unplaced]⟩

end Expressions

/-! ## Words that keep to their line -/

def Plain (w : Lexeme) : Prop :=
  Genuine w.kind w.text.toList ∧ w.kind.endsLine = false

lemma plain_keyword (k : Keyword) : Plain k.lexeme :=
  ⟨.keyword, rfl⟩

lemma plain_symbol (h : (TokenKind.symbol s).endsLine = false) : Plain s.lexeme :=
  ⟨.symbol, h⟩

lemma plain_name (h : NameFrom Spelled name) : Plain ⟨.name, name⟩ := by
  obtain ⟨t, ht, hkind, rfl⟩ := h
  exact ⟨ht.genuine hkind nofun nofun, rfl⟩

lemma plain_nameWord (h : WordFrom Spelled name) : Plain (nameWord name) := by
  obtain ⟨hgenuine, hkind, -⟩ := nameWord_spec h
  refine ⟨hgenuine, ?_⟩
  rcases hkind with hkind | hkind | hkind <;> rw [hkind] <;> rfl

lemma plain_literalWord (style : Style) {l} (h : LiteralFrom Spelled l) :
    Plain (literalWord style.spell l) := by
  refine ⟨literal_genuine style h, ?_⟩
  cases l with
  | bool b => cases b <;> rfl
  | _ => rfl

lemma plain_enclose (h : ∀ w ∈ ws, Plain w) (inside : Bool) : ∀ w ∈ enclose inside ws, Plain w := by
  cases inside with
  | false => exact h
  | true =>
    rw [enclose, if_pos rfl, forall_mem_cons, forall_mem_append, forall_mem_singleton]
    exact ⟨plain_symbol rfl, h, plain_symbol rfl⟩

section Lines

variable {style : Style} {ts : List Token}

lemma plain_moreWords (h : ∀ e ∈ es, ∀ w ∈ exprWords style.spell e, Plain w) :
    ∀ w ∈ moreWords style.spell es, Plain w := by
  induction es with
  | nil => exact nofun
  | cons e es ih =>
    rw [forall_mem_cons] at h
    rw [moreWords, forall_mem_cons, forall_mem_append]
    exact ⟨plain_symbol rfl, h.1, ih h.2⟩

lemma plain_itemWords (h : ∀ e ∈ es, ∀ w ∈ exprWords style.spell e, Plain w) :
    ∀ w ∈ itemWords style.spell es, Plain w := by
  cases es with
  | nil => exact nofun
  | cons e es =>
    rw [forall_mem_cons] at h
    rw [itemWords, forall_mem_append]
    exact ⟨h.1, plain_moreWords h.2⟩

lemma plain_exprWords (h : ExprFrom Spelled e) : ∀ w ∈ exprWords style.spell e, Plain w := by
  induction h
  all_goals simp only [exprWords, forall_mem_append, forall_mem_cons]
  case literal hl => exact ⟨plain_literalWord style hl, nofun⟩
  case name hn => exact ⟨plain_nameWord hn, nofun⟩
  case binary op _ _ _ _ ihl ihr =>
    exact ⟨plain_enclose ihl _, plain_symbol (by cases op <;> rfl), plain_enclose ihr _⟩
  case unary op _ _ ih => exact ⟨plain_symbol (by cases op <;> rfl), plain_enclose ih _⟩
  case ternary _ _ _ ihc ihy ihn =>
    exact ⟨plain_enclose ihc _, plain_symbol rfl, ihy, plain_symbol rfl, ihn⟩
  case call _ _ ihf ihargs =>
    exact ⟨plain_enclose ihf _, plain_symbol rfl, plain_itemWords ihargs, plain_symbol rfl, nofun⟩
  case random _ _ ihl ihh =>
    exact ⟨plain_keyword _, plain_symbol rfl, ihl, plain_symbol rfl, ihh, plain_symbol rfl, nofun⟩
  case randomBytes _ ih => exact ⟨plain_keyword _, plain_symbol rfl, ih, plain_symbol rfl, nofun⟩
  case index _ _ ihe ihi =>
    exact ⟨plain_enclose ihe _, plain_symbol rfl, ihi, plain_symbol rfl, nofun⟩
  case member _ hfield ih =>
    exact ⟨plain_enclose ih _, plain_symbol rfl, plain_nameWord hfield, nofun⟩
  case bytes _ ih => exact ⟨plain_symbol rfl, plain_itemWords ih, plain_symbol rfl, nofun⟩

def Laid (style : Style) (ts : List Token) : Prop :=
  ∃ line, OnLines style.after line ts

lemma Laid.tail (h : Laid style (t :: ts)) : Laid style ts := by
  obtain ⟨line, -, hts⟩ := h
  exact ⟨_, hts⟩

lemma Laid.right (h : Laid style (ts ++ us)) : Laid style us := by
  induction ts with
  | nil => exact h
  | cons t ts ih => exact ih h.tail

lemma OnLines.left {after : Lexeme → Char} {line} (h : OnLines after line (ts ++ us)) :
    OnLines after line ts := by
  induction ts generalizing line with
  | nil => trivial
  | cons t ts ih => exact ⟨h.1, ih h.2⟩

lemma Laid.left (h : Laid style (ts ++ us)) : Laid style ts := by
  obtain ⟨line, hline⟩ := h
  exact ⟨line, OnLines.left hline⟩

lemma Laid.one_line (h : Laid style ts) (hplain : ∀ t ∈ ts, Plain t.lexeme) :
    ∃ line, ∀ t ∈ ts, t.pos.line = line := by
  obtain ⟨line, hline⟩ := h
  refine ⟨line, ?_⟩
  induction ts with
  | nil => exact nofun
  | cons t ts ih =>
    rw [forall_mem_cons] at hplain ⊢
    have hstays : style.after t.lexeme ≠ '\n' := by
      intro hbreak
      exact absurd (style.after_line _ hbreak) (by simp [hplain.1.2])
    obtain ⟨ht, hts⟩ := hline
    rw [if_neg hstays] at hts
    exact ⟨ht, ih hplain.2 hts⟩

lemma plain_tokens (hts : ts.map lexeme = ws) (h : ∀ w ∈ ws, Plain w) :
    ∀ t ∈ ts, Plain t.lexeme := by
  intro t ht
  exact h _ (hts ▸ mem_map_of_mem ht)

lemma expr_readBack (h : ExprFrom Spelled e)
    (hts : ts.map lexeme = exprWords style.spell e) (hlaid : Laid style ts) :
    ∃ e', Reads (.ternary e') ts ∧ e'.unplaced = e.unplaced := by
  obtain ⟨line, hline⟩ := hlaid.one_line (plain_tokens hts (plain_exprWords h))
  exact (exprWords_reads h).ternary hts hline

end Lines

/-! ## Statements -/

section Statements

variable {style : Style}

variable {spell : Float → String}

lemma symbol_not_alone (hmem : s.lexeme ∈ exprWords spell e) (h : exprWords spell e = [w])
    {k} : w.kind ≠ .keyword k := by
  rw [h, mem_singleton] at hmem
  rw [← hmem]
  exact nofun

lemma isExt_of_exprWords (h : exprWords spell e = [w]) (hkind : w.kind = .keyword .ext) :
    isExt e := by
  cases e with
  | literal pos l =>
    obtain rfl := singleton_inj.mp h
    rcases l with _ | _ | _ | (_ | _) | _ <;> cases hkind
  | name pos n =>
    obtain rfl := singleton_inj.mp h
    rw [nameWord] at hkind
    split at hkind
    · cases hkind
    · split at hkind
      · next hn => simpa [isExt] using hn
      · cases hkind
  | binary pos op l r | unary pos op e =>
    exact absurd hkind (symbol_not_alone (s := op.sign) (by simp [exprWords]) h)
  | ternary => exact absurd hkind (symbol_not_alone (s := .question) (by simp [exprWords]) h)
  | call | random | randomBytes =>
    exact absurd hkind (symbol_not_alone (s := .leftParen) (by simp [exprWords]) h)
  | index | bytes =>
    exact absurd hkind (symbol_not_alone (s := .leftBracket) (by simp [exprWords]) h)
  | member => exact absurd hkind (symbol_not_alone (s := .dot) (by simp [exprWords]) h)

lemma dataWords_eq_nil {x} (h : dataWords spell es x = []) : es = [] ∧ x = false := by
  cases es with
  | nil =>
    cases x with
    | false => exact ⟨rfl, rfl⟩
    | true => cases h
  | cons e es => cases h

lemma item_readBack (he : ExprFrom Spelled e) {last ts line}
    (hts : ts.map lexeme = enclose (isExt e && last) (exprWords style.spell e))
    (hline : ∀ t ∈ ts, t.pos.line = line) : ∃ e', Reads (.ternary e') ts ∧ e'.unplaced = e.unplaced
      ∧ (last → ts.map (·.kind) ≠ [.keyword .ext]) := by
  by_cases hword : (isExt e && last)
  · rw [enclose, if_pos hword] at hts
    simp only [lexemes_iff] at hts
    obtain ⟨o, _, rfl, ho, -, vs, _, rfl, hvs, c, _, rfl, hc, -, rfl⟩ := hts
    obtain ⟨e', hreads, heq⟩ := (exprWords_reads he).ternary hvs fun t ht => hline t (by simp [ht])
    have hgroup := Reads.group ho hreads hc
    refine ⟨e', Reads.loosen (m := 12) (.simple hgroup) (Nat.le_refl _) (Nat.zero_le _), heq,
      fun _ => ?_⟩
    simp [ho]
  · rw [enclose, if_neg hword] at hts
    obtain ⟨e', hreads, heq⟩ := (exprWords_reads he).ternary hts hline
    -- A single word of this kind is the variable of that name, which stands
    -- in brackets at the end.
    refine ⟨e', hreads, heq, fun hlast hkinds => hword ?_⟩
    obtain ⟨t, rfl, ht⟩ := map_eq_singleton_iff.mp hkinds
    simp [isExt_of_exprWords hts.symm ht, hlast]

lemma data_readBack {x : Option Pos} (h : ∀ e ∈ es, ExprFrom Spelled e) {ts : List Token}
    (hts : ts.map lexeme = dataWords style.spell es x.isSome) (hlaid : Laid style ts) :
    ∃ es' x', DataReads es' x' ts ∧ allUnplaced es' = allUnplaced es
      ∧ x'.map (fun _ => Pos.start) = x.map fun _ => Pos.start := by
  induction es generalizing ts with
  | nil =>
    cases x with
    | none =>
      obtain rfl := lexemes_nil hts
      exact ⟨[], none, .none, rfl, rfl⟩
    | some pos =>
      simp only [dataWords, Option.isSome_some, lexemes_iff] at hts
      obtain ⟨comma, _, rfl, hcomma, -, t, _, rfl, ht, -, rfl⟩ := hts
      exact ⟨[], some t.pos, .extended hcomma ht, rfl, rfl⟩
  | cons e es ih =>
    rw [forall_mem_cons] at h
    simp only [dataWords, lexemes_iff] at hts
    obtain ⟨comma, _, rfl, hcomma, -, us, rest, rfl, hus, hrest⟩ := hts
    obtain ⟨es', x', hdata, heqs, hx⟩ := ih h.2 hrest hlaid.tail.right
    obtain ⟨line, hline⟩ := hlaid.tail.left.one_line
      (plain_tokens hus (plain_enclose (plain_exprWords h.1) _))
    rw [Bool.and_assoc] at hus
    obtain ⟨e', hreads, heq, hword⟩ := item_readBack h.1 hus hline
    have hlast : rest = [] → (es.isEmpty && !x.isSome) := by
      rintro rfl
      obtain ⟨hes, hx⟩ := dataWords_eq_nil hrest.symm
      simp [hes, hx]
    exact ⟨e' :: es', x', .item hcomma hreads (fun hnil => hword (hlast hnil)) hdata,
      by rw [allUnplaced, heq, heqs, ← allUnplaced], hx⟩

variable (style) in
def StmtBack (depth : Nat) (body : Bool) (st : Stmt) : Prop :=
  ∀ ts : List Token, ts.map Token.lexeme = stmtWords style.spell st → Laid style ts →
    ∃ st', Sentence depth body (.stmt st') ts ∧ st'.unplaced = st.unplaced

lemma rest_readBack {depth body ss} (h : ∀ s ∈ ss, StmtBack style depth body s) {ts}
    (hts : ts.map lexeme = restWords style.spell ss) (hlaid : Laid style ts) :
    ∃ ss', Sentence depth body (.rest ss') ts ∧ Stmt.allUnplaced ss' = Stmt.allUnplaced ss := by
  induction ss generalizing ts with
  | nil =>
    simp only [restWords, lexemes_iff] at hts
    obtain ⟨c, _, rfl, hc, -, rfl⟩ := hts
    exact ⟨[], .close hc, rfl⟩
  | cons s ss ih =>
    rw [forall_mem_cons] at h
    simp only [restWords, lexemes_iff] at hts
    obtain ⟨us, _, rfl, hus, semi, rest, rfl, hsemi, -, hrest⟩ := hts
    obtain ⟨s', hs, heq⟩ := h.1 us hus hlaid.left
    obtain ⟨ss', hss, heqs⟩ := ih h.2 hrest hlaid.right.tail
    exact ⟨s' :: ss', .next hs hsemi hss, by rw [Stmt.allUnplaced, heq, heqs, ← Stmt.allUnplaced]⟩

lemma block_readBack {depth body ss} (h : ∀ s ∈ ss, StmtBack style depth body s) {ts : List Token}
    (hts : ts.map lexeme = blockWords style.spell ss) (hlaid : Laid style ts) :
    ∃ ss', Sentence depth body (.block ss') ts ∧ Stmt.allUnplaced ss' = Stmt.allUnplaced ss := by
  obtain ⟨o, rest, rfl, ho, -, hrest⟩ := lexemes_cons_iff.mp hts
  obtain ⟨ss', hss, heq⟩ := rest_readBack h hrest hlaid.tail
  exact ⟨ss', .block ho hss, heq⟩

variable {depth : Nat} {body : Bool} {st : Stmt}

lemma when_readBack {yes no} (he : ExprFrom Spelled e)
    (ihyes : ∀ s ∈ yes, StmtBack style depth body s)
    (ihno : ∀ ss, no = some ss → ∀ s ∈ ss, StmtBack style depth body s) :
    StmtBack style depth body (.when pos e yes no) := by
  intro ts hts hlaid
  rw [stmtWords] at hts
  obtain ⟨k, _, rfl, hk, -, hrest⟩ := lexemes_cons_iff.mp hts
  obtain ⟨es, _, rfl, hes, hrest1⟩ := map_eq_append_iff.mp hrest
  rw [← cons_append] at hrest1
  obtain ⟨bs, rest, rfl, hbs, hrest2⟩ := map_eq_append_iff.mp hrest1
  obtain ⟨e', hreads, heq⟩ := expr_readBack he hes hlaid.tail.left
  obtain ⟨ss', hss, heqs⟩ := block_readBack ihyes hbs hlaid.tail.right.left
  cases no with
  | none =>
    obtain rfl := lexemes_nil hrest2
    rw [append_nil]
    exact ⟨_, .when hk hreads hss, by simp only [Stmt.unplaced, Stmt.optionUnplaced, heq, heqs]⟩
  | some rs =>
    obtain ⟨o, cs, rfl, ho, -, hcs⟩ := lexemes_cons_iff.mp hrest2
    obtain ⟨rs', hrs, heqr⟩ := block_readBack (ihno rs rfl) hcs hlaid.tail.right.right.tail
    exact ⟨_, .whenElse hk hreads hss ho hrs,
      by simp only [Stmt.unplaced, Stmt.optionUnplaced, heq, heqs, heqr]⟩

lemma waitFor_readBack {p m fallback} (hp : ExprFrom Spelled p) (hm : ExprFrom Spelled m)
    (ih : ∀ ss, fallback = some ss → ∀ s ∈ ss, StmtBack style depth body s) :
    StmtBack style depth body (.waitFor pos p m fallback) := by
  intro ts hts hlaid
  simp only [stmtWords, lexemes_iff] at hts
  obtain ⟨k, _, rfl, hk, -, o, _, rfl, ho, -, ps, _, rfl, hps, c, _, rfl, hc, -, w, _, rfl, hw,
    -, wo, _, rfl, hwo, -, ms, _, rfl, hms, wc, rest, rfl, hwc, -, hrest₇⟩ := hts
  have hlaid' := hlaid.tail.tail.right.tail.tail.tail
  obtain ⟨p', hp', hpeq⟩ := expr_readBack hp hps hlaid.tail.tail.left
  obtain ⟨m', hm', hmeq⟩ := expr_readBack hm hms hlaid'.left
  cases fallback with
  | none =>
    obtain rfl := lexemes_nil hrest₇
    exact ⟨_, .waitFor hk ho hp' hc hw hwo hm' hwc,
      by simp only [Stmt.unplaced, Stmt.optionUnplaced, hpeq, hmeq]⟩
  | some ss =>
    obtain ⟨ss', hss, heqs⟩ := block_readBack (ih ss rfl) hrest₇ hlaid'.right.tail
    exact ⟨_, .waitElse hk ho hp' hc hw hwo hm' hwc hss,
      by simp only [Stmt.unplaced, Stmt.optionUnplaced, hpeq, hmeq, heqs]⟩

/-- The words of every statement of a source stand for it. -/
lemma stmtWords_reads (h : StmtFrom Spelled depth body st) : StmtBack style depth body st := by
  induction h with intro ts hts hlaid
  | @declare _ _ _ _ value _ hvalue =>
    cases value with
    | none =>
      simp only [stmtWords, lexemes_iff] at hts
      obtain ⟨k, _, rfl, hk, -, t, _, rfl, ht, htext, rfl⟩ := hts
      exact ⟨_, .declare hk ht, congrArg (Stmt.declare .start · none) htext⟩
    | some e =>
      simp only [stmtWords, lexemes_iff] at hts
      obtain ⟨k, _, rfl, hk, -, t, _, rfl, ht, htext, a, es, rfl, ha, -, hes⟩ := hts
      obtain ⟨e', he, heq⟩ := expr_readBack (hvalue e rfl) hes hlaid.tail.tail.tail
      exact ⟨_, .declareAs hk ht ha he, by simp only [Stmt.unplaced, Option.map_some, heq, htext]⟩
  | @assign _ _ _ _ op _ _ he =>
    simp only [stmtWords, lexemes_iff] at hts
    obtain ⟨t, _, rfl, ht, htext, a, es, rfl, ha, -, hes⟩ := hts
    obtain ⟨e', hreads, heq⟩ := expr_readBack he hes hlaid.tail.tail
    have hop : assignOperator? a.kind = some op := by
      rw [ha]
      exact op.assignOperator?_sign
    exact ⟨_, .assign ht hop hreads, by simp only [Stmt.unplaced, heq, htext]⟩
  | send hid hdata =>
    simp only [stmtWords, lexemes_iff] at hts
    obtain ⟨k, _, rfl, hk, -, o, _, rfl, ho, -, is, _, rfl, his, ds, _, rfl, hds, c, _, rfl, hc,
      -, rfl⟩ := hts
    obtain ⟨id', hid', heq⟩ := expr_readBack hid his hlaid.tail.tail.left
    obtain ⟨es', x', hdata', heqs, hx⟩ := data_readBack hdata hds hlaid.tail.tail.right.left
    exact ⟨_, .send hk ho hid' hdata' hc, by simp only [Stmt.unplaced, heq, heqs, hx]⟩
  | delay he =>
    obtain ⟨k, es, rfl, hk, -, hes⟩ := lexemes_cons_iff.mp hts
    obtain ⟨e', hreads, heq⟩ := expr_readBack he hes hlaid.tail
    exact ⟨_, .delay hk hreads, by simp only [Stmt.unplaced, heq]⟩
  | times he _ ih =>
    rw [stmtWords] at hts
    obtain ⟨k, _, rfl, hk, -, hrest⟩ := lexemes_cons_iff.mp hts
    obtain ⟨es, bs, rfl, hes, hbs⟩ := map_eq_append_iff.mp hrest
    obtain ⟨e', hreads, heq⟩ := expr_readBack he hes hlaid.tail.left
    obtain ⟨ss', hss, heqs⟩ := block_readBack ih hbs hlaid.tail.right
    exact ⟨_, .times hk hreads hss, by simp only [Stmt.unplaced, heq, heqs]⟩
  | forever _ ih =>
    rw [stmtWords] at hts
    obtain ⟨k, bs, rfl, hk, -, hbs⟩ := lexemes_cons_iff.mp hts
    obtain ⟨ss', hss, heqs⟩ := block_readBack ih hbs hlaid.tail
    exact ⟨_, .forever hk hss, by simp only [Stmt.unplaced, heqs]⟩
  | when he _ _ ihyes ihno => exact when_readBack he ihyes ihno ts hts hlaid
  | waitFor hp hm _ ih => exact waitFor_readBack hp hm ih ts hts hlaid
  | @giveBack _ _ value hvalue =>
    cases value with
    | none =>
      simp only [stmtWords, lexemes_iff] at hts
      obtain ⟨k, _, rfl, hk, -, rfl⟩ := hts
      exact ⟨_, .giveBack hk, rfl⟩
    | some e =>
      have hplain : ∀ w ∈ Keyword.giveBack.lexeme :: exprWords style.spell e, Plain w :=
        forall_mem_cons.mpr ⟨plain_keyword _, plain_exprWords (hvalue e rfl)⟩
      obtain ⟨line, hline⟩ := hlaid.one_line (plain_tokens hts hplain)
      obtain ⟨k, es, rfl, hk, -, hes⟩ := lexemes_cons_iff.mp hts
      obtain ⟨e', hreads, heq⟩ := expr_readBack (hvalue e rfl) hes hlaid.tail
      have hsame : (es.headD k).pos.line = k.pos.line := by
        cases es with
        | nil => rfl
        | cons t es => rw [headD_cons, hline t (by simp), hline k (by simp)]
      exact ⟨_, .giveBackValue hk hreads hsame, by simp only [Stmt.unplaced, Option.map_some, heq]⟩
  | leave hdepth =>
    simp only [stmtWords, lexemes_iff] at hts
    obtain ⟨k, _, rfl, hk, -, rfl⟩ := hts
    exact ⟨_, .leave hk hdepth, rfl⟩
  | again hdepth =>
    simp only [stmtWords, lexemes_iff] at hts
    obtain ⟨k, _, rfl, hk, -, rfl⟩ := hts
    exact ⟨_, .again hk hdepth, rfl⟩
  | print he =>
    obtain ⟨k, es, rfl, hk, -, hes⟩ := lexemes_cons_iff.mp hts
    obtain ⟨e', hreads, heq⟩ := expr_readBack he hes hlaid.tail
    exact ⟨_, .print hk hreads, by simp only [Stmt.unplaced, heq]⟩
  | eval he =>
    obtain ⟨e', hreads, heq⟩ := expr_readBack he hts hlaid
    cases ts with
    | nil => exact absurd rfl hreads.ne_nil
    | cons t ts => exact ⟨_, .eval hreads, by simp only [Stmt.unplaced, heq]⟩

end Statements

end CanScript
