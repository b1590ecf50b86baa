import CanScript.Proofs.RoundTrip

/-! # Operators take their operands

    An expression need not have been read to be written: any tree over literals and names that have
    a spelling is written on one line, in brackets only where the level of an operator asks for
    them, and the line is read as the same tree.  So the levels and the sides to which operators
    lean are the ones that the words are set by. -/

namespace CanScript

open Parse Print Scan String

/-! ## Expressions that can be written -/

def isOperandWord (name : String) : Bool :=
  name == Keyword.data.word || name == Keyword.ext.word || (Keyword.ofWord? name).isNone
    && name.toList.head?.any Text.startsName && name.toList.all Text.continuesName

/-- A literal that has a spelling: there is none for a number below zero, for a time that is no
    whole number of seconds, and for some floating-point numbers. -/
def Literal.Writable : Literal → Prop
  | .int n => 0 ≤ n.toInt
  | .millis n => 0 ≤ n.toInt ∧ n.toInt % 1000 = 0
  | .float x => ∃ cs, Genuine .float cs ∧ Number.readFloat? cs = some x
  | .bool _ => True
  | .text _ => True

mutual

/-- An expression whose literals and names have a spelling. -/
def Expr.Writable : Expr → Prop
  | .literal _ l => l.Writable
  | .name _ n => isOperandWord n = true
  | .binary _ _ l r => l.Writable ∧ r.Writable
  | .unary _ _ e => e.Writable
  | .ternary _ c y n => c.Writable ∧ y.Writable ∧ n.Writable
  | .call _ f args => f.Writable ∧ Expr.AllWritable args
  | .random _ l h => l.Writable ∧ h.Writable
  | .randomBytes _ e => e.Writable
  | .index _ e i => e.Writable ∧ i.Writable
  | .member _ e field => e.Writable ∧ isOperandWord field = true
  | .bytes _ es => Expr.AllWritable es

def Expr.AllWritable : List Expr → Prop
  | [] => True
  | e :: es => e.Writable ∧ Expr.AllWritable es

end

lemma spelled_of_genuine {kind cs} (h : Genuine kind cs) (pos) :
    Spelled ⟨kind, ofList cs, pos⟩ := by
  intro _ _
  rw [toList_ofList]
  exact h

lemma genuine_name {name} (hword : Keyword.ofWord? name = none)
    (hhead : name.toList.head?.any Text.startsName)
    (hall : name.toList.all Text.continuesName) : Genuine .name name.toList := by
  cases hcs : name.toList with
  | nil =>
    rw [hcs] at hhead
    cases hhead
  | cons c cs =>
    rw [hcs] at hhead hall
    rw [List.all_cons, Bool.and_eq_true, List.all_eq_true] at hall
    refine .name hhead hall.2 ?_
    rwa [← hcs, ofList_toList]

lemma wordFrom_of_isOperandWord {name} (h : isOperandWord name) : WordFrom Spelled name := by
  have hkeyword : ∀ k, isOperandName (.keyword k) → WordFrom Spelled k.word :=
    fun k hk => ⟨⟨.keyword k, k.word, .start⟩, fun _ _ => .keyword, hk, rfl⟩
  simp only [isOperandWord, Bool.or_eq_true, Bool.and_eq_true, beq_iff_eq,
    Option.isNone_iff_eq_none] at h
  rcases h with (rfl | rfl) | ⟨⟨hword, hhead⟩, hall⟩
  · exact hkeyword .data (.inr (.inl rfl))
  · exact hkeyword .ext (.inr (.inr rfl))
  · exact ⟨⟨.name, name, .start⟩, fun _ _ => genuine_name hword hhead hall, .inl rfl, rfl⟩

lemma Literal.Writable.from_spelled {l} (h : l.Writable) : LiteralFrom Spelled l := by
  cases l with
  | int n =>
    refine .decimal (spelled_of_genuine (.number (isNumeral_toDigits n.toInt.toNat)) .start) rfl ?_
    rw [toList_ofList, Number.readInt64?_toDigits h]
  | millis ms =>
    obtain ⟨hnonneg, hwhole⟩ := h
    have hmax := Int64.toInt_lt ms
    -- the number of seconds is a number of 64 bits as the time is one
    have hseconds : (Int64.ofInt (ms.toInt / 1000)).toInt = ms.toInt / 1000 :=
      Int64.toInt_ofInt_of_le (by omega) (by omega)
    refine .seconds (n := Int64.ofInt (ms.toInt / 1000)) (spelled_of_genuine
      (.seconds (isNumeral_toDigits (ms.toInt / 1000).toNat)) .start) rfl ?_ ?_
    · rw [toList_ofList, List.dropLast_concat, ← hseconds,
        Number.readInt64?_toDigits (by omega), Int64.ofInt_toInt]
    · rw [hseconds, Int.ediv_mul_cancel (Int.dvd_of_emod_eq_zero hwhole), Number.int64?_toInt]
  | float x =>
    obtain ⟨cs, hcs, hx⟩ := h
    refine .float (spelled_of_genuine hcs .start) rfl ?_
    rw [toList_ofList, hx]
  | bool b => exact .bool
  | text t => exact .text (t := ⟨.text, t, .start⟩) (fun _ _ => .text) rfl

mutual

lemma Expr.Writable.from_spelled : ∀ {e : Expr}, e.Writable → ExprFrom Spelled e
  | .literal .., h => .literal (Literal.Writable.from_spelled h)
  | .name .., h => .name (wordFrom_of_isOperandWord h)
  | .binary .., h => .binary h.1.from_spelled h.2.from_spelled
  | .unary .., h => .unary (Expr.Writable.from_spelled h)
  | .ternary .., h => .ternary h.1.from_spelled h.2.1.from_spelled h.2.2.from_spelled
  | .call .., h => .call h.1.from_spelled (Expr.AllWritable.from_spelled h.2)
  | .random .., h => .random h.1.from_spelled h.2.from_spelled
  | .randomBytes .., h => .randomBytes (Expr.Writable.from_spelled h)
  | .index .., h => .index h.1.from_spelled h.2.from_spelled
  | .member .., h => .member h.1.from_spelled (wordFrom_of_isOperandWord h.2)
  | .bytes .., h => .bytes (Expr.AllWritable.from_spelled h)

lemma Expr.AllWritable.from_spelled : ∀ {es}, Expr.AllWritable es →
    ∀ e ∈ es, ExprFrom Spelled e
  | [], _ => List.forall_mem_nil _
  | _ :: _, h => List.forall_mem_cons.mpr ⟨h.1.from_spelled, Expr.AllWritable.from_spelled h.2⟩

end

/-! ## One line -/

/-- The text of an expression in a style. -/
def Expr.render (style : Style) (e : Expr) : String :=
  String.ofList ((exprWords style.spell e).flatMap (writtenWord style.after))

lemma not_mem_render (style) {e} (h : ExprFrom Spelled e) : '\n' ∉ (e.render style).toList := by
  rw [Expr.render, toList_ofList]
  intro hmem
  obtain ⟨w, hw, hmem⟩ := List.mem_flatMap.mp hmem
  obtain ⟨hgenuine, hplain⟩ := plain_exprWords h w hw
  rcases List.mem_append.mp hmem with hmem | hmem
  · exact not_mem_written hgenuine hmem
  · have hline := style.after_line w (List.mem_singleton.mp hmem).symm
    rw [hplain] at hline
    cases hline

lemma tokenize_render (style) {e} (h : ExprFrom Spelled e) :
    ∃ ts end', tokenize (e.render style) = (ts ++ [⟨.eof, "", end'⟩], [])
      ∧ ts.map Token.lexeme = exprWords style.spell e ∧ Laid style ts := by
  obtain ⟨ts, end', hscan, hlexemes, hlines⟩ :=
    scanFrom_words style.after_blank (genuine_exprWords h) .start
  refine ⟨ts, end', ?_, hlexemes, _, hlines⟩
  rw [tokenize, Expr.render, toList_ofList, hscan]

/-! ## Reading -/

namespace Parse

/-- Tokens that stand for an expression: in front of any token that ends an expression, the whole of
    them is read as it and nothing else is. -/
def StandsFor (ts : List Token) (e : Expr) : Prop :=
  ∀ (s : State) last (more : List Token),
    closesExpr (more.headD endToken).kind = true →
      expression (s.facing last (ts ++ more)) = (.ok e, s.facing (ts.getLastD last) more)

end Parse

/-- **Precedence.**  An expression whose literals and names have a spelling is
    written on one line, operands in brackets only where they hold together less than their place
    asks.  The line is scanned as these words, and they stand for the expression, but for its
    places. -/
theorem expression_render (style : Style) (e : Expr) (h : e.Writable) :
    '\n' ∉ (e.render style).toList
      ∧ ∃ ts end' e', tokenize (e.render style) = (ts ++ [⟨.eof, "", end'⟩], [])
        ∧ ts.map Token.lexeme = exprWords style.spell e
        ∧ StandsFor ts e' ∧ e'.unplaced = e.unplaced := by
  have hfrom := h.from_spelled
  obtain ⟨ts, end', htokens, hlexemes, hlaid⟩ := tokenize_render style hfrom
  obtain ⟨e', hreads, heq⟩ := expr_readBack hfrom hlexemes hlaid
  exact ⟨not_mem_render style hfrom, ts, end', e', htokens, hlexemes,
    fun s last more hcloses => hreads.expression s last more (.of_closes hcloses), heq⟩

/-- A tree that leans to both sides, with a condition in each branch of another. -/
def leaningExpr : Expr :=
  let x (n : String) : Expr := .name .start n
  .ternary .start
    (.binary .start .sub (.binary .start .sub (x "a") (x "b"))
      (.binary .start .sub (x "c") (.unary .start .neg (.unary .start .neg (x "d")))))
    (.ternary .start (x "p") (x "ext") (.literal .start (.millis 2000)))
    (.ternary .start (.ternary .start (x "q") (x "r") (x "s"))
      (.member .start (.index .start (.call .start (x "f") [.bytes .start [x "i", x "j"]])
        (.binary .start .and (.binary .start .or (x "u") (x "v")) (x "w"))) "data")
      (.unary .start .not (.binary .start .mul (x "m") (.random .start (x "n") (x "o")))))

theorem expression_render_leaning :
    leaningExpr.Writable
      ∧ leaningExpr.render .lined = "a - b - ( c - - - d ) ? p ? ext : 2s : ( q ? r : s ) "
        ++ "? f ( [ i , j ] ) [ ( u || v ) && w ] . data : ! ( m * random ( n , o ) ) "
      ∧ ∃ ts end' e', tokenize (leaningExpr.render .lined) = (ts ++ [⟨.eof, "", end'⟩], [])
        ∧ ts.map Token.lexeme = exprWords Style.lined.spell leaningExpr
        ∧ StandsFor ts e' ∧ e'.unplaced = leaningExpr.unplaced := by
  have h : leaningExpr.Writable := by
    simp only [leaningExpr, Expr.Writable, Expr.AllWritable, Literal.Writable, and_true]
    decide +kernel
  exact ⟨h, by decide +kernel, (expression_render .lined leaningExpr h).2⟩

end CanScript
