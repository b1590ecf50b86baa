import CanScript.Proofs.Words
import CanScript.Program.Statement

/-! # Texts are scanned line by line

    Only a block comment goes on past the end of its line.  So where none is left open, the tokens
    before the end of a line and those after it are found without each other, and a text further
    down has the same tokens further down. -/

namespace CanScript

open List Pos

/-! ## Further down -/

/-- A place some lines further down. -/
def Pos.down (k : Nat) (p : Pos) : Pos :=
  ⟨p.line + k, p.column⟩

/-- A token some lines further down. -/
def Token.down (k : Nat) (t : Token) : Token :=
  { t with pos := t.pos.down k }

/-- A diagnostic some lines further down. -/
def Diagnostic.down (k : Nat) (d : Diagnostic) : Diagnostic :=
  { d with pos := d.pos.down k }

lemma Pos.next_down (k) (p : Pos) (c) : (p.down k).next c = (p.next c).down k := by
  unfold Pos.next
  split
  · simp only [down, Nat.add_right_comm]
  · rfl

lemma Pos.after_down (k) (p : Pos) (cs) : (p.down k).after cs = (p.after cs).down k := by
  induction cs generalizing p with
  | nil => rfl
  | cons c cs ih => rw [after_cons, next_down, ih, after_cons]

namespace Scan

/-! ## The end -/

lemma scanFrom_end (pos cs) :
    ∃ ts, (scanFrom pos cs).1 = ts ++ [⟨.eof, "", pos.after cs⟩] ∧ ∀ t ∈ ts, t.kind ≠ .eof := by
  induction pos, cs using scanFrom.induct with
  | case1 pos => exact ⟨[], by rw [scanFrom]; rfl, forall_mem_nil _⟩
  | case2 pos c rest p chars _ _ _ ih =>
    obtain ⟨ts, hts, hkinds⟩ := ih
    refine ⟨(Piece.token? p pos chars).toList ++ ts, ?_, ?_⟩
    · rw [scanFrom]
      simp only [p, chars] at hts ⊢
      rw [hts, append_assoc, ← after_append, cons_append, take_append_drop]
    · intro t ht
      rcases mem_append.mp ht with ht | ht
      · exact (token?_spec (piece_spec c rest) (Option.mem_toList.mp ht)).1
      · exact hkinds t ht

/-! ## Pieces and the ends of lines -/

section Line

variable {cs more : List Char} (c : Char)

lemma takeWhile_line {p} (hp : p '\n' = false) :
    (cs ++ '\n' :: more).takeWhile p = cs.takeWhile p := by
  induction cs with
  | nil => simp [hp]
  | cons c cs ih => simp only [cons_append, takeWhile_cons, ih]

lemma dropWhile_line {p} (hp : p '\n' = false) :
    (cs ++ '\n' :: more).dropWhile p = cs.dropWhile p ++ '\n' :: more := by
  induction cs with
  | nil => simp [hp]
  | cons c cs ih =>
    simp only [cons_append, dropWhile_cons, ih]
    split <;> rfl

lemma closeComment?_append {depth n} (h : closeComment? depth cs = some n) :
    closeComment? depth (cs ++ more) = some n := by
  fun_induction closeComment? depth cs generalizing n with
  | case1 cs => rw [closeComment?]; exact h
  | case2 depth rest ih | case3 depth rest ih =>
    obtain ⟨m, hm, rfl⟩ := Option.map_eq_some_iff.mp h
    rw [cons_append, cons_append, closeComment?, ih hm]
    rfl
  | case4 depth c rest hopen hclose ih =>
    obtain ⟨m, hm, rfl⟩ := Option.map_eq_some_iff.mp h
    -- the comment goes on, so the two characters that decide are there
    cases rest with
    | nil => cases hm
    | cons d rest =>
      rw [cons_append, closeComment?, ih hm]
      · rfl
      · rintro tail rfl htail
        obtain ⟨rfl, -⟩ := List.cons.inj htail
        exact hopen rest rfl rfl
      · rintro tail rfl htail
        obtain ⟨rfl, -⟩ := List.cons.inj htail
        exact hclose rest rfl rfl
  | case5 depth => cases h

lemma quoted_line (offset) : quoted offset (cs ++ '\n' :: more) = quoted offset cs := by
  fun_induction quoted offset cs with
  | case1 => rfl
  | case2 => rfl
  | case3 => rfl
  | case4 => rfl
  | case5 => rfl
  | case6 offset c rest hc q e he ih | case7 offset c rest hc q he ih =>
    rw [cons_append, cons_append, quoted]
    · simp only [ih, he, q]
    · exact hc
  | case8 offset c rest hend hquote hlone hbreak hescape q ih =>
    have hback : c ≠ '\\' := by
      intro hc
      cases rest with
      | nil => exact hlone hc rfl
      | cons d rest => exact hescape d rest hc rfl
    rw [cons_append, quoted]
    · simp only [ih, q]
    · exact hend
    · exact hquote
    · exact fun hc => absurd hc hback
    · exact fun _ hc => absurd hc hback
    · exact fun _ _ hc => absurd hc hback

lemma stringPiece_line : stringPiece (cs ++ '\n' :: more) = stringPiece cs := by
  unfold stringPiece
  rw [quoted_line]

lemma hexPiece_line : hexPiece (cs ++ '\n' :: more) = hexPiece cs := by
  unfold hexPiece
  rw [takeWhile_line (by decide)]

lemma nameGoesOn_line : nameGoesOn (cs ++ '\n' :: more) = nameGoesOn cs := by
  cases cs with
  | nil => rfl
  | cons c cs => rfl

lemma decimalPiece_line : decimalPiece (cs ++ '\n' :: more) = decimalPiece cs := by
  unfold decimalPiece
  rw [takeWhile_line (by decide), dropWhile_line (by decide)]
  cases cs.dropWhile Char.isDigit with
  | nil => rfl
  | cons c rest =>
    by_cases hdot : c = '.'
    · subst hdot
      cases rest with
      | nil => rfl
      | cons d rest =>
        simp only [cons_append, takeWhile_line (p := Char.isDigit) (by decide)]
    · by_cases hs : c = 's'
      · subst hs
        simp only [cons_append, nameGoesOn_line]
      · simp [hdot, hs]

lemma numberPiece_cons (d ds) : numberPiece c (d :: ds)
      = if c = '0' ∧ (d = 'x' ∨ d = 'X') then hexPiece ds else decimalPiece (d :: ds) := by
  unfold numberPiece
  split
  · next heq =>
      obtain ⟨rfl, rfl⟩ := List.cons.inj heq
      simp
  · next heq =>
      obtain ⟨rfl, rfl⟩ := List.cons.inj heq
      simp
  · next hx hX =>
      rw [if_neg]
      rintro ⟨rfl, rfl | rfl⟩
      · exact hx ds rfl rfl
      · exact hX ds rfl rfl

lemma numberPiece_line : numberPiece c (cs ++ '\n' :: more) = numberPiece c cs := by
  cases cs with
  | nil =>
    rw [numberPiece_decimal (by simp), numberPiece_decimal (by simp)]
    exact @decimalPiece_line [] more
  | cons d cs =>
    rw [cons_append, numberPiece_cons, numberPiece_cons, hexPiece_line, ← cons_append,
      decimalPiece_line]

lemma namePiece_line : namePiece c (cs ++ '\n' :: more) = namePiece c cs := by
  unfold namePiece
  rw [takeWhile_line (by decide)]

lemma wide?_newline : Symbol.wide? c '\n' = none := by
  cases h : Symbol.wide? c '\n' with
  | none => rfl
  | some s =>
    have hspelled := wide?_spelling h
    revert hspelled
    cases s <;> simp [Symbol.spelling]

lemma symbolPiece_line : symbolPiece c (cs ++ '\n' :: more) = symbolPiece c cs := by
  unfold symbolPiece
  cases cs with
  | nil => simp [wide?_newline]
  | cons d cs => rfl

lemma slashPiece_other {c} (hline : c ≠ '/') (hblock : c ≠ '*') :
    slashPiece (c :: cs) = symbolPiece '/' (c :: cs) := by
  unfold slashPiece
  split
  · next heq => exact absurd (List.cons.inj heq).1 hline
  · next heq => exact absurd (List.cons.inj heq).1 hblock
  · rfl

lemma slashPiece_line (h : ∀ n faults, slashPiece cs ≠ .bad n faults .unterminatedComment) :
    slashPiece (cs ++ '\n' :: more) = slashPiece cs := by
  cases cs with
  | nil =>
    rw [nil_append, slashPiece_other (by decide) (by decide)]
    exact @symbolPiece_line [] more '/'
  | cons c cs =>
    by_cases hline : c = '/'
    · subst hline
      show Piece.gap (('/' :: (cs ++ '\n' :: more)).takeWhile (· != '\n')).length
        = .gap (('/' :: cs).takeWhile (· != '\n')).length
      rw [← cons_append, takeWhile_line (by decide)]
    by_cases hblock : c = '*'
    · subst hblock
      cases hclose : closeComment? 1 cs with
      | none => exact absurd (by simp [slashPiece, hclose]) (h ('*' :: cs).length [])
      | some n => simp [slashPiece, hclose, closeComment?_append hclose]
    · rw [cons_append, slashPiece_other hline hblock, slashPiece_other hline hblock,
        ← cons_append, symbolPiece_line]

lemma piece_line (h : ∀ n faults, piece c cs ≠ .bad n faults .unterminatedComment) :
    piece c (cs ++ '\n' :: more) = piece c cs := by
  unfold piece at h ⊢
  rw [stringPiece_line, numberPiece_line, namePiece_line, symbolPiece_line]
  by_cases hspace : isSpace c
  · rw [if_pos hspace, if_pos hspace]
  rw [if_neg hspace] at h ⊢
  rw [if_neg hspace]
  by_cases hslash : (c == '/')
  · rw [if_pos hslash] at h ⊢
    rw [if_pos hslash, slashPiece_line h]
  · rw [if_neg hslash, if_neg hslash]

end Line

/-! ## Texts -/

variable (pos : Pos) (cs : List Char) (k : Nat)

lemma token?_down (p pos chars) : (Piece.token? p (pos.down k) chars).toList
      = (Piece.token? p pos chars).toList.map (Token.down k) := by
  cases p <;> rfl

lemma reports_down (pos faults) :
    reports (pos.down k) faults = (reports pos faults).map (Diagnostic.down k) := by
  unfold reports
  rw [map_map]
  rfl

lemma diagnostics_down (p pos) :
    Piece.diagnostics p (pos.down k) = (Piece.diagnostics p pos).map (Diagnostic.down k) := by
  cases p with
  | gap n => rfl
  | token n kind => rfl
  | string n contents faults => exact reports_down k pos faults
  | bad n faults fault =>
    simp only [Piece.diagnostics, reports_down, map_append, map_cons, map_nil]
    rfl

/-- **Lines.**  A text whose first lines leave no comment open is scanned as
    those lines, and then as the others from where they start. -/
lemma scanFrom_line (more) (h : ∀ d ∈ (scanFrom pos cs).2, d.kind ≠ .unterminatedComment) :
    ∃ ts, (scanFrom pos cs).1 = ts ++ [⟨.eof, "", pos.after cs⟩] ∧ scanFrom pos (cs ++ '\n' :: more)
        = (ts ++ (scanFrom ((pos.after cs).next '\n') more).1,
          (scanFrom pos cs).2 ++ (scanFrom ((pos.after cs).next '\n') more).2) := by
  induction pos, cs using scanFrom.induct with
  | case1 pos =>
    refine ⟨[], by rw [scanFrom]; rfl, ?_⟩
    rw [nil_append, scanFrom_blank rfl, scanFrom]
    rfl
  | case2 pos c rest p chars _ _ _ ih =>
    have hextra : p.extra ≤ rest.length := (piece_spec c rest).1
    have hscan : scanFrom pos (c :: rest) = ((Piece.token? p pos chars).toList
          ++ (scanFrom (pos.after chars) (rest.drop p.extra)).1,
        Piece.diagnostics p pos ++ (scanFrom (pos.after chars) (rest.drop p.extra)).2) := by
      rw [scanFrom]
    rw [hscan] at h
    -- the piece is not a comment that is left open, so it ends in its line
    have hline : piece c (rest ++ '\n' :: more) = p := by
      refine piece_line c fun n faults hbad => ?_
      refine h (LexFault.unterminatedComment.toDiagnostic pos) ?_ rfl
      simp only [p, hbad]
      exact mem_append_left _ (mem_append_right _ mem_cons_self)
    obtain ⟨ts, hts, hrest⟩ := ih fun d hd => h d (mem_append_right _ hd)
    have hafter : (pos.after chars).after (rest.drop p.extra) = pos.after (c :: rest) := by
      rw [← after_append, cons_append, take_append_drop]
    rw [hafter] at hts hrest
    refine ⟨(Piece.token? p pos chars).toList ++ ts, ?_, ?_⟩
    · rw [hscan, hts, append_assoc]
    · rw [cons_append, scanFrom, hline, hscan]
      simp only [take_append_of_le_length hextra, drop_append_of_le_length hextra]
      rw [hrest, append_assoc, append_assoc]

lemma line_le_after : pos.line ≤ (pos.after cs).line := by
  induction cs generalizing pos with
  | nil => exact Nat.le_refl _
  | cons c cs ih =>
    refine Nat.le_trans ?_ (ih (pos.next c))
    unfold Pos.next
    split
    · exact Nat.le_succ _
    · exact Nat.le_refl _

lemma scanFrom_lines :
    ∀ t ∈ (scanFrom pos cs).1, pos.line ≤ t.pos.line ∧ t.pos.line ≤ (pos.after cs).line := by
  induction pos, cs using scanFrom.induct with
  | case1 pos =>
    intro t ht
    rw [scanFrom, mem_singleton] at ht
    rw [ht]
    exact ⟨Nat.le_refl _, Nat.le_refl _⟩
  | case2 pos c rest p chars _ _ _ ih =>
    intro t ht
    rw [scanFrom] at ht
    rcases mem_append.mp ht with ht | ht
    · rw [(token?_spec (piece_spec c rest) (Option.mem_toList.mp ht)).2.1]
      exact ⟨Nat.le_refl _, line_le_after pos _⟩
    · have htail := ih t ht
      rw [← after_append, cons_append, take_append_drop] at htail
      exact ⟨Nat.le_trans (line_le_after pos _) htail.1, htail.2⟩

lemma scanFrom_down (pos) (cs : List Char) : scanFrom (pos.down k) cs
      = ((scanFrom pos cs).1.map (Token.down k), (scanFrom pos cs).2.map (Diagnostic.down k)) := by
  induction pos, cs using scanFrom.induct with
  | case1 pos =>
    rw [scanFrom, scanFrom]
    rfl
  | case2 pos c rest p chars _ _ _ ih =>
    rw [scanFrom, scanFrom]
    simp only [p, chars] at ih
    simp only [after_down, ih, map_append, token?_down, diagnostics_down]

lemma after_line : (pos.after cs).next '\n' = ⟨pos.line + cs.count '\n' + 1, 1⟩ := by
  induction cs generalizing pos with
  | nil => rfl
  | cons c cs ih =>
    rw [after_cons, ih, Pos.next, count_cons]
    split
    · simp only [Nat.add_assoc, Nat.add_comm 1]
    · rfl

end Scan

lemma tokenize_below (a b) (h : ∀ d ∈ (tokenize a).2, d.kind ≠ .unterminatedComment) :
    tokenize (a ++ "\n" ++ b)
      = ((tokenize a).1.dropLast ++ (tokenize b).1.map (Token.down (a.toList.count '\n' + 1)),
        (tokenize a).2 ++ (tokenize b).2.map (Diagnostic.down (a.toList.count '\n' + 1))) := by
  obtain ⟨ts, hts, hscan⟩ := Scan.scanFrom_line .start a.toList b.toList h
  have hnext : (start.after a.toList).next '\n' = start.down (a.toList.count '\n' + 1) := by
    rw [Scan.after_line, Nat.add_assoc]
    rfl
  have hchars : (a ++ "\n" ++ b).toList = a.toList ++ '\n' :: b.toList := by
    rw [String.toList_append, String.toList_append, append_assoc]
    rfl
  rw [hnext, Scan.scanFrom_down, ← hchars] at hscan
  rw [tokenize, hscan, tokenize, tokenize, hts, dropLast_concat]

/-- **Line by line.**  Where a text leaves no comment open, the tokens of it and
    of a text below it are its own, but for its end, and those of the other one further down; and so
    are the faults. -/
theorem tokenize_line_local (a b : String)
    (h : ∀ d ∈ (tokenize a).2, d.kind ≠ .unterminatedComment) :
    tokenize (a ++ "\n" ++ b)
      = ((tokenize a).1.filter (·.kind != .eof)
          ++ (tokenize b).1.map (Token.down (a.toList.count '\n' + 1)),
        (tokenize a).2 ++ (tokenize b).2.map (Diagnostic.down (a.toList.count '\n' + 1))) := by
  obtain ⟨ts, hts, hkinds⟩ := Scan.scanFrom_end .start a.toList
  have hwords : (tokenize a).1.filter (·.kind != .eof) = (tokenize a).1.dropLast := by
    rw [tokenize, hts, dropLast_concat, filter_append,
      filter_eq_self.mpr fun t ht => bne_iff_ne.mpr (hkinds t ht)]
    exact append_nil _
  rw [tokenize_below a b h, hwords]

/-- A string literal that is left open does no harm to the next line. -/
theorem tokenize_line_local_open_string :
    (∀ d ∈ (tokenize "\"a\\q").2, d.kind ≠ .unterminatedComment) ∧
      (tokenize ("\"a\\q" ++ "\n" ++ "b")).1
        = [⟨.invalid, "\"a\\q", ⟨1, 1⟩⟩, ⟨.name, "b", ⟨2, 1⟩⟩, ⟨.eof, "", ⟨2, 2⟩⟩] := by
  refine ⟨by decide +kernel, ?_⟩
  rw [tokenize_line_local _ _ (by decide +kernel)]
  decide +kernel

/-! ## Programs further down

Every place in a program has moved down by the same number of lines, and nothing else has
changed. -/

variable (k : Nat) (t : Token)

@[simp] lemma Token.down_kind : (t.down k).kind = t.kind := rfl

@[simp] lemma Token.down_text : (t.down k).text = t.text := rfl

@[simp] lemma Token.down_pos : (t.down k).pos = t.pos.down k := rfl

@[simp] lemma Pos.down_line (p : Pos) : (p.down k).line = p.line + k := rfl

mutual

/-- An expression some lines further down. -/
def Expr.down (k : Nat) : Expr → Expr
  | .literal p l => .literal (p.down k) l
  | .name p n => .name (p.down k) n
  | .binary p op l r => .binary (p.down k) op (l.down k) (r.down k)
  | .unary p op e => .unary (p.down k) op (e.down k)
  | .ternary p c y n => .ternary (p.down k) (c.down k) (y.down k) (n.down k)
  | .call p f args => .call (p.down k) (f.down k) (Expr.allDown k args)
  | .random p l h => .random (p.down k) (l.down k) (h.down k)
  | .randomBytes p e => .randomBytes (p.down k) (e.down k)
  | .index p e i => .index (p.down k) (e.down k) (i.down k)
  | .member p e field => .member (p.down k) (e.down k) field
  | .bytes p es => .bytes (p.down k) (Expr.allDown k es)

def Expr.allDown (k : Nat) : List Expr → List Expr
  | [] => []
  | e :: es => e.down k :: Expr.allDown k es

end

mutual

/-- A statement some lines further down. -/
def Stmt.down (k : Nat) : Stmt → Stmt
  | .declare p n v => .declare (p.down k) n (v.map (Expr.down k))
  | .assign p n op v => .assign (p.down k) n op (v.down k)
  | .send p id data x => .send (p.down k) (id.down k) (Expr.allDown k data) (x.map (Pos.down k))
  | .delay p e => .delay (p.down k) (e.down k)
  | .times p e body => .times (p.down k) (e.down k) (Stmt.allDown k body)
  | .forever p body => .forever (p.down k) (Stmt.allDown k body)
  | .when p e yes no =>
    .when (p.down k) (e.down k) (Stmt.allDown k yes) (Stmt.optionDown k no)
  | .waitFor p e t fallback =>
    .waitFor (p.down k) (e.down k) (t.down k) (Stmt.optionDown k fallback)
  | .giveBack p v => .giveBack (p.down k) (v.map (Expr.down k))
  | .leave p => .leave (p.down k)
  | .again p => .again (p.down k)
  | .print p e => .print (p.down k) (e.down k)
  | .eval p e => .eval (p.down k) (e.down k)

def Stmt.allDown (k : Nat) : List Stmt → List Stmt
  | [] => []
  | s :: ss => s.down k :: Stmt.allDown k ss

def Stmt.optionDown (k : Nat) : Option (List Stmt) → Option (List Stmt)
  | none => none
  | some ss => some (Stmt.allDown k ss)

end

/-- A function some lines further down. -/
def Function.down (k : Nat) (f : Function) : Function :=
  { f with pos := f.pos.down k, body := Stmt.allDown k f.body }

/-- A receive handler some lines further down. -/
def ReceiveHandler.down (k : Nat) (h : ReceiveHandler) : ReceiveHandler :=
  ⟨h.pos.down k, h.predicate.down k, Stmt.allDown k h.body⟩

/-- An interval handler some lines further down. -/
def IntervalHandler.down (k : Nat) (h : IntervalHandler) : IntervalHandler :=
  ⟨h.pos.down k, h.period.down k, Stmt.allDown k h.body⟩

/-- A statement or a function some lines further down. -/
def Parse.Item.down (k : Nat) : Parse.Item → Parse.Item
  | .stmt st => .stmt (st.down k)
  | .function f => .function (f.down k)

end CanScript
