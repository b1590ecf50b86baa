import CanScript.Proofs.ReadBack
import CanScript.Proofs.Recorded
import CanScript.Trace.Script

/-! # Converted traces are scripts

    The script that a trace is converted to is read without a fault, and its main sequence is what
    one expects: for each frame the time to wait, if there is any, and a `send`. -/

namespace CanScript

open List Number CanScript.Symbol

/-! ## Pieces of lines -/

namespace Scan

/-- A piece of a line in front of `rest` is scanned as words. -/
structure Inline (cs rest : List Char) (ws : List Lexeme) : Prop where
  flat : '\n' ∉ cs
  valid : ∀ w ∈ ws, w.kind ≠ .invalid
  scan : ∀ pos, ∃ ts, scanFrom pos (cs ++ rest)
      = (ts ++ (scanFrom (pos.after cs) rest).1, (scanFrom (pos.after cs) rest).2)
    ∧ ts.map Token.lexeme = ws ∧ ∀ t ∈ ts, t.pos.line = pos.line

lemma Inline.append {cs ds rest ws vs} (h : Inline cs (ds ++ rest) ws) (h' : Inline ds rest vs) :
    Inline (cs ++ ds) rest (ws ++ vs) where
  flat := by
    intro hmem
    rcases mem_append.mp hmem with hmem | hmem
    · exact h.flat hmem
    · exact h'.flat hmem
  valid := forall_mem_append.mpr ⟨h.valid, h'.valid⟩
  scan := by
    intro pos
    obtain ⟨ts, hscan, hts, hline⟩ := h.scan pos
    obtain ⟨us, hscan', hus, hline'⟩ := h'.scan (pos.after cs)
    refine ⟨ts ++ us, ?_, by rw [map_append, hts, hus], fun t ht => ?_⟩
    · rw [append_assoc, hscan, hscan', Pos.after_append, append_assoc]
    · rcases mem_append.mp ht with ht | ht
      · exact hline t ht
      · rw [hline' t ht, line_after h.flat]

lemma Inline.word {w rest} (h : Genuine w.kind w.text.toList) (hrest : Detached w.kind rest) :
    Inline (written w.kind w.text.toList) rest [w] := by
  refine ⟨not_mem_written h, forall_mem_singleton.mpr h.ne_invalid,
    fun pos => ⟨[⟨w.kind, w.text, pos⟩], ?_, rfl, ?_⟩⟩
  · rw [scanFrom_written h hrest, String.ofList_toList]
    rfl
  · exact forall_mem_singleton.mpr rfl

lemma Detached.of_cons {kind c rest} (h : detaches kind c) : Detached kind (c :: rest) := by
  intro d hd
  obtain rfl := Option.some.inj hd
  exact h

lemma Inline.space (rest) : Inline [' '] rest [] :=
  ⟨by decide, nofun, fun pos => ⟨[], scanFrom_blank rfl pos rest, rfl, nofun⟩⟩

lemma Inline.keyword (k) {rest} (h : Detached (.keyword k) rest) :
    Inline k.word.toList rest [k.lexeme] :=
  Inline.word (w := k.lexeme) .keyword h

lemma Inline.symbol (s) {rest} (h : Detached (.symbol s) rest) :
    Inline s.spelling.toList rest [s.lexeme] :=
  Inline.word (w := s.lexeme) .symbol h

lemma scanFrom_comment {text} (h : '\n' ∉ text) (pos rest) :
    scanFrom pos ('/' :: '/' :: (text ++ '\n' :: rest))
      = scanFrom ((pos.after ('/' :: '/' :: text)).next '\n') rest := by
  have hstops : (text ++ '\n' :: rest).takeWhile (· != '\n') = text := by
    refine (takeWhile_append_of_stop _ ?_ ?_).1
    · intro c hc
      exact bne_iff_ne.mpr fun heq => h (heq ▸ hc)
    · intro c hc
      obtain rfl := Option.some.inj hc
      rfl
  have hpiece : piece '/' ('/' :: (text ++ '\n' :: rest)) = .gap (text.length + 1) := by
    show Piece.gap ('/' :: (text ++ '\n' :: rest).takeWhile (· != '\n')).length = _
    rw [hstops]
    rfl
  rw [scanFrom]
  simp only [hpiece, Piece.extra, take_succ_cons, take_left, drop_succ_cons, drop_left]
  exact scanFrom_blank rfl _ rest

end Scan

/-! ## Lines of a script -/

open Parse Print Scan

def TokenKind.beginsLine (kind : TokenKind) : Prop :=
  kind = .keyword .send ∨ kind = .keyword .delay ∨ kind = .eof

lemma endsStmt_of_beginsLine {last next : Token} (h : next.kind.beginsLine)
    (hline : next.kind = .eof ∨ last.pos.line < next.pos.line) : EndsStmt last next where
  expr := .of_closes (by rcases h with h | h | h <;> rw [h] <;> decide)
  value := by
    rcases hline with heof | hline
    · simp [endsReturn, heof]
    · simp [endsReturn, hline]
  assign := by rcases h with h | h | h <;> rw [h] <;> rfl
  otherwise := by rcases h with h | h | h <;> simp [h]
  brace := by rcases h with h | h | h <;> simp [h]

def Plays (cs : List Char) (expected : List Stmt) : Prop :=
  ∀ pos p, ∃ ts sts, scanFrom pos cs = (ts, [])
    ∧ ScriptReads p ts { p with statements := p.statements ++ sts }
    ∧ sts.map Stmt.unplaced = expected ∧ (∀ t ∈ ts, t.kind ≠ .invalid)
    ∧ (ts.headD endToken).kind.beginsLine ∧ ∀ t, ts.head? = some t → pos.line ≤ t.pos.line

lemma Plays.nil : Plays [] [] := by
  intro pos p
  refine ⟨[⟨.eof, "", pos⟩], [], by rw [scanFrom], ?_, rfl, ?_, .inr (.inr rfl), ?_⟩
  · rw [append_nil]
    exact .done rfl
  · exact forall_mem_singleton.mpr (by simp)
  · intro t ht
    obtain rfl := Option.some.inj ht
    exact Nat.le_refl _

lemma line_next (pos : Pos) : (pos.next '\n').line = pos.line + 1 :=
  rfl

lemma Plays.comment {text cs sts} (htext : '\n' ∉ text)
    (h : Plays cs sts) : Plays ('/' :: '/' :: (text ++ '\n' :: cs)) sts := by
  intro pos p
  have hflat : '\n' ∉ '/' :: '/' :: text := by simpa using htext
  obtain ⟨ts, sts', hscan, hreads, hsts, hvalid, hbegins, hline⟩ :=
    h ((pos.after ('/' :: '/' :: text)).next '\n') p
  refine ⟨ts, sts', by rw [scanFrom_comment htext, hscan], hreads, hsts, hvalid, hbegins,
    fun t ht => ?_⟩
  have hle := hline t ht
  rw [line_next, line_after hflat] at hle
  omega

/-- A line with a statement in front of lines. -/
lemma Plays.line {line cs ws st sts} (hline : Inline line ('\n' :: cs) ws)
    (hread : ∀ ts, ts.map Token.lexeme = ws →
      ∃ st', Sentence 0 false (.stmt st') ts ∧ st'.unplaced = st)
    (hbegins : ∃ w, ws.head? = some w ∧ w.kind.beginsLine) (h : Plays cs sts) :
    Plays (line ++ '\n' :: cs) (st :: sts) := by
  intro pos p
  obtain ⟨ts, hscan, hts, hlines⟩ := hline.scan pos
  obtain ⟨st', hst, hsteq⟩ := hread ts hts
  obtain ⟨us, sts', hscan', hreads, hstseq, hvalid', hbegins', hline'⟩ :=
    h ((pos.after line).next '\n') { p with statements := p.statements ++ [st'] }
  obtain ⟨w, hw, hwbegins⟩ := hbegins
  obtain ⟨t, rest, rfl⟩ : ∃ t rest, ts = t :: rest := by
    cases ts with
    | nil =>
      rw [← hts] at hw
      cases hw
    | cons t rest => exact ⟨t, rest, rfl⟩
  have hends : EndsStmt ((t :: rest).getLastD endToken) (us.headD endToken) := by
    refine endsStmt_of_beginsLine hbegins' ?_
    cases us with
    | nil => exact .inl rfl
    | cons u us =>
      have hlast : (t :: rest).getLastD endToken ∈ t :: rest := by
        rw [getLastD_eq_getLast?, getLast?_eq_some_getLast (cons_ne_nil t rest)]
        exact getLast_mem _
      have hle := hline' u rfl
      rw [line_next, line_after hline.flat] at hle
      rw [hlines _ hlast, headD_cons]
      exact .inr hle
  refine ⟨t :: rest ++ us, st' :: sts', ?_, ?_, ?_, ?_, ?_, ?_⟩
  · rw [hscan, scanFrom_blank rfl, hscan']
  · rw [append_cons]
    exact .line hst hends hreads
  · rw [map_cons, hsteq, hstseq]
  · intro u hu
    rcases mem_append.mp hu with hu | hu
    · exact hline.valid u.lexeme (hts ▸ mem_map_of_mem hu)
    · exact hvalid' u hu
  · obtain rfl : t.lexeme = w := by
      rw [← hts] at hw
      exact Option.some.inj hw
    exact hwbegins
  · intro u hu
    obtain rfl := Option.some.inj hu
    exact Nat.le_of_eq (hlines t mem_cons_self).symm

/-! ## Numbers -/

def hexWord (width n : Nat) : Lexeme :=
  ⟨.hexNumber, Trace.hexLiteral width n⟩

lemma hexWord_toList (width n) :
    (hexWord width n).text.toList = '0' :: 'x' :: paddedHex width n := by
  show ("0x" ++ String.ofList (paddedHex width n)).toList = _
  rw [String.toList_append, String.toList_ofList, String.toList_ofList]
  rfl

lemma isHexDigit_paddedHex {width n c} (h : c ∈ paddedHex width n) : isHexDigit c := by
  have hdigit : ∀ d < 16, isHexDigit d.digitChar.toUpper := by decide
  obtain ⟨d, hd, rfl⟩ := mem_paddedHex h
  exact hdigit d hd

lemma hexWord_genuine (width n) : Genuine (hexWord width n).kind (hexWord width n).text.toList := by
  rw [hexWord_toList]
  exact .hexNumber (.inl rfl) (paddedHex_ne_nil width n) fun _ => isHexDigit_paddedHex

lemma int64?_ofNat {n} (h : n ≤ maxWord64 / 1000) :
    int64? n = some (Int64.ofNat n) := by
  have hmax : maxWord64 / 1000 ≤ 18446744073709551 := by decide
  unfold int64? minInt64 maxInt64
  rw [if_pos (by omega), Int64.ofInt_eq_ofNat]

lemma hexWord_denotes {width n} (h : n ≤ maxWord64 / 1000) {t} (hkind : t.kind = .hexNumber)
    (htext : t.text = (hexWord width n).text) : Denotes t (.int (Int64.ofNat n)) := by
  refine .hexadecimal hkind ?_
  rw [htext, hexWord_toList]
  show readInt64? 16 (paddedHex width n) = _
  rw [readInt64?_of_unsigned (unsigned_of_class (p := isHexDigit) rfl rfl
    fun _ => isHexDigit_paddedHex), readDigits?_paddedHex]
  exact int64?_ofNat h

lemma Parse.Denotes.ternary {t l} (h : Denotes t l) : Reads (.ternary (.literal t.pos l)) [t] :=
  Reads.loosen (m := 12) (.simple (.literal h)) (Nat.le_refl _) (Nat.zero_le _)

/-! ## Statements that send and wait -/

namespace Trace

def numberExpr (n : Nat) : Expr :=
  .literal .start (.int (Int64.ofNat n))

def sendStmt (f : Frame) : Stmt :=
  .send .start (numberExpr f.id) (f.data.map fun b => numberExpr b.toNat)
    (if f.extended && f.id ≤ Frame.maxStandardId then some .start else none)

def playStmts (gap : Nat) (f : Frame) : List Stmt :=
  if 0 < gap then [.delay .start (numberExpr gap), sendStmt f] else [sendStmt f]

def dataArguments (f : Frame) : List Lexeme :=
  f.data.map (fun b => hexWord 2 b.toNat)
    ++ if f.extended && f.id ≤ Frame.maxStandardId then [Keyword.ext.lexeme] else []

def idArgument (f : Frame) : Lexeme :=
  hexWord (if f.extended then 8 else 3) f.id

lemma sendArguments_eq (f) :
    sendArguments f = (idArgument f :: dataArguments f).map Lexeme.text := by
  have hmap : (f.data.map fun b => hexWord 2 b.toNat).map Lexeme.text
      = f.data.map fun b => hexLiteral 2 b.toNat := by
    rw [map_map]
    rfl
  rw [sendArguments, dataArguments, map_cons, map_append, hmap]
  by_cases hext : (f.extended && decide (f.id ≤ Frame.maxStandardId))
  · rw [if_pos hext, if_pos hext]
    rfl
  · rw [if_neg hext, if_neg hext]
    rfl

def IsArgument (w : Lexeme) : Prop :=
  Genuine w.kind w.text.toList ∧ (w.kind = .hexNumber ∨ w.kind = .number ∨ w.kind = .keyword .ext)

lemma IsArgument.written {w} (h : IsArgument w) : written w.kind w.text.toList = w.text.toList := by
  rw [Scan.written, if_neg]
  rcases h.2 with hkind | hkind | hkind <;> simp [hkind]

lemma IsArgument.detached {w} (h : IsArgument w) {c rest} (hc : c = ',' ∨ c = ')') :
    Detached w.kind (c :: rest) := by
  refine .of_cons ?_
  rcases hc with rfl | rfl <;> rcases h.2 with hkind | hkind | hkind <;> rw [hkind] <;> decide

lemma idArgument_isArgument (f) : IsArgument (idArgument f) :=
  ⟨hexWord_genuine _ _, .inl rfl⟩

lemma dataArguments_areArguments (f) : ∀ w ∈ dataArguments f, IsArgument w := by
  intro w hw
  rcases mem_append.mp hw with hw | hw
  · obtain ⟨b, -, rfl⟩ := mem_map.mp hw
    exact ⟨hexWord_genuine _ _, .inl rfl⟩
  · split at hw
    · rw [mem_singleton.mp hw]
      exact ⟨.keyword, .inr (.inr rfl)⟩
    · cases hw

def argumentWords (ws : List Lexeme) : List Lexeme :=
  ws.flatMap fun w => [Symbol.comma.lexeme, w]

lemma inline_arguments {w ws} (hw : IsArgument w) (hws : ∀ v ∈ ws, IsArgument v) (rest) :
    Inline (", ".intercalate ((w :: ws).map Lexeme.text)).toList (')' :: rest)
      (w :: argumentWords ws) := by
  induction ws generalizing w with
  | nil =>
    rw [map_singleton, String.intercalate_singleton, ← hw.written]
    exact .word hw.1 (hw.detached (.inr rfl))
  | cons v ws ih =>
    rw [forall_mem_cons] at hws
    have hmore := (Inline.space _).append (ih hws.1 hws.2)
    have hcomma := Inline.append (Inline.symbol .comma (.of_cons (by rfl))) hmore
    have hjoined := Inline.append (Inline.word hw.1 (hw.detached (.inl (by rfl)))) hcomma
    rw [hw.written] at hjoined
    rw [map_cons, map_cons, String.intercalate_cons_cons, String.toList_append,
      String.toList_append, append_assoc]
    exact hjoined

lemma inline_bracketed (k : Keyword) {c inner rest ws} (hc : c.isDigit)
    (h : Inline (c :: inner) (')' :: '\n' :: rest) ws) :
    Inline (k.word.toList ++ ('(' :: (c :: inner ++ [')']))) ('\n' :: rest)
      (k.lexeme :: leftParen.lexeme :: (ws ++ [rightParen.lexeme])) := by
  have hdetaches : detaches (.symbol .leftParen) c := by
    rw [detaches, Bool.not_eq_true', Bool.eq_false_iff]
    intro hmem
    simp only [contains_cons, contains_nil, Bool.or_false, Bool.or_eq_true, beq_iff_eq] at hmem
    rcases hmem with rfl | rfl | rfl | rfl | rfl | rfl | rfl <;> cases hc
  have hclose : Inline [')'] ('\n' :: rest) [rightParen.lexeme] :=
    Inline.symbol .rightParen (.of_cons rfl)
  have hinner : Inline (c :: inner ++ [')']) ('\n' :: rest) (ws ++ [rightParen.lexeme]) :=
    Inline.append h hclose
  have hopen : Inline ('(' :: (c :: inner ++ [')'])) ('\n' :: rest)
      (leftParen.lexeme :: (ws ++ [rightParen.lexeme])) :=
    Inline.append (Inline.symbol .leftParen (.of_cons hdetaches)) hinner
  have hkeyword : detaches (.keyword k) '(' := by
    show (!Text.continuesName '(' && '(' != '.')
    decide
  exact Inline.append (Inline.keyword k (.of_cons hkeyword)) hopen

def sendWords (f : Frame) : List Lexeme :=
  Keyword.send.lexeme :: Symbol.leftParen.lexeme
    :: (idArgument f :: argumentWords (dataArguments f) ++ [Symbol.rightParen.lexeme])

lemma intercalate_head {w c cs} (h : w.text.toList = c :: cs) (ws) :
    ∃ more, (", ".intercalate ((w :: ws).map Lexeme.text)).toList = c :: more := by
  cases ws with
  | nil => exact ⟨cs, by rw [map_singleton, String.intercalate_singleton, h]⟩
  | cons v ws =>
    rw [map_cons, map_cons, String.intercalate_cons_cons, String.toList_append,
      String.toList_append, h]
    exact ⟨_, rfl⟩

lemma inline_sendLine (f rest) : Inline (sendLine f).toList ('\n' :: rest) (sendWords f) := by
  have harguments := inline_arguments (idArgument_isArgument f) (dataArguments_areArguments f)
    ('\n' :: rest)
  have htext : (sendLine f).toList = Keyword.send.word.toList
      ++ ('(' :: ((", ".intercalate ((idArgument f :: dataArguments f).map Lexeme.text)).toList
        ++ [')'])) := by
    rw [sendLine, sendArguments_eq, String.toList_append, String.toList_append]
    rfl
  have hid : (idArgument f).text.toList = '0' :: 'x' :: paddedHex _ f.id :=
    hexWord_toList _ f.id
  obtain ⟨more, hmore⟩ := intercalate_head hid (dataArguments f)
  rw [hmore] at harguments htext
  rw [htext]
  exact inline_bracketed .send rfl harguments

lemma id_in_range {n} (h : n ≤ Frame.maxExtendedId) : n ≤ maxWord64 / 1000 :=
  Nat.le_trans h (by decide)

lemma byte_in_range (b : UInt8) : b.toNat ≤ maxWord64 / 1000 := by
  have hb := b.toNat_lt
  exact Nat.le_trans (Nat.le_of_lt hb) (by decide)

lemma data_reads {data : List UInt8} {x : Bool} {ts}
    (hts : ts.map Token.lexeme = argumentWords (data.map (fun b => hexWord 2 b.toNat)
      ++ if x then [Keyword.ext.lexeme] else [])) :
    ∃ es place, DataReads es place ts ∧ Expr.allUnplaced es = data.map (fun b => numberExpr b.toNat)
      ∧ place.map (fun _ => Pos.start) = if x then some .start else none := by
  induction data generalizing ts with
  | nil =>
    cases x with
    | false =>
      obtain rfl := lexemes_nil hts
      exact ⟨[], none, .none, rfl, rfl⟩
    | true =>
      obtain ⟨comma, _, rfl, hcomma, -, hrest⟩ := lexemes_cons_iff.mp hts
      obtain ⟨t, _, rfl, ht, -, hlast⟩ := lexemes_cons_iff.mp hrest
      obtain rfl := lexemes_nil hlast
      exact ⟨[], some t.pos, .extended hcomma ht, rfl, rfl⟩
  | cons b data ih =>
    obtain ⟨comma, _, rfl, hcomma, -, hrest⟩ := lexemes_cons_iff.mp hts
    obtain ⟨t, more, rfl, ht, htext, hmore⟩ := lexemes_cons_iff.mp hrest
    obtain ⟨es, place, hdata, hes, hplace⟩ := ih hmore
    have hkind : t.kind = .hexNumber := ht
    have hbyte := hexWord_denotes (byte_in_range b) hkind htext
    exact ⟨_ :: es, place, .item hcomma hbyte.ternary (by simp [hkind]) hdata,
      by rw [Expr.allUnplaced, hes]; rfl, hplace⟩

lemma sendWords_reads {f} (hf : Recorded f) {ts : List Token}
    (hts : ts.map Token.lexeme = sendWords f) :
    ∃ st, Sentence 0 false (.stmt st) ts ∧ st.unplaced = sendStmt f := by
  simp only [sendWords, cons_append, lexemes_iff] at hts
  obtain ⟨k, _, rfl, hk, -, o, _, rfl, ho, -, t, _, rfl, ht, htext, ds, _, rfl, hds, c, _, rfl, hc,
    -, rfl⟩ := hts
  obtain ⟨es, place, hdata, hes, hplace⟩ := data_reads hds
  have hid := hexWord_denotes (id_in_range hf.id_le) ht htext
  exact ⟨_, .send hk ho hid.ternary hdata hc, by rw [Stmt.unplaced, hes, hplace]; rfl⟩

def delayWords (gap : Nat) : List Lexeme :=
  [Keyword.delay.lexeme, Symbol.leftParen.lexeme, ⟨.number, gap.repr⟩, Symbol.rightParen.lexeme]

lemma repr_head (n : Nat) : ∃ c cs, n.repr.toList = c :: cs ∧ c.isDigit := by
  have hnumeral := isNumeral_toDigits n
  rw [Nat.toList_repr]
  cases hdigits : Nat.toDigits 10 n with
  | nil => exact absurd hdigits hnumeral.1
  | cons c cs => exact ⟨c, cs, rfl, hnumeral.2 c (hdigits ▸ mem_cons_self)⟩

lemma number_isArgument (n : Nat) : IsArgument ⟨.number, n.repr⟩ := by
  refine ⟨?_, .inr (.inl rfl)⟩
  show Genuine .number n.repr.toList
  rw [Nat.toList_repr]
  exact .number (isNumeral_toDigits n)

lemma inline_delayLine (gap rest) :
    Inline s!"delay({gap})".toList ('\n' :: rest) (delayWords gap) := by
  have hword := number_isArgument gap
  have hinner : Inline gap.repr.toList (')' :: '\n' :: rest) [⟨.number, gap.repr⟩] :=
    hword.written ▸ Inline.word hword.1 (hword.detached (.inr rfl))
  have htext : s!"delay({gap})".toList
      = Keyword.delay.word.toList ++ ('(' :: (gap.repr.toList ++ [')'])) := by
    show ("delay(" ++ gap.repr ++ ")").toList = _
    rw [String.toList_append, String.toList_append, append_assoc]
    rfl
  obtain ⟨c, cs, hdigits, hc⟩ := repr_head gap
  rw [hdigits] at hinner htext
  rw [htext]
  exact inline_bracketed .delay hc hinner

lemma delayWords_reads {gap} (hgap : gap ≤ maxWord64 / 1000) {ts}
    (hts : ts.map Token.lexeme = delayWords gap) :
    ∃ st, Sentence 0 false (.stmt st) ts ∧ st.unplaced = .delay .start (numberExpr gap) := by
  simp only [delayWords, lexemes_iff] at hts
  obtain ⟨k, _, rfl, hk, -, o, _, rfl, ho, -, t, _, rfl, ht, htext, c, _, rfl, hc, -, rfl⟩ := hts
  have hnumber : Denotes t (.int (Int64.ofNat gap)) := by
    refine .decimal ht ?_
    rw [htext, Nat.toList_repr, readInt64?_of_unsigned (isNumeral_toDigits gap).unsigned,
      readDigits?_toDigits (by decide) (by decide)]
    exact int64?_ofNat hgap
  have hgroup := Reads.group ho hnumber.ternary hc
  exact ⟨_, .delay hk
    (Reads.loosen (m := 12) (.simple hgroup) (Nat.le_refl _) (Nat.zero_le _)), rfl⟩

/-! ## Scripts of frames -/

def gapsAfter (time : Nat) : List Frame → List Nat
  | [] => []
  | f :: rest => (f.timestamp - time) :: gapsAfter f.timestamp rest

/-- The times without a frame before each frame, with nothing before the first. -/
def gaps : List Frame → List Nat
  | [] => []
  | f :: rest => 0 :: gapsAfter f.timestamp rest

/-- The statements that send frames with given times before them. -/
def resendStmts (gaps : List Nat) (frames : List Frame) : List Stmt :=
  (gaps.zip frames).flatMap fun p => playStmts p.1 p.2

def unlines (lines : List String) : List Char :=
  lines.flatMap fun line => line.toList ++ ['\n']

lemma unlines_intercalate (line lines) :
    ("\n".intercalate (line :: lines) ++ "\n").toList = unlines (line :: lines) := by
  induction lines generalizing line with
  | nil =>
    rw [String.intercalate_singleton, String.toList_append]
    exact (append_nil _).symm
  | cons next lines ih =>
    rw [String.intercalate_cons_cons, String.append_assoc, String.toList_append,
      String.toList_append, ih]
    rfl

lemma plays_sendLine {f} (hf : Recorded f) {lines sts} (h : Plays (unlines lines) sts) :
    Plays (unlines (sendLine f :: lines)) (sendStmt f :: sts) := by
  rw [unlines, flatMap_cons, append_assoc]
  exact .line (inline_sendLine f _) (fun _ => sendWords_reads hf) ⟨_, rfl, .inl rfl⟩ h

lemma plays_delayLine {gap} (hgap : gap ≤ maxWord64 / 1000) {lines sts}
    (h : Plays (unlines lines) sts) :
    Plays (unlines (s!"delay({gap})" :: lines)) (.delay .start (numberExpr gap) :: sts) := by
  rw [unlines, flatMap_cons, append_assoc]
  exact .line (inline_delayLine gap _) (fun _ => delayWords_reads hgap) ⟨_, rfl, .inr (.inl rfl)⟩ h

lemma plays_comment {text} (htext : '\n' ∉ text.toList) {lines sts}
    (h : Plays (unlines lines) sts) : Plays (unlines (("// " ++ text) :: lines)) sts := by
  have hflat : '\n' ∉ ' ' :: text.toList := by simpa using htext
  rw [unlines, flatMap_cons, append_assoc, String.toList_append]
  exact .comment hflat h

lemma plays_scriptLinesAfter {frames} (h : ∀ f ∈ frames, Recorded f) (time port) :
    Plays (unlines (scriptLinesAfter time port frames))
      (resendStmts (gapsAfter time frames) frames) := by
  induction frames generalizing time port with
  | nil => exact .nil
  | cons f frames ih =>
    rw [forall_mem_cons] at h
    have hsend := plays_sendLine h.1 (ih h.2 f.timestamp f.port)
    -- from the frame backwards: its line, the name of its port, the time before it
    have hport : Plays (unlines ((if f.port == port then [] else ["// " ++ f.port])
        ++ sendLine f :: scriptLinesAfter f.timestamp f.port frames))
        (sendStmt f :: resendStmts (gapsAfter f.timestamp frames) frames) := by
      split
      · exact hsend
      · exact plays_comment h.1.port hsend
    have hgap : f.timestamp - time ≤ maxWord64 / 1000 :=
      Nat.le_trans (Nat.sub_le _ _) h.1.timestamp
    rw [scriptLinesAfter, gapsAfter, resendStmts, zip_cons_cons, flatMap_cons,
      playStmts, append_assoc]
    split
    · exact plays_delayLine hgap hport
    · exact hport

lemma plays_scriptLines {frames} (h : ∀ f ∈ frames, Recorded f) :
    Plays (unlines (scriptLines frames)) (resendStmts (gaps frames) frames) := by
  cases frames with
  | nil => exact .nil
  | cons f frames =>
    rw [forall_mem_cons] at h
    exact plays_comment h.1.port (plays_sendLine h.1 (plays_scriptLinesAfter h.2 _ _))

lemma plays_toScript {frames} (h : ∀ f ∈ frames, Recorded f) :
    Plays (toScript frames).toList (resendStmts (gaps frames) frames) := by
  have htitle : '\n' ∉ ("Replay of " ++ frames.length.repr ++ " frame(s)").toList := by
    rw [String.toList_append, String.toList_append, Nat.toList_repr, mem_append, mem_append]
    rintro ((hmem | hmem) | hmem)
    · revert hmem
      decide
    · exact absurd ((isNumeral_toDigits _).2 _ hmem) (by decide)
    · revert hmem
      decide
  rw [toScript, unlines_intercalate]
  exact plays_comment htitle (plays_scriptLines h)

lemma ofSource_toScript {frames} (h : ∀ f ∈ frames, Recorded f) :
    ∃ statements, Program.ofSource (toScript frames) = ({ statements }, [])
      ∧ statements.map Stmt.unplaced = resendStmts (gaps frames) frames := by
  obtain ⟨ts, statements, hscan, hreads, heq, hvalid, -, -⟩ := plays_toScript h .start {}
  refine ⟨statements, ?_, heq⟩
  have htokens : tokenize (toScript frames) = (ts, []) := hscan
  rw [Program.ofSource, htokens]
  simp only [hreads.ofTokens hvalid]
  rfl

end Trace

end CanScript
