import CanScript.Proofs.Lossless

/-! # Words are scanned back

    The tokens that scanning yields are spelled in a few ways, one for each kind, and a word that is
    spelled so is scanned as itself wherever what follows cannot be taken for a part of it.  So the
    words of a script can be written out again, with blanks between them. -/

namespace CanScript

open List Text CanScript.Symbol Keyword

/-- A kind and a text, without a place. -/
structure Lexeme where
  kind : TokenKind
  text : String
  deriving DecidableEq, Repr

/-- A token without its place. -/
def Token.lexeme (t : Token) : Lexeme :=
  ⟨t.kind, t.text⟩

namespace Scan

/-! ## Spellings -/

variable {c : Char}

def IsNumeral (cs : List Char) : Prop :=
  cs ≠ [] ∧ ∀ c ∈ cs, c.isDigit = true

/-- How the words of each kind are spelled.  The text of a string literal is its contents, which may
    be anything. -/
inductive Genuine : TokenKind → List Char → Prop where
  | number {ds} : IsNumeral ds → Genuine .number ds
  | hexNumber {x : Char} {ds} : x = 'x' ∨ x = 'X' → ds ≠ [] →
      (∀ c ∈ ds, isHexDigit c = true) → Genuine .hexNumber ('0' :: x :: ds)
  | float {ds es} : IsNumeral ds → IsNumeral es → Genuine .float (ds ++ '.' :: es)
  | seconds {ds} : IsNumeral ds → Genuine .seconds (ds ++ ['s'])
  | text {cs} : Genuine .text cs
  | name {c cs} : Text.startsName c = true → (∀ d ∈ cs, Text.continuesName d = true) →
      Keyword.ofWord? (String.ofList (c :: cs)) = none → Genuine .name (c :: cs)
  | keyword {k} : Genuine (.keyword k) k.word.toList
  | symbol {s} : Genuine (.symbol s) s.spelling.toList

lemma Genuine.ne_invalid {kind cs} (h : Genuine kind cs) : kind ≠ .invalid := by
  cases h <;> exact nofun

def escaped : List Char → List Char
  | [] => []
  | '\n' :: cs => '\\' :: 'n' :: escaped cs
  | '"' :: cs => '\\' :: '"' :: escaped cs
  | '\\' :: cs => '\\' :: '\\' :: escaped cs
  | c :: cs => c :: escaped cs

/-- How a word is written: a string literal in quotes, and any other word by its text. -/
def written (kind : TokenKind) (cs : List Char) : List Char :=
  if kind = .text then '"' :: (escaped cs ++ ['"']) else cs

def detaches (kind : TokenKind) (c : Char) : Bool :=
  match kind with
  | .text => true
  | .symbol _ => !(['&', '|', '<', '>', '=', '/', '*'].contains c)
  | _ => !Text.continuesName c && c != '.'

def Detached (kind : TokenKind) (rest : List Char) : Prop :=
  ∀ c, rest.head? = some c → detaches kind c = true

lemma detaches_blank (kind) (h : isSpace c) : detaches kind c := by
  have hblank : c = ' ' ∨ c = '\t' ∨ c = '\r' ∨ c = '\n' := by
    simpa [isSpace, or_assoc] using h
  rcases hblank with rfl | rfl | rfl | rfl <;> cases kind <;> rfl

/-! ## Classes of characters -/

lemma isLetter_of_isDigit (h : c.isDigit) : isLetter c = false := by
  simp only [Char.isDigit, Bool.and_eq_true, decide_eq_true_eq] at h
  have hlow : 48 ≤ c.toNat := h.1
  have hhigh : c.toNat ≤ 57 := h.2
  unfold isLetter
  rw [if_pos (by omega)]
  delta Char.isAlpha Char.isUpper Char.isLower
  simp only [Bool.or_eq_false_iff, Bool.and_eq_false_iff, decide_eq_false_iff_not]
  refine ⟨fun hc => ?_, .inl fun hc => ?_⟩
  · have : 65 ≤ c.toNat := hc.1
    omega
  · have : 97 ≤ c.toNat := hc
    omega

lemma continuesName_of_isDigit (h : c.isDigit) : continuesName c := by
  have hascii : c.toNat < 128 := by
    simp only [Char.isDigit, Bool.and_eq_true, decide_eq_true_eq] at h
    have hhigh : c.toNat ≤ 57 := h.2
    omega
  simp only [continuesName, isNumeral, if_pos hascii, h, Bool.or_true, Bool.true_or]

lemma continuesName_of_isHexDigit (h : isHexDigit c) : continuesName c := by
  have hletter : c.toNat < 128 → c.isAlpha → continuesName c := by
    intro hascii halpha
    simp only [continuesName, isLetter, if_pos hascii, halpha, Bool.true_or]
  simp only [isHexDigit, Bool.or_eq_true, Bool.and_eq_true, decide_eq_true_eq] at h
  rcases h with (hdigit | ⟨hlow, hhigh⟩) | ⟨hlow, hhigh⟩
  · exact continuesName_of_isDigit hdigit
  · have hf : c.toNat ≤ 102 := hhigh
    refine hletter (by omega) ?_
    delta Char.isAlpha Char.isLower
    simp only [Bool.or_eq_true, Bool.and_eq_true, decide_eq_true_eq]
    exact .inr ⟨hlow, Nat.le_trans hf (by decide : 102 ≤ 'z'.toNat)⟩
  · have hf : c.toNat ≤ 70 := hhigh
    refine hletter (by omega) ?_
    delta Char.isAlpha Char.isUpper
    simp only [Bool.or_eq_true, decide_eq_true_eq]
    exact .inl ⟨hlow, Nat.le_trans hf (by decide : 70 ≤ 'Z'.toNat)⟩

lemma piece_of_isDigit (rest : List Char) (h : c.isDigit) : piece c rest = numberPiece c rest := by
  have hne : ∀ d, d.isDigit = false → (c == d) = false := by
    intro d hd
    refine beq_eq_false_iff_ne.mpr fun hcd => ?_
    rw [hcd, hd] at h
    cases h
  unfold piece isSpace
  rw [hne _ rfl, hne _ rfl, hne _ rfl, hne _ rfl, hne _ rfl, hne _ rfl, h]
  rfl

lemma piece_of_startsName (rest : List Char) (h : startsName c) :
    piece c rest = namePiece c rest := by
  have hne : ∀ d, startsName d = false → (c == d) = false := by
    intro d hd
    refine beq_eq_false_iff_ne.mpr fun hcd => ?_
    rw [hcd, hd] at h
    cases h
  have hdigit : c.isDigit = false := by
    cases hd : c.isDigit with
    | false => rfl
    | true =>
      simp only [startsName, isLetter_of_isDigit hd, Bool.false_or, beq_iff_eq] at h
      rw [h] at hd
      cases hd
  unfold piece isSpace
  rw [hne _ rfl, hne _ rfl, hne _ rfl, hne _ rfl, hne _ rfl, hne _ rfl, hdigit, h]
  rfl

/-! ## Scanning yields genuine words -/

lemma take_length_takeWhile (p) (cs : List Char) :
    cs.take (cs.takeWhile p).length = cs.takeWhile p :=
  (prefix_iff_eq_take.mp <| takeWhile_prefix p).symm

variable {p : Char → Bool} {s : Symbol} {rest ds : List Char}

lemma mem_takeWhile {cs : List Char} (h : c ∈ cs.takeWhile p) : p c :=
  all_eq_true.mp all_takeWhile c h

lemma isNumeral_cons (hc : c.isDigit) (hds : ∀ d ∈ ds, d.isDigit) : IsNumeral (c :: ds) :=
  ⟨cons_ne_nil c ds, forall_mem_cons.mpr ⟨hc, hds⟩⟩

def TokenSpelled (c : Char) (rest : List Char) : Piece → Prop
  | .token extra kind => Genuine kind (c :: rest.take extra)
  | _ => True

lemma hexPiece_genuine {x} (hx : x = 'x' ∨ x = 'X') (more : List Char) :
    TokenSpelled '0' (x :: more) (hexPiece more) := by
  unfold hexPiece
  by_cases hempty : (more.takeWhile isHexDigit).isEmpty
  · simp only [hempty, if_true]
    exact True.intro
  · simp only [hempty]
    show Genuine .hexNumber ('0' :: x :: more.take (more.takeWhile isHexDigit).length)
    rw [take_length_takeWhile]
    exact .hexNumber hx (by simpa using hempty) fun c => mem_takeWhile

lemma decimalPiece_genuine (hc : c.isDigit) (rest : List Char) :
    TokenSpelled c rest (decimalPiece rest) := by
  have hds : ∀ d ∈ rest.takeWhile Char.isDigit, d.isDigit := fun d => mem_takeWhile
  have hnumeral := isNumeral_cons hc hds
  have hsplit : rest.takeWhile Char.isDigit ++ rest.dropWhile Char.isDigit = rest :=
    takeWhile_append_dropWhile
  have hnumber : Genuine .number (c :: rest.take (rest.takeWhile Char.isDigit).length) := by
    rw [take_length_takeWhile]
    exact .number hnumeral
  -- what a piece takes beyond the digits it takes from after them
  have htake : ∀ k, rest.take ((rest.takeWhile Char.isDigit).length + k)
      = rest.takeWhile Char.isDigit ++ (rest.dropWhile Char.isDigit).take k := by
    intro k
    conv => lhs; arg 2; rw [← hsplit]
    rw [take_length_add_append]
  unfold decimalPiece
  split
  · next d more hdrop =>
      split
      · next hd =>
          show Genuine .float (c :: rest.take _)
          rw [Nat.add_assoc, htake, hdrop, Nat.add_comm 2]
          show Genuine .float ((c :: rest.takeWhile Char.isDigit) ++ '.' :: d :: more.take _)
          rw [take_length_takeWhile]
          exact .float hnumeral (isNumeral_cons hd fun e => mem_takeWhile)
      · exact hnumber
  · next more hdrop =>
      split
      · exact hnumber
      · show Genuine .seconds (c :: rest.take _)
        rw [htake, hdrop]
        exact .seconds hnumeral
  · exact hnumber

lemma numberPiece_genuine (hc : c.isDigit) (rest) : TokenSpelled c rest (numberPiece c rest) := by
  unfold numberPiece
  split
  · exact hexPiece_genuine (.inl rfl) _
  · exact hexPiece_genuine (.inr rfl) _
  · exact decimalPiece_genuine hc _

lemma ofWord?_eq_some {word k} (h : ofWord? word = some k) : k.word = word :=
  eq_of_beq (find?_some (p := fun k : Keyword => k.word == word) h)

lemma namePiece_genuine (hc : startsName c) (rest : List Char) :
    TokenSpelled c rest (namePiece c rest) := by
  unfold namePiece
  simp only
  split
  · next k hk =>
      show Genuine (.keyword k) (c :: rest.take _)
      rw [take_length_takeWhile,
        ← String.toList_ofList (l := c :: rest.takeWhile continuesName), ← ofWord?_eq_some hk]
      exact .keyword
  · next hword =>
      show Genuine .name (c :: rest.take _)
      rw [take_length_takeWhile]
      exact .name hc (fun d => mem_takeWhile) hword

lemma wide?_spelling {d} (h : wide? c d = some s) : s.spelling.toList = [c, d] := by
  unfold wide? at h
  split at h
  case h_13 => cases h
  all_goals
    obtain rfl := Option.some.inj h
    rfl

lemma narrow?_spelling (h : narrow? c = some s) : s.spelling.toList = [c] := by
  unfold narrow? at h
  split at h
  case h_25 => cases h
  all_goals
    obtain rfl := Option.some.inj h
    rfl

lemma symbolPiece_genuine (c rest) : TokenSpelled c rest (symbolPiece c rest) := by
  unfold symbolPiece
  split
  · next s hs =>
      cases rest with
      | nil => cases hs
      | cons d rest =>
        show Genuine (.symbol s) [c, d]
        rw [← wide?_spelling hs]
        exact .symbol
  · split
    · next s hs =>
        show Genuine (.symbol s) [c]
        rw [← narrow?_spelling hs]
        exact .symbol
    · exact True.intro

lemma piece_genuine (c rest) : TokenSpelled c rest (piece c rest) := by
  unfold piece
  split
  · exact True.intro
  · split
    · next hc =>
        obtain rfl := eq_of_beq hc
        unfold slashPiece
        split
        · exact True.intro
        · split <;> exact True.intro
        · exact symbolPiece_genuine '/' rest
    · split
      · unfold stringPiece
        simp only
        split <;> exact True.intro
      · split
        · next hc => exact numberPiece_genuine hc rest
        · split
          · next hc => exact namePiece_genuine hc rest
          · exact symbolPiece_genuine c rest

def Spelled (t : Token) : Prop :=
  t.kind ≠ .invalid → t.kind ≠ .eof → Genuine t.kind t.text.toList

lemma token?_spelled {pos t}
    (h : Piece.token? (piece c rest) pos (c :: rest.take (piece c rest).extra) = some t) :
    Spelled t := by
  have hpiece := piece_genuine c rest
  intro hinvalid _
  cases hp : piece c rest with
  | gap n =>
    rw [hp] at h
    cases h
  | token n kind =>
    rw [hp] at h hpiece
    obtain rfl := Option.some.inj h
    rw [String.toList_ofList]
    exact hpiece
  | string n contents faults =>
    rw [hp] at h
    obtain rfl := Option.some.inj h
    exact .text
  | bad n faults fault =>
    rw [hp] at h
    obtain rfl := Option.some.inj h
    exact absurd rfl hinvalid

lemma scanFrom_spelled (pos cs) : ∀ t ∈ (scanFrom pos cs).1, Spelled t := by
  induction pos, cs using scanFrom.induct with
  | case1 pos =>
    intro t ht _ heof
    rw [scanFrom, mem_singleton] at ht
    exact absurd (congrArg Token.kind ht) heof
  | case2 pos c rest p chars _ _ _ ih =>
    intro t ht
    rw [scanFrom] at ht
    rcases mem_append.mp ht with hhead | htail
    · exact token?_spelled (Option.mem_toList.mp hhead)
    · exact ih t htail

lemma tokenize_spelled (source) : ∀ t ∈ (tokenize source).1, Spelled t :=
  scanFrom_spelled .start source.toList

/-! ## Pieces of words -/

lemma takeWhile_append_of_stop {cs} (rest : List Char) (hcs : ∀ c ∈ cs, p c)
    (hrest : ∀ c, rest.head? = some c → p c = false) :
    (cs ++ rest).takeWhile p = cs ∧ (cs ++ rest).dropWhile p = rest := by
  rw [takeWhile_append_of_pos hcs, dropWhile_append_of_pos hcs]
  cases rest with
  | nil => simp
  | cons c rest => simp [hrest c rfl]

lemma IsNumeral.cons (h : IsNumeral (c :: ds)) : c.isDigit ∧ ∀ d ∈ ds, d.isDigit :=
  ⟨h.2 c mem_cons_self, fun d hd => h.2 d (mem_cons_of_mem c hd)⟩

lemma numberPiece_decimal (h : ∀ d, rest.head? = some d → d ≠ 'x' ∧ d ≠ 'X') :
    numberPiece c rest = decimalPiece rest := by
  unfold numberPiece
  split
  · exact absurd rfl (h _ rfl).1
  · exact absurd rfl (h _ rfl).2
  · rfl

lemma head_digits_ne {d} (hds : ∀ c ∈ ds, c.isDigit)
    (hrest : ∀ c, rest.head? = some c → c ≠ 'x' ∧ c ≠ 'X') (h : (ds ++ rest).head? = some d) :
    d ≠ 'x' ∧ d ≠ 'X' := by
  cases ds with
  | nil => exact hrest d h
  | cons c ds =>
    obtain rfl : c = d := Option.some.inj h
    have hc := hds c mem_cons_self
    refine ⟨?_, ?_⟩
    · rintro rfl
      cases hc
    · rintro rfl
      cases hc

section Follow

variable {kind : TokenKind} {rest : List Char}

lemma Detached.ends_word (h : Detached kind rest) (htext : kind ≠ .text)
    (hsymbol : ∀ s, kind ≠ .symbol s) :
    ∀ c, rest.head? = some c → continuesName c = false ∧ c ≠ '.' := by
  intro c hc
  have hd := h c hc
  have hdetaches : detaches kind c = (!continuesName c && c != '.') := by
    cases kind with
    | text => exact absurd rfl htext
    | symbol s => exact absurd rfl (hsymbol s)
    | _ => rfl
  rw [hdetaches, Bool.and_eq_true, Bool.not_eq_true', bne_iff_ne] at hd
  exact hd

end Follow

lemma stops_of_subset (hp : ∀ c, p c → continuesName c)
    (h : continuesName c = false) : p c = false := by
  cases hc : p c with
  | false => rfl
  | true =>
    rw [hp c hc] at h
    cases h

lemma not_mark_of_ends (h : continuesName c = false) : c ≠ 'x' ∧ c ≠ 'X' := by
  refine ⟨?_, ?_⟩
  · rintro rfl
    cases h
  · rintro rfl
    cases h

section Words

variable {c d x : Char} {cs ds es rest : List Char}

/-- A numeral is scanned up to its last digit, and then by what follows. -/
lemma decimal_piece (h : IsNumeral (c :: ds)) (rest : List Char)
    (hrest : ∀ d, rest.head? = some d → d.isDigit = false ∧ d ≠ 'x' ∧ d ≠ 'X') :
    piece c (ds ++ rest) = decimalPiece (ds ++ rest) ∧
      (ds ++ rest).takeWhile Char.isDigit = ds ∧ (ds ++ rest).dropWhile Char.isDigit = rest := by
  obtain ⟨hc, hds⟩ := h.cons
  refine ⟨?_, takeWhile_append_of_stop rest hds fun d hd => (hrest d hd).1⟩
  rw [piece_of_isDigit _ hc]
  exact numberPiece_decimal fun d hd => head_digits_ne hds (fun e he => (hrest e he).2) hd

lemma number_piece (h : IsNumeral (c :: ds)) (hrest : Detached .number rest) :
    piece c (ds ++ rest) = .token ds.length .number := by
  have hends := hrest.ends_word nofun nofun
  obtain ⟨hpiece, htake, hdrop⟩ := decimal_piece h rest fun d hd =>
    ⟨stops_of_subset (fun _ => continuesName_of_isDigit) (hends d hd).1,
      not_mark_of_ends (hends d hd).1⟩
  rw [hpiece]
  unfold decimalPiece
  simp only [htake, hdrop]
  -- a fraction or the mark of seconds would not be detached from the number
  split
  · exact absurd rfl (hends _ rfl).2
  · have hname := (hends _ rfl).1
    cases hname
  · rfl

lemma seconds_piece (h : IsNumeral (c :: ds)) (hrest : Detached .seconds rest) :
    piece c (ds ++ 's' :: rest) = .token (ds.length + 1) .seconds := by
  have hends := hrest.ends_word nofun nofun
  obtain ⟨hpiece, htake, hdrop⟩ := decimal_piece h ('s' :: rest) fun d hd => by
    obtain rfl := Option.some.inj hd
    decide
  have hstop : nameGoesOn rest = false := by
    cases rest with
    | nil => rfl
    | cons d rest => exact (hends d rfl).1
  rw [hpiece]
  unfold decimalPiece
  simp only [htake, hdrop, hstop]
  rfl

lemma float_piece (h : IsNumeral (c :: ds)) (he : IsNumeral (d :: es))
    (hrest : Detached .float rest) :
    piece c (ds ++ '.' :: d :: (es ++ rest)) = .token (ds.length + 2 + es.length) .float := by
  have hends := hrest.ends_word nofun nofun
  obtain ⟨hd, hes⟩ := he.cons
  obtain ⟨hpiece, htake, hdrop⟩ := decimal_piece h ('.' :: d :: (es ++ rest)) fun e he => by
      obtain rfl := Option.some.inj he
      decide
  obtain ⟨hmore, -⟩ := takeWhile_append_of_stop rest hes fun e he =>
    stops_of_subset (fun _ => continuesName_of_isDigit) (hends e he).1
  rw [hpiece]
  unfold decimalPiece
  simp only [htake, hdrop, hd, hmore, if_true]

lemma hex_piece (hx : x = 'x' ∨ x = 'X') (hne : ds ≠ []) (hds : ∀ c ∈ ds, isHexDigit c)
    (hrest : Detached .hexNumber rest) :
    piece '0' (x :: (ds ++ rest)) = .token (ds.length + 1) .hexNumber := by
  have hends := hrest.ends_word nofun nofun
  obtain ⟨htake, -⟩ := takeWhile_append_of_stop rest hds fun d hd =>
    stops_of_subset (fun _ => continuesName_of_isHexDigit) (hends d hd).1
  have hhex : hexPiece (ds ++ rest) = .token (ds.length + 1) .hexNumber := by
    unfold hexPiece
    simp only [htake]
    rw [if_neg (by simpa using hne)]
  rw [piece_of_isDigit _ rfl]
  rcases hx with rfl | rfl
  · exact hhex
  · exact hhex

lemma name_piece (hc : startsName c) (hcs : ∀ d ∈ cs, continuesName d)
    (hword : ofWord? (String.ofList (c :: cs)) = none)
    (hrest : Detached .name rest) : piece c (cs ++ rest) = .token cs.length .name := by
  have hends := hrest.ends_word nofun nofun
  obtain ⟨htake, -⟩ := takeWhile_append_of_stop rest hcs fun d hd => (hends d hd).1
  rw [piece_of_startsName _ hc]
  unfold namePiece
  simp only [htake, hword]

lemma keyword_piece {k : Keyword} (hk : k.word.toList = c :: cs)
    (hrest : Detached (.keyword k) rest) :
    piece c (cs ++ rest) = .token cs.length (.keyword k) := by
  have hends := hrest.ends_word nofun nofun
  have hspelled : ∀ k : Keyword, ∃ c cs, k.word.toList = c :: cs ∧ startsName c
      ∧ cs.all continuesName := by
    intro k
    cases k <;> exact ⟨_, _, rfl, by decide, by decide⟩
  obtain ⟨c', cs', hk', hc, hcs⟩ := hspelled k
  rw [hk] at hk'
  obtain ⟨rfl, rfl⟩ := List.cons.inj hk'
  obtain ⟨htake, -⟩ := takeWhile_append_of_stop rest (all_eq_true.mp hcs) fun d hd => (hends d hd).1
  have hword : ofWord? (String.ofList (c :: cs)) = some k := by
    rw [← hk, String.ofList_toList, ofWord?_word]
  rw [piece_of_startsName _ hc]
  unfold namePiece
  simp only [htake, hword]

lemma wide?_of_detaches (h : detaches (.symbol s) d) : wide? c d = none := by
  simp only [detaches, contains_cons, contains_nil, Bool.or_false, Bool.not_eq_true',
    Bool.or_eq_false_iff, beq_eq_false_iff_ne] at h
  unfold wide?
  split <;> simp_all

lemma symbolPiece_narrow {t} (h : narrow? c = some t)
    (hrest : Detached (.symbol s) rest) : symbolPiece c rest = .token 0 (.symbol t) := by
  have hwide : rest.head?.bind (wide? c) = none := by
    cases rest with
    | nil => rfl
    | cons d rest => exact wide?_of_detaches (hrest d rfl)
  unfold symbolPiece
  simp only [hwide, h]

lemma slashPiece_narrow (hrest : Detached (.symbol s) rest) :
    slashPiece rest = .token 0 (.symbol .slash) := by
  unfold slashPiece
  split
  · have hslash := hrest _ rfl
    cases hslash
  · have hstar := hrest _ rfl
    cases hstar
  · exact symbolPiece_narrow rfl hrest

lemma symbol_piece (hs : s.spelling.toList = c :: cs) (hrest : Detached (.symbol s) rest) :
    piece c (cs ++ rest) = .token cs.length (.symbol s) := by
  cases s
  case slash =>
    obtain ⟨rfl, rfl⟩ := List.cons.inj hs
    exact slashPiece_narrow hrest
  case ampAmp | pipePipe | shiftLeft | shiftRight | lessEq | greaterEq | eqEq | notEq | plusAssign
      | minusAssign | starAssign | slashAssign =>
    obtain ⟨rfl, rfl⟩ := List.cons.inj hs
    rfl
  all_goals
    obtain ⟨rfl, rfl⟩ := List.cons.inj hs
    exact symbolPiece_narrow rfl hrest

lemma quoted_escaped (offset cs rest) :
    quoted offset (escaped cs ++ '"' :: rest) = ⟨(escaped cs).length + 1, cs, [], true⟩ := by
  fun_induction escaped cs generalizing offset with
  | case1 => rfl
  | case2 cs ih | case3 cs ih | case4 cs ih => simp [quoted, escape?, ih]
  | case5 c cs hline hquote hback ih =>
    rw [List.cons_append, quoted, ih]
    · rfl
    · exact hline
    · exact hquote
    · exact fun h _ => hback h
    · exact fun _ h _ => hback h
    · exact fun _ _ h _ => hback h

lemma text_piece (cs rest) :
    piece '"' (escaped cs ++ '"' :: rest) = .string ((escaped cs).length + 1) cs [] := by
  show stringPiece (escaped cs ++ '"' :: rest) = _
  unfold stringPiece
  simp only [quoted_escaped, if_true]

end Words

/-! ## Words are scanned as themselves -/

variable {cs : List Char} {kind : TokenKind}

def IsWord (p : Piece) (extra : Nat) (kind : TokenKind) (cs : List Char) : Prop :=
  (p = .token extra kind ∧ kind ≠ .text) ∨ (p = .string extra cs [] ∧ kind = .text)

/-- A word in front of what is detached from it is the next piece. -/
lemma piece_written (h : Genuine kind cs) (hrest : Detached kind rest) :
    ∃ c tail, written kind cs = c :: tail
      ∧ IsWord (piece c (tail ++ rest)) tail.length kind cs := by
  cases h with
  | number hds =>
    obtain ⟨c, ds, rfl⟩ := exists_cons_of_ne_nil hds.1
    exact ⟨c, ds, rfl, .inl ⟨number_piece hds hrest, nofun⟩⟩
  | @hexNumber x ds hx hne hds =>
    exact ⟨'0', x :: ds, rfl, .inl ⟨hex_piece hx hne hds hrest, nofun⟩⟩
  | @float ds es hds hes =>
    obtain ⟨c, ds, rfl⟩ := exists_cons_of_ne_nil hds.1
    obtain ⟨d, es, rfl⟩ := exists_cons_of_ne_nil hes.1
    refine ⟨c, ds ++ '.' :: d :: es, rfl, .inl ⟨?_, nofun⟩⟩
    rw [append_assoc, cons_append, cons_append, float_piece hds hes hrest]
    simp only [length_append, length_cons]
    congr 1
    omega
  | @seconds ds hds =>
    obtain ⟨c, ds, rfl⟩ := exists_cons_of_ne_nil hds.1
    refine ⟨c, ds ++ ['s'], rfl, .inl ⟨?_, nofun⟩⟩
    rw [append_assoc, singleton_append, seconds_piece hds hrest, length_append]
    rfl
  | text =>
    refine ⟨'"', escaped cs ++ ['"'], rfl, .inr ⟨?_, rfl⟩⟩
    rw [append_assoc, singleton_append, text_piece, length_append]
    rfl
  | name hc hcs hword => exact ⟨_, _, rfl, .inl ⟨name_piece hc hcs hword hrest, nofun⟩⟩
  | @keyword k =>
    have hne : k.word.toList ≠ [] := by cases k <;> nofun
    obtain ⟨c, cs, hk⟩ := exists_cons_of_ne_nil hne
    exact ⟨c, cs, hk, .inl ⟨keyword_piece hk hrest, nofun⟩⟩
  | @symbol s =>
    have hne : s.spelling.toList ≠ [] := by cases s <;> nofun
    obtain ⟨c, cs, hs⟩ := exists_cons_of_ne_nil hne
    exact ⟨c, cs, hs, .inl ⟨symbol_piece hs hrest, nofun⟩⟩

lemma scanFrom_written (h : Genuine kind cs) (hrest : Detached kind rest) (pos) :
    scanFrom pos (written kind cs ++ rest)
      = (⟨kind, String.ofList cs, pos⟩ :: (scanFrom (pos.after (written kind cs)) rest).1,
          (scanFrom (pos.after (written kind cs)) rest).2) := by
  obtain ⟨c, tail, hwritten, hpiece⟩ := piece_written h hrest
  rw [hwritten, cons_append, scanFrom]
  rcases hpiece with ⟨hpiece, hkind⟩ | ⟨hpiece, rfl⟩
  · have hcs : cs = c :: tail := by
      rw [← hwritten, written, if_neg hkind]
    simp only [hpiece, Piece.extra, take_left, drop_left]
    rw [hcs]
    rfl
  · simp only [hpiece, Piece.extra, take_left, drop_left]
    rfl

lemma scanFrom_blank (h : isSpace c) (pos rest) :
    scanFrom pos (c :: rest) = scanFrom (pos.next c) rest := by
  have hpiece : piece c rest = .gap 0 := by
    unfold piece
    rw [if_pos h]
  rw [scanFrom]
  simp only [hpiece, Piece.extra, take_zero, drop_zero]
  rfl

/-! ## Texts made of words -/

def writtenWord (after : Lexeme → Char) (w : Lexeme) : List Char :=
  written w.kind w.text.toList ++ [after w]

def OnLines (after : Lexeme → Char) : Nat → List Token → Prop
  | _, [] => True
  | line, t :: ts =>
    t.pos.line = line ∧ OnLines after (if after t.lexeme = '\n' then line + 1 else line) ts

lemma line_after (h : '\n' ∉ cs) (pos : Pos) : (pos.after cs).line = pos.line := by
  induction cs generalizing pos with
  | nil => rfl
  | cons c cs ih =>
    have hc : (c == '\n') = false :=
      beq_eq_false_iff_ne.mpr fun hc => h (hc ▸ mem_cons_self)
    rw [Pos.after_cons, ih fun hmem => h (mem_cons_of_mem c hmem), Pos.next, hc]
    rfl

lemma not_mem_escaped (cs) : '\n' ∉ escaped cs := by
  fun_induction escaped cs with
  | case1 => exact not_mem_nil
  | case2 cs ih | case3 cs ih | case4 cs ih => simpa using ih
  | case5 c cs hline _ _ ih =>
    intro hmem
    rcases mem_cons.mp hmem with heq | hmem
    · exact hline heq.symm
    · exact ih hmem

lemma not_mem_of_continuesName (h : ∀ c ∈ cs, continuesName c) : '\n' ∉ cs :=
  fun hmem => nomatch h _ hmem

lemma IsNumeral.not_mem (h : IsNumeral ds) : '\n' ∉ ds :=
  not_mem_of_continuesName fun c hc => continuesName_of_isDigit (h.2 c hc)

lemma not_mem_written (h : Genuine kind cs) : '\n' ∉ written kind cs := by
  cases h with
  | number hds => exact hds.not_mem
  | @hexNumber x ds hx _ hds =>
    have hmark : continuesName x := by
      rcases hx with rfl | rfl
      · rfl
      · rfl
    exact not_mem_of_continuesName (forall_mem_cons.mpr ⟨rfl, forall_mem_cons.mpr
      ⟨hmark, fun c hc => continuesName_of_isHexDigit (hds c hc)⟩⟩)
  | float hds hes => simp [written, hds.not_mem, hes.not_mem]
  | seconds hds => simp [written, hds.not_mem]
  | text => simp [written, not_mem_escaped]
  | name hc hcs _ =>
    exact not_mem_of_continuesName (forall_mem_cons.mpr ⟨continuesName_of_startsName hc, hcs⟩)
  | @keyword k => cases k <;> decide
  | @symbol s => cases s <;> decide

lemma scanFrom_words {after} (hafter : ∀ w, isSpace (after w)) {ws}
    (hws : ∀ w ∈ ws, Genuine w.kind w.text.toList) (pos) :
    ∃ ts end', scanFrom pos (ws.flatMap (writtenWord after)) = (ts ++ [⟨.eof, "", end'⟩], [])
      ∧ ts.map Token.lexeme = ws ∧ OnLines after pos.line ts := by
  induction ws generalizing pos with
  | nil => exact ⟨[], pos, by rw [flatMap_nil, scanFrom]; rfl, rfl, True.intro⟩
  | cons w ws ih =>
    have hw := hws w mem_cons_self
    obtain ⟨ts, end', hscan, hlexemes, hlines⟩ := ih (fun v hv => hws v (mem_cons_of_mem w hv))
      ((pos.after (written w.kind w.text.toList)).next (after w))
    have hdetached : Detached w.kind (after w :: ws.flatMap (writtenWord after)) := by
      intro c hc
      obtain rfl := Option.some.inj hc
      exact detaches_blank _ (hafter w)
    refine ⟨⟨w.kind, w.text, pos⟩ :: ts, end', ?_, by rw [map_cons, hlexemes]; rfl, rfl, ?_⟩
    · rw [flatMap_cons, writtenWord, append_assoc, singleton_append,
        scanFrom_written hw hdetached, scanFrom_blank (hafter w), hscan, String.ofList_toList]
      rfl
    · have hline := line_after (not_mem_written hw) pos
      rw [Pos.next] at hlines
      show OnLines after (if after w = '\n' then pos.line + 1 else pos.line) ts
      by_cases hbreak : after w = '\n'
      · simpa [hbreak, hline] using hlines
      · simpa [hbreak, hline] using hlines

/-- The words of some tokens on one line, with a single blank between each and the next. -/
def lineOf (ts : List Token) : List Char :=
  [' '].intercalate (ts.map fun t => written t.kind t.text.toList)

lemma lineOf_cons_cons (t u ts) :
    lineOf (t :: u :: ts) = written t.kind t.text.toList ++ ' ' :: lineOf (u :: ts) := by
  simp [lineOf, intercalate_cons_cons]

lemma scanFrom_lineOf {ts} (hts : ∀ t ∈ ts, Genuine t.kind t.text.toList) (pos) :
    '\n' ∉ lineOf ts ∧ (scanFrom pos (lineOf ts)).2 = [] ∧
      (scanFrom pos (lineOf ts)).1.map Token.lexeme = ts.map Token.lexeme ++ [⟨.eof, ""⟩] := by
  induction ts generalizing pos with
  | nil =>
    rw [show lineOf [] = [] from rfl, scanFrom]
    exact ⟨not_mem_nil, rfl, rfl⟩
  | cons t ts ih =>
    have ht := hts t mem_cons_self
    have hrest := ih fun u hu => hts u (mem_cons_of_mem t hu)
    cases ts with
    | nil =>
      have hline : lineOf [t] = written t.kind t.text.toList ++ [] := by simp [lineOf]
      have hend : Detached t.kind [] := by simp [Detached]
      rw [hline, scanFrom_written ht hend, scanFrom, String.ofList_toList, append_nil]
      exact ⟨not_mem_written ht, rfl, rfl⟩
    | cons u ts =>
      have hblank : Detached t.kind (' ' :: lineOf (u :: ts)) := by
        intro c hc
        obtain rfl := Option.some.inj hc
        exact detaches_blank _ rfl
      obtain ⟨hline, hreports, hlexemes⟩ := hrest
        ((pos.after (written t.kind t.text.toList)).next ' ')
      rw [lineOf_cons_cons, scanFrom_written ht hblank, scanFrom_blank rfl, String.ofList_toList]
      refine ⟨?_, hreports, congrArg (t.lexeme :: ·) hlexemes⟩
      simp [not_mem_written ht, hline]

end Scan

/-- **Words on a line.**  Tokens that were scanned from any sources, each a word,
    are read back from one line on which they are written with single blanks between them, and
    nothing is wrong with that line. -/
theorem tokenize_lineOf (ts : List Token) (h : ∀ t ∈ ts,
      (∃ source, t ∈ (tokenize source).1) ∧ t.kind ≠ .invalid ∧ t.kind ≠ .eof) :
    '\n' ∉ Scan.lineOf ts ∧ (tokenize (String.ofList (Scan.lineOf ts))).2 = [] ∧
      (tokenize (String.ofList (Scan.lineOf ts))).1.map Token.lexeme
        = ts.map Token.lexeme ++ [⟨.eof, ""⟩] := by
  rw [tokenize, String.toList_ofList]
  refine Scan.scanFrom_lineOf (fun t ht => ?_) .start
  obtain ⟨⟨source, hsource⟩, hvalid, hword⟩ := h t ht
  exact Scan.tokenize_spelled source t hsource hvalid hword

theorem tokenize_lineOf_slash_star :
    '\n' ∉ Scan.lineOf (tokenize "\"a\\n\"/ *0 x1 .5s").1.dropLast ∧
    (tokenize (String.ofList (Scan.lineOf (tokenize "\"a\\n\"/ *0 x1 .5s").1.dropLast))).2
      = [] := by
  have hwords : ∀ t ∈ (tokenize "\"a\\n\"/ *0 x1 .5s").1.dropLast,
      t.kind ≠ .invalid ∧ t.kind ≠ .eof := by decide +kernel
  have h := tokenize_lineOf _ fun t ht => ⟨⟨_, dropLast_subset _ ht⟩, hwords t ht⟩
  exact ⟨h.1, h.2.1⟩

end CanScript
