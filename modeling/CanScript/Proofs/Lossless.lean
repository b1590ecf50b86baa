import CanScript.Token.Scan
import Mathlib.Tactic.Lemma

/-! # Scanning loses nothing

    Every character of a source belongs to a token or to a gap between tokens, and the place of a
    token is the place that its first character has in the source.  What a gap may hold is said here
    by a grammar of its own: blanks, comments up to the end of their line, and block comments that
    nest. -/

namespace CanScript.Scan

open List

/-! ## The grammar of gaps -/

def startsMark : List Char → Bool
  | a :: b :: _ => (a == '/' && b == '*') || (a == '*' && b == '/')
  | _ => false

/-- A block comment after its opening mark, up to and with its closing mark: plain characters and
    whole comments inside. -/
inductive CommentTail : List Char → Prop where
  | close : CommentTail ['*', '/']
  | nest {inner rest} :
      CommentTail inner → CommentTail rest → CommentTail ('/' :: '*' :: (inner ++ rest))
  | plain {c} {rest : List Char} :
      startsMark (c :: rest) = false → CommentTail rest → CommentTail (c :: rest)

/-- One element of a gap, `rest` being all of the text that follows it. -/
inductive GapPiece : List Char → List Char → Prop where
  | blank {c rest} : isSpace c = true → GapPiece [c] rest
  | line {body rest : List Char} :
      '\n' ∉ body → (∀ c, rest.head? = some c → c = '\n') → GapPiece ('/' :: '/' :: body) rest
  | block {body rest} : CommentTail body → GapPiece ('/' :: '*' :: body) rest

/-- What may stand between two tokens, `rest` being all of the text that follows it. -/
inductive Gap : List Char → List Char → Prop where
  | nil {rest} : Gap [] rest
  | cons {front gap rest} : GapPiece front (gap ++ rest) → Gap gap rest → Gap (front ++ gap) rest

/-! ## The spelling of tokens -/

def unescape : Char → Char
  | 'n' => '\n'
  | 't' => '\t'
  | c => c

/-- The body of a string literal, without a line end or a bare quote in it, and its contents. -/
inductive Unescaped : List Char → List Char → Prop where
  | nil : Unescaped [] []
  | plain {c : Char} {body contents} : c ≠ '\n' → c ≠ '"' → c ≠ '\\' → Unescaped body contents →
      Unescaped (c :: body) (c :: contents)
  | escaped {c : Char} {body contents} : c ≠ '\n' → Unescaped body contents →
      Unescaped ('\\' :: c :: body) (unescape c :: contents)

/-- The characters that a token is made of. -/
def Spells (chars : List Char) (t : Token) : Prop :=
  if t.kind = .text then
    ∃ body, chars = '"' :: (body ++ ['"']) ∧ Unescaped body t.text.toList
  else t.text = String.ofList chars

def slice (cs : List Char) (first past : Nat) : List Char :=
  (cs.drop first).take (past - first)

/-- Whether tokens, none of them the end, lie in a text at offsets, one pair for each, in order from
    a given offset on, with nothing but gaps around them up to the end of the text. -/
def Layout (cs : List Char) : Nat → List Token → List (Nat × Nat) → Prop
  | start, [], [] => start ≤ cs.length ∧ Gap (slice cs start cs.length) []
  | start, t :: ts, (first, past) :: spans =>
    start ≤ first ∧ first < past ∧ past ≤ cs.length
      ∧ Gap (slice cs start first) (cs.drop first)
      ∧ t.kind ≠ .eof
      ∧ t.pos = Pos.start.after (cs.take first)
      ∧ Spells (slice cs first past) t
      ∧ Layout cs past ts spans
  | _, _, _ => False

/-! ## Block comments -/

def CommentTails : Nat → List Char → Prop
  | 0, cs => cs = []
  | depth + 1, cs => ∃ first rest, cs = first ++ rest ∧ CommentTail first ∧ CommentTails depth rest

variable {cs : List Char} {start past : Nat} (c : Char) (rest : List Char)

lemma CommentTail.two_le_length (h : CommentTail cs) : 2 ≤ cs.length := by
  induction h with
  | close => exact Nat.le_refl 2
  | nest _ _ _ _ => simp only [List.length_cons, List.length_append]; omega
  | plain _ _ ih => simp only [List.length_cons]; omega

lemma startsMark_cons_append {c ds} (h : 1 ≤ cs.length) :
    startsMark (c :: (cs ++ ds)) = startsMark (c :: cs) := by
  cases cs with
  | nil => simp at h
  | cons d cs => rfl

/-- The way to the end of some open comments is made of their tails. -/
lemma closeComment?_tails {depth n} (h : closeComment? depth cs = some n) :
    n ≤ cs.length ∧ CommentTails depth (cs.take n) := by
  fun_induction closeComment? depth cs generalizing n with
  | case1 cs =>
    obtain rfl : 0 = n := Option.some.inj h
    exact ⟨Nat.zero_le _, rfl⟩
  | case2 depth rest ih =>
    obtain ⟨m, hm, rfl⟩ := Option.map_eq_some_iff.mp h
    obtain ⟨hle, inner, more, hrest, hinner, first, last, rfl, hfirst, hlast⟩ := ih hm
    refine ⟨by simp only [List.length_cons]; omega, '/' :: '*' :: (inner ++ first), last, ?_,
      .nest hinner hfirst, hlast⟩
    simp only [List.take_succ_cons, hrest, List.cons_append, List.append_assoc]
  | case3 depth rest ih =>
    obtain ⟨m, hm, rfl⟩ := Option.map_eq_some_iff.mp h
    obtain ⟨hle, hrest⟩ := ih hm
    exact ⟨by simp only [List.length_cons]; omega, ['*', '/'], rest.take m, rfl, .close, hrest⟩
  | case4 depth c rest hopen hclose ih =>
    obtain ⟨m, hm, rfl⟩ := Option.map_eq_some_iff.mp h
    obtain ⟨hle, first, last, hrest, hfirst, hlast⟩ := ih hm
    -- neither mark stands here, in the whole text and so in the tail
    have hmark : startsMark (c :: rest) = false := by
      cases rest with
      | nil => rfl
      | cons d rest =>
        simp only [startsMark, Bool.or_eq_false_iff, Bool.and_eq_false_iff, beq_eq_false_iff_ne]
        refine ⟨?_, ?_⟩
        · by_cases hc : c = '/'
          · exact Or.inr fun hd => hopen rest hc (by rw [hd])
          · exact Or.inl hc
        · by_cases hc : c = '*'
          · exact Or.inr fun hd => hclose rest hc (by rw [hd])
          · exact Or.inl hc
    have htwo := hfirst.two_le_length
    refine ⟨by simp only [List.length_cons]; omega, c :: first, last, ?_, .plain ?_ hfirst, hlast⟩
    · simp only [List.take_succ_cons, hrest, List.cons_append]
    · rw [← List.take_append_drop m rest, hrest, List.append_assoc,
        startsMark_cons_append (by omega)] at hmark
      exact hmark
  | case5 => exact nomatch h

/-! ## String literals -/

lemma escape?_getD : (escape? c).getD c = unescape c := by
  unfold escape?
  split
  · rfl
  · rfl
  · rfl
  · rfl
  · next hn ht _ _ =>
      unfold unescape
      split
      · exact absurd rfl hn
      · exact absurd rfl ht
      · rfl

lemma quoted_length_le (offset cs) : (quoted offset cs).length ≤ cs.length := by
  fun_induction quoted offset cs with
  | case1 | case2 => exact Nat.zero_le _
  | case3 => exact Nat.succ_le_succ (Nat.zero_le _)
  | case4 => exact Nat.le_refl _
  | case5 => exact Nat.succ_le_succ (Nat.zero_le _)
  | case6 offset c rest _ q _ _ ih => exact Nat.succ_le_succ (Nat.succ_le_succ ih)
  | case7 offset c rest _ q _ ih => exact Nat.succ_le_succ (Nat.succ_le_succ ih)
  | case8 offset c rest _ _ _ _ _ q ih => exact Nat.succ_le_succ ih

/-- A closed string literal is a body and a quote. -/
lemma quoted_closed {offset} (h : (quoted offset cs).closed) :
    ∃ body, cs.take (quoted offset cs).length = body ++ ['"']
      ∧ Unescaped body (quoted offset cs).contents := by
  fun_induction quoted offset cs with
  | case1 | case2 => exact nomatch h
  | case3 => exact ⟨[], rfl, .nil⟩
  | case4 | case5 => exact nomatch h
  | case6 offset c rest hline q e he ih =>
    obtain ⟨body, htake, hbody⟩ := ih h
    have hc : unescape c = e := by rw [← escape?_getD, he]; rfl
    refine ⟨'\\' :: c :: body, ?_, ?_⟩
    · show '\\' :: c :: rest.take q.length = '\\' :: c :: (body ++ ['"'])
      rw [htake]
    · show Unescaped ('\\' :: c :: body) (e :: q.contents)
      rw [← hc]
      exact .escaped hline hbody
  | case7 offset c rest hline q he ih =>
    obtain ⟨body, htake, hbody⟩ := ih h
    have hc : unescape c = c := by rw [← escape?_getD, he]; rfl
    refine ⟨'\\' :: c :: body, ?_, ?_⟩
    · show '\\' :: c :: rest.take q.length = '\\' :: c :: (body ++ ['"'])
      rw [htake]
    · show Unescaped ('\\' :: c :: body) (c :: q.contents)
      rw [show c :: q.contents = unescape c :: q.contents by rw [hc]]
      exact .escaped hline hbody
  | case8 offset c rest hline hquote hlast _ hpair q ih =>
    obtain ⟨body, htake, hbody⟩ := ih h
    -- a backslash would be the last character or start an escape
    have hc : c ≠ '\\' := by
      intro hc
      cases rest with
      | nil => exact hlast hc rfl
      | cons d rest => exact hpair d rest hc rfl
    refine ⟨c :: body, ?_, .plain hline hquote hc hbody⟩
    show c :: rest.take q.length = c :: (body ++ ['"'])
    rw [htake]

def OnlyEscapes (faults : List (Nat × LexFault)) : Prop :=
  ∀ f ∈ faults, f.2.kind = .invalidEscape

lemma quoted_faults (offset cs) : OnlyEscapes (quoted offset cs).faults := by
  fun_induction quoted offset cs with
  | case1 | case2 | case3 | case4 | case5 => exact List.forall_mem_nil _
  | case6 _ _ _ _ _ _ _ ih => exact ih
  | case7 _ _ _ _ _ _ ih => exact List.forall_mem_cons.mpr ⟨rfl, ih⟩
  | case8 _ _ _ _ _ _ _ _ _ ih => exact ih

/-! ## Pieces -/

/-- What a piece can be when the given character and text stand at the front: it lies within the
    text, and it has the form of its sort. -/
def PieceSpec (c : Char) (rest : List Char) (p : Piece) : Prop :=
  p.extra ≤ rest.length ∧
    match p with
    | .gap n => GapPiece (c :: rest.take n) (rest.drop n)
    | .token _ kind => kind ≠ .eof ∧ kind ≠ .text ∧ kind ≠ .invalid
    | .string n contents faults => c = '"' ∧ OnlyEscapes faults ∧
      ∃ body, rest.take n = body ++ ['"'] ∧ Unescaped body contents
    | .bad _ faults fault => OnlyEscapes faults ∧ fault.kind ≠ .invalidEscape

lemma stringPiece_spec : PieceSpec '"' rest (stringPiece rest) := by
  have hle := quoted_length_le 1 rest
  have hfaults := quoted_faults 1 rest
  unfold stringPiece
  by_cases hclosed : (quoted 1 rest).closed
  · simp only [hclosed, if_true]
    exact ⟨hle, rfl, hfaults, quoted_closed hclosed⟩
  · simp only [hclosed]
    exact ⟨hle, hfaults, nofun⟩

lemma hexPiece_spec (x more) : PieceSpec c (x :: more) (hexPiece more) := by
  have hle : (more.takeWhile isHexDigit).length ≤ more.length :=
    takeWhile_prefix _ |>.length_le
  unfold hexPiece
  by_cases hempty : (more.takeWhile isHexDigit).isEmpty
  · simp only [hempty, if_true]
    exact ⟨Nat.succ_le_succ (Nat.zero_le _), forall_mem_nil _, nofun⟩
  · simp only [hempty]
    exact ⟨Nat.succ_le_succ hle, nofun, nofun, nofun⟩

lemma decimalPiece_spec : PieceSpec c rest (decimalPiece rest) := by
  have hsplit := congrArg List.length (takeWhile_append_dropWhile (p := Char.isDigit) (l := rest))
  rw [length_append] at hsplit
  have hshort : (rest.takeWhile Char.isDigit).length ≤ rest.length := by omega
  unfold decimalPiece
  split
  · next d more hdrop =>
      have hmore : (more.takeWhile Char.isDigit).length ≤ more.length :=
        takeWhile_prefix _ |>.length_le
      rw [hdrop, length_cons, length_cons] at hsplit
      split
      · exact ⟨by simp only [Piece.extra]; omega, nofun, nofun, nofun⟩
      · exact ⟨hshort, nofun, nofun, nofun⟩
  · next more hdrop =>
      rw [hdrop, length_cons] at hsplit
      split
      · exact ⟨hshort, nofun, nofun, nofun⟩
      · exact ⟨by simp only [Piece.extra]; omega, nofun, nofun, nofun⟩
  · exact ⟨hshort, nofun, nofun, nofun⟩

lemma numberPiece_spec : PieceSpec c rest (numberPiece c rest) := by
  unfold numberPiece
  split
  · exact hexPiece_spec _ _ _
  · exact hexPiece_spec _ _ _
  · exact decimalPiece_spec _ _

lemma namePiece_spec : PieceSpec c rest (namePiece c rest) := by
  have hle : (rest.takeWhile Text.continuesName).length ≤ rest.length :=
    takeWhile_prefix _ |>.length_le
  unfold namePiece
  simp only
  split <;> exact ⟨hle, nofun, nofun, nofun⟩

lemma symbolPiece_spec : PieceSpec c rest (symbolPiece c rest) := by
  unfold symbolPiece
  split
  · next s hs =>
      cases rest with
      | nil => exact nomatch hs
      | cons d rest => exact ⟨Nat.succ_le_succ (Nat.zero_le _), nofun, nofun, nofun⟩
  · split
    · exact ⟨Nat.zero_le _, nofun, nofun, nofun⟩
    · exact ⟨Nat.zero_le _, forall_mem_nil _, nofun⟩

lemma drop_length_takeWhile (p) (cs : List Char) :
    cs.drop (cs.takeWhile p).length = cs.dropWhile p := by
  have hsplit : cs.takeWhile p ++ cs.drop (cs.takeWhile p).length
      = cs.takeWhile p ++ cs.dropWhile p := by
    conv => lhs; arg 1; rw [prefix_iff_eq_take.mp <| takeWhile_prefix p]
    rw [take_append_drop, takeWhile_append_dropWhile]
  exact append_cancel_left hsplit

lemma lineComment_gapPiece (more : List Char) :
    GapPiece ('/' :: '/' :: more.takeWhile (· != '\n')) (more.dropWhile (· != '\n')) := by
  refine .line ?_ ?_
  · intro hmem
    have hne := all_takeWhile (p := (· != '\n')) (l := more)
    have := all_eq_true.mp hne '\n' hmem
    exact nomatch this
  · intro c hc
    have hhead := head?_dropWhile_not (· != '\n') more
    rw [hc] at hhead
    simpa using hhead

lemma slashPiece_spec : PieceSpec '/' rest (slashPiece rest) := by
  unfold slashPiece
  split
  · next more =>
      have htake : ('/' :: more).takeWhile (· != '\n') = '/' :: more.takeWhile (· != '\n') := rfl
      have hle : (more.takeWhile (· != '\n')).length ≤ more.length :=
        takeWhile_prefix _ |>.length_le
      rw [htake, length_cons]
      refine ⟨Nat.succ_le_succ hle, ?_⟩
      show GapPiece ('/' :: '/' :: more.take (more.takeWhile (· != '\n')).length)
        (more.drop (more.takeWhile (· != '\n')).length)
      rw [← prefix_iff_eq_take.mp <| takeWhile_prefix _, drop_length_takeWhile]
      exact lineComment_gapPiece more
  · next more =>
      split
      · next n hn =>
          obtain ⟨hle, first, last, htake, hfirst, hlast⟩ := closeComment?_tails hn
          obtain rfl : last = [] := hlast
          rw [append_nil] at htake
          refine ⟨Nat.succ_le_succ hle, ?_⟩
          show GapPiece ('/' :: '*' :: more.take n) (more.drop n)
          rw [htake]
          exact .block hfirst
      · exact ⟨Nat.le_refl _, forall_mem_nil _, nofun⟩
  · exact symbolPiece_spec _ _

lemma piece_spec : PieceSpec c rest (piece c rest) := by
  unfold piece
  split
  · next hc => exact ⟨Nat.zero_le _, .blank hc⟩
  · split
    · next hc =>
        rw [eq_of_beq hc]
        exact slashPiece_spec rest
    · split
      · next hc =>
          rw [eq_of_beq hc]
          exact stringPiece_spec rest
      · split
        · exact numberPiece_spec c rest
        · split
          · exact namePiece_spec c rest
          · exact symbolPiece_spec c rest

/-! ## Texts -/

lemma slice_append_slice (cs) {middle} (h1 : start ≤ middle) (h2 : middle ≤ past) :
    slice cs start middle ++ slice cs middle past = slice cs start past := by
  have hsum : past - start = (middle - start) + (past - middle) := by omega
  have hdrop : start + (middle - start) = middle := by omega
  unfold slice
  rw [hsum, take_add, drop_drop, hdrop]

lemma slice_append_drop (cs) (h : start ≤ past) :
    slice cs start past ++ cs.drop past = cs.drop start := by
  have hdrop : start + (past - start) = past := by omega
  unfold slice
  conv => lhs; arg 2; rw [← hdrop, ← drop_drop]
  exact take_append_drop _ _

lemma take_append_slice (cs) (h : start ≤ past) :
    cs.take start ++ slice cs start past = cs.take past := by
  have hsum : past = start + (past - start) := by omega
  unfold slice
  conv => rhs; rw [hsum, take_add]

/-- A gap may start earlier by one element. -/
lemma Layout.widen {middle ts spans}
    (hle : start ≤ middle) (hpiece : GapPiece (slice cs start middle) (cs.drop middle))
    (h : Layout cs middle ts spans) : Layout cs start ts spans := by
  -- a gap is followed by a token or by the end, so it is widened up to any place
  have hgap : ∀ past, middle ≤ past → Gap (slice cs middle past) (cs.drop past) →
      Gap (slice cs start past) (cs.drop past) := by
    intro past hpast hrest
    rw [← slice_append_slice cs hle hpast]
    refine .cons ?_ hrest
    rw [slice_append_drop cs hpast]
    exact hpiece
  cases ts with
  | nil =>
    cases spans with
    | nil =>
      obtain ⟨hmiddle, hend⟩ := h
      rw [← drop_length (l := cs)] at hend
      have := hgap _ hmiddle hend
      rw [drop_length] at this
      exact ⟨by omega, this⟩
    | cons _ _ => exact h.elim
  | cons t ts =>
    cases spans with
    | nil => exact h.elim
    | cons span spans =>
      obtain ⟨first, past⟩ := span
      obtain ⟨hfirst, hlt, hpast, hbefore, hrest⟩ := h
      exact ⟨by omega, hlt, hpast, hgap _ hfirst hbefore, hrest⟩

lemma token?_spec {c rest p pos t}
    (hp : PieceSpec c rest p) (ht : Piece.token? p pos (c :: rest.take p.extra) = some t) :
    t.kind ≠ .eof ∧ t.pos = pos ∧ Spells (c :: rest.take p.extra) t := by
  cases p with
  | gap n => exact nomatch ht
  | token n kind =>
    obtain ⟨_, heof, htext, _⟩ := hp
    obtain rfl := Option.some.inj ht
    exact ⟨heof, rfl, by rw [Spells, if_neg htext]⟩
  | string n contents faults =>
    obtain ⟨_, rfl, _, body, hbody, hcontents⟩ := hp
    obtain rfl := Option.some.inj ht
    refine ⟨nofun, rfl, ?_⟩
    rw [Spells, if_pos rfl]
    refine ⟨body, ?_, ?_⟩
    · show '"' :: rest.take n = _
      rw [hbody]
    · rw [String.toList_ofList]
      exact hcontents
  | bad n faults fault =>
    obtain rfl := Option.some.inj ht
    exact ⟨nofun, rfl, by rw [Spells, if_neg nofun]⟩

/-- From any offset on, the scanner lays out the rest of the text. -/
lemma scanFrom_layout (cs start) (hstart : start ≤ cs.length) :
    ∃ ts spans, (scanFrom (Pos.start.after (cs.take start)) (cs.drop start)).1
        = ts ++ [⟨.eof, "", Pos.start.after cs⟩]
      ∧ Layout cs start ts spans := by
  cases hdrop : cs.drop start with
  | nil =>
    have hend : start = cs.length := by
      have := List.drop_eq_nil_iff.mp hdrop
      omega
    subst hend
    refine ⟨[], [], ?_, Nat.le_refl _, ?_⟩
    · rw [scanFrom, List.take_length]
      rfl
    · rw [slice, Nat.sub_self, List.take_zero]
      exact .nil
  | cons c rest =>
    have hp := piece_spec c rest
    have hlength : cs.length - start = rest.length + 1 := by
      rw [← List.length_drop, hdrop, List.length_cons]
    have hextra := hp.1
    -- the characters of the piece, and the text after them
    obtain ⟨past, hpast⟩ : ∃ past, past = start + (piece c rest).extra + 1 := ⟨_, rfl⟩
    have hslice : slice cs start past = c :: rest.take (piece c rest).extra := by
      rw [slice, hdrop, show past - start = (piece c rest).extra + 1 by omega, List.take_succ_cons]
    have hrest : cs.drop past = rest.drop (piece c rest).extra := by
      rw [hpast, Nat.add_assoc, ← List.drop_drop, hdrop, List.drop_succ_cons]
    have hpos : (Pos.start.after (cs.take start)).after (c :: rest.take (piece c rest).extra)
        = Pos.start.after (cs.take past) := by
      rw [← hslice, ← Pos.after_append, take_append_slice cs (by omega)]
    obtain ⟨ts, spans, hscan, hlayout⟩ := scanFrom_layout cs past (by omega)
    rw [scanFrom]
    simp only [hpos, ← hrest]
    rw [hscan]
    cases htoken : Piece.token? (piece c rest) (Pos.start.after (cs.take start))
        (c :: rest.take (piece c rest).extra) with
    | none =>
      refine ⟨ts, spans, rfl, hlayout.widen (by omega) ?_⟩
      rw [hslice, hrest]
      cases hpiece : piece c rest with
      | gap n =>
        rw [hpiece] at hp
        exact hp.2
      | token n kind | string n contents faults => rw [hpiece] at htoken; cases htoken
      | bad n faults fault => rw [hpiece] at htoken; cases htoken
    | some t =>
      obtain ⟨hkind, htpos, hspell⟩ := token?_spec hp htoken
      refine ⟨t :: ts, (start, past) :: spans, rfl, Nat.le_refl _, by omega, by omega, ?_,
        hkind, htpos, ?_, hlayout⟩
      · rw [slice, Nat.sub_self, List.take_zero]
        exact .nil
      · rw [hslice]
        exact hspell
  termination_by cs.length - start

/-- **Nothing is lost.**  The tokens of a source lie in it one after another,
    at offsets that grow, with only blanks and comments around them; each has the place of its first
    character and is spelled by its characters.  The last token, and no other, is the end of the
    text, at its very end. -/
theorem tokenize_lossless (source : String) :
    ∃ ts spans, (tokenize source).1 = ts ++ [⟨.eof, "", Pos.start.after source.toList⟩]
      ∧ Layout source.toList 0 ts spans :=
  scanFrom_layout source.toList 0 (Nat.zero_le _)

end CanScript.Scan
