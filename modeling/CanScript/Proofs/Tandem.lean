import CanScript.Proofs.Readings
import Mathlib.Data.List.Forall2

/-! # A text and what follows it

    The same tokens are read twice, the second time some lines further down and perhaps with more
    tokens where the first reading finds its end.  The two go the same way: what they give is the
    same further down, and so is what they report, except that a complaint about the end of the
    first is about the next token in the second. -/

namespace CanScript.Parse

open ParseFault

/-! ## Tokens of two readings -/

/-- Whether tokens of a kind are neither braces nor words of a condition with branches. -/
def isSimple (kind : TokenKind) : Bool :=
  !isBrace kind && kind != .keyword .when && kind != .keyword .otherwise

/-- Where a second reading stands to a first: how many lines further down, and what follows in it
    where the first has its end.  With nothing there it has its end in the same place. -/
structure Ahead where
  down : Nat
  tail : List Token

variable {a : Ahead}

/-- What the first reading may have where the second has more behind it: simple tokens on the lines
    before. -/
structure Fits (a : Ahead) (t : Token) : Prop where
  simple : ∀ x ts, a.tail = x :: ts → isSimple t.kind = true
  before : ∀ x ts, a.tail = x :: ts → t.pos.line + a.down < x.pos.line

/-- The tokens of two readings. -/
inductive Follows (a : Ahead) : List Token → List Token → Prop where
  | cons {t : Token} {ts ts'} : t.kind ≠ .eof → Fits a t → Follows a ts ts' →
      Follows a (t :: ts) (t.down a.down :: ts')
  | stop {e : Token} {ts ts' : List Token} : e.kind = .eof → a.tail = [] →
      Follows a (e :: ts) (e.down a.down :: ts')
  | onward {e x : Token} {ts ts' : List Token} : e.kind = .eof → a.tail = x :: ts' →
      startsItem x.kind = true → Follows a (e :: ts) (x :: ts')

/-- The reports of two readings, given what the second has next where the first has its end: the
    same further down, or one about the end of the first and the other about the next token of the
    second. -/
inductive Echo (k : Nat) (next : Option Token) : Diagnostic → Diagnostic → Prop where
  | same {d} : Echo k next d (d.down k)
  | expected {what} {e x : Token} : e.kind = .eof → next = some x →
      Echo k next ((ParseFault.expected what e).toDiagnostic e.pos)
        ((ParseFault.expected what x).toDiagnostic x.pos)
  | noTimeout {e x : Token} : e.kind = .eof → next = some x →
      Echo k next ((ParseFault.noTimeout e).toDiagnostic e.pos)
        ((ParseFault.noTimeout x).toDiagnostic x.pos)

/-- The states of two readings, and the reports each of them has made since it had `base` and
    `base'`. -/
structure Abreast (a : Ahead) (base base' : List Diagnostic) (s s' : State) : Prop where
  tokens : Follows a s.rest s'.rest
  last : s'.last = s.last.down a.down ∨ startsItem s'.current.kind = true
  diagnostics : ∃ new new', s.diagnostics = base ++ new ∧ s'.diagnostics = base' ++ new'
    ∧ List.Forall₂ (Echo a.down a.tail.head?) new new'

/-- The current tokens of two readings: the same further down, or an end and a token that starts
    something. -/
inductive Meets (a : Ahead) : Token → Token → Prop where
  | same {t} : Fits a t ∨ t.kind = .eof → Meets a t (t.down a.down)
  | ends {e x : Token} {ts : List Token} : e.kind = .eof → a.tail = x :: ts →
      startsItem x.kind = true → Meets a e x

variable {base base' : List Diagnostic} {s s' : State}

lemma Follows.head {ts ts'} (h : Follows a ts ts') :
    Meets a (ts.headD endToken) (ts'.headD endToken) := by
  cases h with
  | cons _ hfits _ => exact .same (.inl hfits)
  | stop heof _ => exact .same (.inr heof)
  | onward heof htail hstart => exact .ends heof htail hstart

lemma Abreast.current (h : Abreast a base base' s s') : Meets a s.current s'.current :=
  h.tokens.head

lemma Abreast.advance (h : Abreast a base base' s s') (hne : s.current.kind ≠ .eof) :
    Abreast a base base' s.advance s'.advance ∧ s'.current = s.current.down a.down
      ∧ Fits a s.current := by
  obtain ⟨htokens, -, hdiagnostics⟩ := h
  unfold State.current at hne ⊢
  unfold State.advance
  cases hrest : s.rest with
  | nil =>
    rw [hrest] at hne
    exact absurd rfl hne
  | cons t ts =>
    rw [hrest] at hne htokens
    cases hrest' : s'.rest with
    | nil =>
      rw [hrest'] at htokens
      cases htokens
    | cons t' ts' =>
      rw [hrest'] at htokens
      cases htokens with
      | stop heof _ | onward heof _ _ => exact absurd heof hne
      | cons _ hfits hmore =>
        have hkind : (t.kind == TokenKind.eof) = false := beq_eq_false_iff_ne.mpr hne
        simp only [Token.down_kind, hkind, Bool.false_eq_true, if_false]
        exact ⟨⟨hmore, .inl rfl, hdiagnostics⟩, rfl, hfits⟩

/-! ## Recovery -/

lemma Fits.tail_of_brace {t} (h : Fits a t) (hbrace : isBrace t.kind) : a.tail = [] := by
  cases htail : a.tail with
  | nil => rfl
  | cons x ts =>
    have hsimple := h.simple x ts htail
    simp [isSimple, hbrace] at hsimple

def LastMeets (a : Ahead) (last last' : Token) (ts' : List Token) : Prop :=
  last' = last.down a.down ∨ startsItem (ts'.headD endToken).kind = true

/-- Skipping to a boundary comes to the same place in two readings. -/
lemma boundary_follows {line} (hline : ∀ x ts, a.tail = x :: ts → line + a.down < x.pos.line)
    {ts ts'} (h : Follows a ts ts') (depth) (hdepth : a.tail = [] ∨ depth = 0) (last last')
    (hlast : LastMeets a last last' ts') :
    Follows a (boundary line depth last ts).2 (boundary (line + a.down) depth last' ts').2
      ∧ LastMeets a (boundary line depth last ts).1 (boundary (line + a.down) depth last' ts').1
        (boundary (line + a.down) depth last' ts').2 := by
  induction h generalizing depth last last' with
  | stop heof htail =>
    have heof' := beq_iff_eq.mpr heof
    simp only [boundary, Token.down_kind, heof', if_true]
    exact ⟨.stop heof htail, hlast⟩
  | @onward e x ts ts' heof htail hstart =>
    have heof' := beq_iff_eq.mpr heof
    obtain rfl : depth = 0 := hdepth.resolve_left (by rw [htail]; simp)
    have hother : ∀ kind, startsItem kind = false → (x.kind == kind) = false := by
      intro kind hkind
      refine beq_eq_false_iff_ne.mpr fun heq => ?_
      rw [heq, hkind] at hstart
      cases hstart
    unfold boundary
    simp only [heof', if_true, hother .eof rfl, hother (.symbol .leftBrace) rfl,
      hother (.symbol .rightBrace) rfl, hother (.symbol .semicolon) rfl, Bool.false_eq_true,
      if_false, Bool.false_and, beq_self_eq_true, Bool.true_and, hline _ _ htail, decide_true]
    exact ⟨.onward heof htail hstart, hlast⟩
  | @cons t ts ts' hne hfits hmore ih =>
    have hmoved : LastMeets a t (t.down a.down) ts' := .inl rfl
    have hstay : Follows a (t :: ts) (t.down a.down :: ts') := .cons hne hfits hmore
    have hne' : (t.kind == TokenKind.eof) = false := beq_eq_false_iff_ne.mpr hne
    unfold boundary
    simp only [Token.down_kind, hne', Bool.false_eq_true, if_false]
    by_cases hopen : t.kind = .symbol .leftBrace
    · have htail := hfits.tail_of_brace (by simp [isBrace, hopen])
      simp only [hopen, beq_self_eq_true, if_true]
      exact ih (depth + 1) (.inl htail) _ _ hmoved
    simp only [beq_eq_false_iff_ne.mpr hopen, Bool.false_eq_true, if_false]
    by_cases hclose : t.kind = .symbol .rightBrace
    · have htail := hfits.tail_of_brace (by simp [isBrace, hclose])
      simp only [hclose, beq_self_eq_true, if_true]
      cases depth with
      | zero => exact ⟨hstay, hlast⟩
      | succ depth =>
        cases depth with
        | zero => exact ⟨hmore, hmoved⟩
        | succ depth => exact ih (depth + 1) (.inl htail) _ _ hmoved
    simp only [beq_eq_false_iff_ne.mpr hclose, Bool.false_eq_true, if_false]
    by_cases hsemi : (t.kind == .symbol .semicolon && depth == 0)
    · simp only [hsemi, if_true]
      exact ⟨hmore, hmoved⟩
    simp only [Bool.eq_false_iff.mpr hsemi, Bool.false_eq_true, if_false]
    have hlater : (depth == 0 && decide (line + a.down < (t.down a.down).pos.line))
        = (depth == 0 && decide (line < t.pos.line)) := by
      simp
    rw [hlater]
    split
    · exact ⟨hstay, hlast⟩
    · exact ih depth hdepth _ _ hmoved

lemma Abreast.report {d d'} (h : Abreast a base base' s s')
    (hecho : Echo a.down a.tail.head? d d') :
    Abreast a base base' { s with diagnostics := s.diagnostics ++ [d] }
      { s' with diagnostics := s'.diagnostics ++ [d'] } := by
  obtain ⟨new, new', hnew, hnew', hechoes⟩ := h.diagnostics
  refine { h with diagnostics := ⟨new ++ [d], new' ++ [d'], ?_, ?_, ?_⟩ }
  · show s.diagnostics ++ [d] = _
    rw [hnew, List.append_assoc]
  · show s'.diagnostics ++ [d'] = _
    rw [hnew', List.append_assoc]
  · exact List.rel_append hechoes (.cons hecho .nil)

/-! ## The pairing -/

lemma Abreast.current_eq (h : Abreast a base base' s s') (htail : a.tail = []) :
    s'.current = s.current.down a.down := by
  have hmeets := h.current
  generalize s.current = t at hmeets ⊢
  generalize s'.current = t' at hmeets ⊢
  cases hmeets with
  | same _ => rfl
  | ends _ htail' _ =>
    rw [htail] at htail'
    cases htail'

lemma Meets.expected {t t'} (h : Meets a t t') (what) :
    Echo a.down a.tail.head? ((expected what t).toDiagnostic t.pos)
      ((expected what t').toDiagnostic t'.pos) := by
  cases h with
  | same _ => exact .same
  | ends heof htail _ => exact .expected heof (by rw [htail]; rfl)

lemma Meets.noTimeout {t t'} (h : Meets a t t') :
    Echo a.down a.tail.head? ((noTimeout t).toDiagnostic t.pos)
      ((noTimeout t').toDiagnostic t'.pos) := by
  cases h with
  | same _ => exact .same
  | ends heof htail _ => exact .noTimeout heof (by rw [htail]; rfl)

lemma Meets.endsReturn_eq {t u u'} (h : Meets a u u') (hfits : Fits a t) :
    endsReturn (t.pos.line + a.down) u' = endsReturn t.pos.line u := by
  cases h with
  | same _ => simp [endsReturn]
  | ends heof htail _ =>
    have hline := hfits.before _ _ htail
    simp [endsReturn, heof, hline]

/-- The pairing of two readings that have reported something before. -/
def tandem (a : Ahead) (base base' : List Diagnostic) : Pairing where
  down := a.down
  passed := Fits a
  closed := a.tail = []
  Site := Unit
  inside _ _ := ()
  states _ σ := Abreast a base base' σ.1 σ.2
  faults _ d d' σ := Echo a.down a.tail.head? d d' ∧ Abreast a base base' σ.1 σ.2
  -- where groups stand, both readings have the same end, and go abreast to it
  lost _ _ := False

lemma tandem_lawful : (tandem a base base').Lawful where
  around := fun _ _ h => ⟨h.tokens, h.last, h.diagnostics⟩
  around_fault := fun _ _ h => ⟨h.1, h.2.tokens, h.2.last, h.2.diagnostics⟩
  meets := fun h hne => (h.advance hne).2
  ended := by
    rintro _ ⟨s, s'⟩ h heof
    have hmeets : Meets a s.current s'.current := h.current
    dsimp only at heof ⊢
    generalize s.current = t, s'.current = t' at hmeets heof ⊢
    cases hmeets with
    | same _ => exact .inl heof
    | ends _ _ hstart => exact .inr hstart
  same := fun htail h => h.current_eq htail
  closes := by
    rintro t hfits (hopen | hwhen)
    · exact hfits.tail_of_brace (by rw [hopen]; rfl)
    · cases htail : a.tail with
      | nil => exact htail
      | cons x ts =>
        have hsimple := hfits.simple x ts htail
        rw [hwhen] at hsimple
        cases hsimple
  opens := by
    rintro _ ⟨s, s'⟩ sym h hkind
    have hcurrent : s'.current = s.current.down a.down := (h.advance (by rw [hkind]; simp)).2.1
    have hlast : s'.last = s.last.down a.down := by
      refine h.last.resolve_right ?_
      rw [hcurrent, Token.down_kind, hkind]
      simp [startsItem]
    simp [hcurrent, hlast]
  returns := fun h hfits => h.current.endsReturn_eq hfits
  advance := fun h hinner => (h.advance (isInner_end hinner)).1
  report := fun _ h _ => h.report .same
  fail := fun _ h _ => ⟨.same, h⟩
  expected := fun what h => ⟨h.current.expected what, h⟩
  noTimeout := fun h => ⟨h.current.noTimeout, h⟩
  recover := by
    rintro _ ⟨s, s'⟩ ⟨t, t'⟩ d d' h hne ⟨hecho, ht⟩
    obtain ⟨-, hcurrent, hfits⟩ := h.advance hne
    have hbound := boundary_follows hfits.before ht.tokens 0 (.inr rfl) _ _ ht.last
    dsimp only at hcurrent ⊢
    rw [hcurrent]
    exact .inl { ht.report hecho with tokens := hbound.1, last := hbound.2 }
  lost_ends := fun h => h.elim
  enter := fun h hopen => (h.advance (by rw [hopen]; simp)).1
  leave := fun _ _ h hclose => (h.advance (by rw [hclose]; simp)).1
  unclosed := by
    rintro _ ⟨s, s'⟩ ⟨t, t'⟩ h hopen (ht | hfalse) hend
    · obtain ⟨-, -, hfits⟩ := h.advance (by rw [hopen]; simp)
      have hcurrent : t'.current = t.current.down a.down :=
        ht.current_eq (hfits.tail_of_brace (by rw [hopen]; rfl))
      dsimp only
      rw [hcurrent]
      exact ⟨.same, ht⟩
    · exact hfalse.elim

end CanScript.Parse
