import CanScript.Proofs.Lines
import CanScript.Proofs.Recovery

/-! # Two readings side by side

    A reader that gives up leaves a state behind just as one that succeeds, and reading goes on from
    there.  What is proved about readers is proved of two readings at once: of the same tokens, or
    of one text and another that begins with it some lines further down.  The two go the same way,
    pass tokens, and end in states that belong together again. -/

namespace CanScript.Parse

open List Parse State

variable {α β : Type} (read : Reader α) (s : State)

/-! ## Readers as functions of the state -/

@[simp] lemma pure_apply (a s) : (pure a : Reader α) s = (.ok a, s) := rfl

@[simp] lemma get_apply : (get : Reader State) s = (.ok s, s) := rfl

@[simp] lemma modify_apply (g) (s : State) : (modify g : Reader PUnit) s = (.ok ⟨⟩, g s) := rfl

@[simp] lemma throw_apply (e s) : (throw e : Reader α) s = (.error e, s) := rfl

lemma bind_apply (x) (f : α → Reader β) (s) : (x >>= f) s = match x s with
      | (.ok a, s') => f a s'
      | (.error e, s') => (.error e, s') := by
  show ExceptT.bindCont f (x s).1 (x s).2 = _
  rcases x s with ⟨r, s'⟩
  cases r with
  | ok a => rfl
  | error e => rfl

/-- The end is done after a fault, too. -/
lemma tryFinally_apply (x) (g : State → State) (s) :
    (tryFinally x (modify g) : Reader α) s = ((x s).1, g (x s).2) := by
  have hx : ∀ r s', x s = (r, s') → (tryFinally x (modify g) : Reader α) s = (r, g s') := by
    intro r s' h
    simp only [tryFinally, tryFinally', Functor.map, ExceptT.map, ExceptT.mk, bind, StateT.bind,
      pure]
    rw [h]
    cases r with
    | ok a => rfl
    | error e => rfl
  exact hx _ _ rfl

lemma insideLoop_apply : insideLoop read s = let t := { s with loopDepth := s.loopDepth + 1 }
      ((read t).1, { (read t).2 with loopDepth := (read t).2.loopDepth - 1 }) := by
  unfold insideLoop
  rw [bind_apply, modify_apply]
  exact tryFinally_apply _ _ _

lemma insideBody_apply : insideBody read s = let t := { s with loopDepth := 0, inBody := true }
      ((read t).1, { (read t).2 with loopDepth := s.loopDepth, inBody := s.inBody }) := by
  unfold insideBody
  rw [bind_apply, get_apply]
  show (modify _ >>= _ : Reader α) s = _
  rw [bind_apply, modify_apply]
  exact tryFinally_apply _ _ _

def State.recover (s : State) (line : Nat) (d : Diagnostic) : State :=
  { s with
    rest := (boundary line 0 s.last s.rest).2
    last := (boundary line 0 s.last s.rest).1
    diagnostics := s.diagnostics ++ [d] }

/-- A fault is reported, and what follows is skipped up to a boundary. -/
lemma recovering_apply : recovering read s = match read s with
      | (.ok a, s') => (.ok (some a), s')
      | (.error (.fault d), s') => (.ok none, s'.recover s.current.pos.line d)
      | (.error .exhausted, s') => (.error .exhausted, s') := by
  -- the outcome is named first, for the reader is run in more than one place
  have hread : ∀ r s', read s = (r, s') → recovering read s = match (r, s') with
      | (.ok a, s') => (.ok (some a), s')
      | (.error (.fault d), s') => (.ok none, s'.recover s.current.pos.line d)
      | (.error .exhausted, s') => (.error .exhausted, s') := by
    intro r s' h
    unfold recovering
    rw [bind_apply]
    show (tryCatch _ _ >>= _ : Reader _) s = _
    rw [bind_apply]
    simp only [tryCatch, tryCatchThe, MonadExceptOf.tryCatch, ExceptT.tryCatch, ExceptT.mk, bind,
      StateT.bind, ExceptT.bind]
    rw [h]
    rcases r with (d | _) | a
    · rfl
    · rfl
    · rfl
  exact hread _ _ rfl

/-! ## Tokens -/

variable {kind : TokenKind}

section Tokens

variable {s : State}

lemma State.advance_of_ne (h : s.current.kind ≠ .eof) :
    s.rest = s.current :: s.advance.rest ∧ s.advance.diagnostics = s.diagnostics := by
  unfold current at h ⊢
  unfold advance
  cases hrest : s.rest with
  | nil =>
    rw [hrest] at h
    exact absurd rfl h
  | cons t rest =>
    rw [hrest] at h
    have hne : (t.kind == TokenKind.eof) = false := beq_eq_false_iff_ne.mpr h
    simp only [hne, Bool.false_eq_true, if_false, headD_cons, and_self]

lemma length_advance (h : s.current.kind ≠ .eof) : s.advance.rest.length + 1 = s.rest.length := by
  rw [(advance_of_ne h).1, length_cons]

lemma State.around_advance (s : State) :
    s.advance.loopDepth = s.loopDepth ∧ s.advance.inBody = s.inBody := by
  unfold advance
  split
  · exact ⟨rfl, rfl⟩
  · split <;> exact ⟨rfl, rfl⟩

lemma nextKind_eq (h : s.current.kind ≠ .eof) : s.nextKind = s.advance.current.kind := by
  have hrest := (advance_of_ne h).1
  unfold nextKind current
  rw [hrest]
  cases s.advance.rest with
  | nil => rfl
  | cons t rest => rfl

end Tokens

/-- Whether tokens of a kind start a statement or a declaration, and belong to nothing that begins
    before them. -/
def startsItem : TokenKind → Bool
  | .keyword k =>
    [.var, .send, .delay, .times, .forever, .when, .waitFor, .function, .giveBack, .leave, .again,
      .print, .onReceive, .onInterval].contains k
  | _ => false

/-! ## From one state to a later one -/

/-- A later state: some tokens lie between the two, and none of them is the end. -/
def Moved (n : Nat) (s t : State) : Prop :=
  ∃ used, s.rest = used ++ t.rest ∧ n ≤ used.length ∧ ∀ u ∈ used, u.kind ≠ .eof

section Moved

variable {s t u : State} {j k : Nat}

lemma Moved.refl (s) : Moved 0 s s :=
  ⟨[], rfl, Nat.le_refl 0, forall_mem_nil _⟩

lemma Moved.trans (h : Moved j s t) (h' : Moved k t u) : Moved (j + k) s u := by
  obtain ⟨used, hrest, hlength, hends⟩ := h
  obtain ⟨more, hrest', hlength', hends'⟩ := h'
  refine ⟨used ++ more, ?_, ?_, forall_mem_append.mpr ⟨hends, hends'⟩⟩
  · rw [hrest, hrest', append_assoc]
  · rw [length_append]
    exact Nat.add_le_add hlength hlength'

lemma Moved.mono (h : Moved k s t) (hjk : j ≤ k) : Moved j s t := by
  obtain ⟨used, hrest, hlength, hends⟩ := h
  exact ⟨used, hrest, Nat.le_trans hjk hlength, hends⟩

lemma Moved.length_le (h : Moved k s t) : t.rest.length + k ≤ s.rest.length := by
  obtain ⟨used, hrest, hlength, -⟩ := h
  rw [hrest, length_append]
  omega

lemma moved_advance (h : s.current.kind ≠ .eof) : Moved 1 s s.advance :=
  ⟨[s.current], (advance_of_ne h).1, Nat.le_refl 1, forall_mem_singleton.mpr h⟩

/-- Recovering passes a token at least. -/
lemma Moved.recover (h : Moved 0 s t) (hend : s.current.kind ≠ .eof)
    (hclose : s.current.kind ≠ .symbol .rightBrace) (d : Diagnostic) :
    Moved 1 s (t.recover s.current.pos.line d) := by
  obtain ⟨used, hrest, -, hends⟩ := h
  obtain ⟨more, hmore, -, hends'⟩ := boundary_passes s.current.pos.line t.last t.rest
  have hmoved : s.rest = (used ++ more) ++ (t.recover s.current.pos.line d).rest := by
    rw [hrest, append_assoc]
    exact congrArg (used ++ ·) hmore
  refine ⟨used ++ more, hmoved, ?_, forall_mem_append.mpr ⟨hends, hends'⟩⟩
  cases used with
  | cons u used => exact Nat.succ_le_succ (Nat.zero_le _)
  | nil =>
    -- nothing was read, so the first token is still ahead
    have hstart : t.rest = s.current :: s.advance.rest := by
      rw [← (advance_of_ne hend).1, hrest, nil_append]
    have hlt := boundary_length_lt t.last s.advance.rest hend hclose (Nat.le_refl _)
    rw [← hstart] at hlt
    have hlength := congrArg List.length hmore
    rw [length_append] at hlength
    rw [nil_append]
    omega

end Moved

/-! ## Pairings -/

def State.around (s : State) (depth : Nat) (body : Bool) : State :=
  { s with loopDepth := depth, inBody := body }

def State.report (s : State) (f : ParseFault) (pos : Pos) : State :=
  { s with diagnostics := s.diagnostics ++ [f.toDiagnostic pos] }

lemma rest_advance_report (s : State) (f pos) : (s.report f pos).advance.rest = s.advance.rest := by
  obtain ⟨rest, last, diagnostics, loopDepth, inBody⟩ := s
  cases rest with
  | nil => rfl
  | cons t rest =>
    simp only [State.report, State.advance]
    split <;> rfl

/-- What belongs together in two readings.  A site tells the groups apart in which they may stand.
    -/
structure Pairing where
  /-- How many lines the second reading is further down. -/
  down : Nat
  /-- What is known of a token that both pass. -/
  passed : Token → Prop
  /-- Whether both have the same end. -/
  closed : Prop
  Site : Type
  /-- The site of the group that opens at two states. -/
  inside : Site → State × State → Site
  states : Site → State × State → Prop
  /-- The faults of two readings that give up, and their states then. -/
  faults : Site → Diagnostic → Diagnostic → State × State → Prop
  /-- Both came to the end inside of a group that is not closed. -/
  lost : Site → State × State → Prop

/-- What a pairing has to respect. -/
structure Pairing.Lawful (K : Pairing) : Prop where
  around {i σ} (depth : Nat) (body : Bool) :
    K.states i σ → K.states i (σ.1.around depth body, σ.2.around depth body)
  around_fault {i d d' σ} (depth : Nat) (body : Bool) :
    K.faults i d d' σ → K.faults i d d' (σ.1.around depth body, σ.2.around depth body)
  -- what the readings have in front
  meets {i σ} : K.states i σ → σ.1.current.kind ≠ .eof →
    σ.2.current = σ.1.current.down K.down ∧ K.passed σ.1.current
  ended {i σ} : K.states i σ → σ.1.current.kind = .eof →
    σ.2.current.kind = .eof ∨ startsItem σ.2.current.kind = true
  same {i σ} : K.closed → K.states i σ →
    σ.2.current = σ.1.current.down K.down
  closes {t} : K.passed t → t.kind = .symbol .leftBrace ∨ t.kind = .keyword .when →
    K.closed
  opens {i σ sym} : K.states i σ →
    σ.1.current.kind = .symbol sym → (σ.2.current.pos.line == σ.2.last.pos.line)
      = (σ.1.current.pos.line == σ.1.last.pos.line)
  returns {i σ t} : K.states i σ → K.passed t →
    endsReturn (t.pos.line + K.down) σ.2.current = endsReturn t.pos.line σ.1.current
  -- how they go on, and how they give up
  advance {i σ} : K.states i σ → isInner σ.1.current.kind = true →
    K.states i (σ.1.advance, σ.2.advance)
  report {i σ} {f : ParseFault} (pos : Pos) : K.states i σ →
    f.kind ≠ .unbalancedBlock → K.states i (σ.1.report f pos, σ.2.report f (pos.down K.down))
  fail {i σ} {f : ParseFault} (pos : Pos) : K.states i σ →
    f.kind ≠ .unbalancedBlock →
    K.faults i (f.toDiagnostic pos) (f.toDiagnostic (pos.down K.down)) σ
  expected {i σ} (what : String) : K.states i σ →
    K.faults i ((ParseFault.expected what σ.1.current).toDiagnostic σ.1.current.pos)
      ((ParseFault.expected what σ.2.current).toDiagnostic σ.2.current.pos) σ
  noTimeout {i σ} : K.states i σ →
    K.faults i ((ParseFault.noTimeout σ.1.current).toDiagnostic σ.1.current.pos)
      ((ParseFault.noTimeout σ.2.current).toDiagnostic σ.2.current.pos) σ
  recover {i σ τ d d'} : K.states i σ →
    σ.1.current.kind ≠ .eof → K.faults i d d' τ →
    K.states i (τ.1.recover σ.1.current.pos.line d, τ.2.recover σ.2.current.pos.line d') ∨
      K.lost i (τ.1.recover σ.1.current.pos.line d, τ.2.recover σ.2.current.pos.line d')
  -- groups
  lost_ends {i σ} : K.lost i σ →
    σ.1.current.kind = .eof ∧ σ.2.current.kind = .eof
  enter {i σ} : K.states i σ →
    σ.1.current.kind = .symbol .leftBrace → K.states (K.inside i σ) (σ.1.advance, σ.2.advance)
  leave {i σ τ} : K.states i σ →
    σ.1.current.kind = .symbol .leftBrace → K.states (K.inside i σ) τ →
    τ.1.current.kind = .symbol .rightBrace → K.states i (τ.1.advance, τ.2.advance)
  unclosed {i σ τ} : K.states i σ →
    σ.1.current.kind = .symbol .leftBrace →
    K.states (K.inside i σ) τ ∨ K.lost (K.inside i σ) τ → τ.1.current.kind = .eof →
    K.faults i (ParseFault.unclosedBlock.toDiagnostic τ.1.current.pos)
      (ParseFault.unclosedBlock.toDiagnostic τ.2.current.pos) τ

namespace Pairing

variable {K : Pairing} {V : α → α → Prop} {W : β → β → Prop} {σ τ : State × State} {j n : Nat}

/-- Where two readings stand: at which site, and inside of which loops and bodies. -/
structure Spot (K : Pairing) where
  site : K.Site
  depth : Nat
  body : Bool

variable {p : K.Spot}

/-- Both states are inside of the loops and bodies of a spot. -/
structure Kept (p : K.Spot) (σ : State × State) : Prop where
  depth : σ.1.loopDepth = p.depth ∧ σ.2.loopDepth = p.depth
  body : σ.1.inBody = p.body ∧ σ.2.inBody = p.body

lemma Kept.advance (h : Kept p σ) : Kept p (σ.1.advance, σ.2.advance) := by
  refine ⟨?_, ?_⟩
  · rw [(around_advance σ.1).1, (around_advance σ.2).1]
    exact h.depth
  · rw [(around_advance σ.1).2, (around_advance σ.2).2]
    exact h.body

/-- Both states belong together at a spot. -/
structure At (p : K.Spot) (σ : State × State) : Prop extends Kept p σ where
  states : K.states p.site σ

/-- How two readers end: with values that belong together and past some tokens, or with faults that
    belong together. -/
inductive Ends (p : K.Spot) (n : Nat) (V : α → α → Prop) (σ : State × State) :
    Except Failure α × State → Except Failure α × State → Prop where
  | ok {v v' t t'} : V v v' → At p (t, t') → Moved n σ.1 t → Moved n σ.2 t' →
      Ends p n V σ (.ok v, t) (.ok v', t')
  | fault {d d' t t'} : K.faults p.site d d' (t, t') → Kept p (t, t') →
      Moved 0 σ.1 t → Moved 0 σ.2 t' → Ends p n V σ (.error (.fault d), t) (.error (.fault d'), t')

def Keeps (p : K.Spot) (n : Nat) (V : α → α → Prop) (x x' : Reader α) (σ : State × State) : Prop :=
  Ends p n V σ (x σ.1) (x' σ.2)

/-- Both states have fewer tokens ahead. -/
abbrev Fewer (n : Nat) (σ τ : State × State) : Prop :=
  τ.1.rest.length + n ≤ σ.1.rest.length ∧ τ.2.rest.length + n ≤ σ.2.rest.length

/-! ### Rules -/

lemma Ends.after {k r r'} (h : Ends p k V τ r r')
    (hm : Moved j σ.1 τ.1) (hm' : Moved j σ.2 τ.2) (hn : n ≤ j + k) : Ends p n V σ r r' := by
  cases h with
  | ok hv hend hmore hmore' =>
    exact .ok hv hend ((hm.trans hmore).mono hn) ((hm'.trans hmore').mono hn)
  | fault hfault hkept hmore hmore' =>
    exact .fault hfault hkept ((hm.trans hmore).mono (Nat.zero_le _))
      ((hm'.trans hmore').mono (Nat.zero_le _))

variable {x x' : Reader α}

/-- One reading after another, on both sides. -/
lemma Keeps.bind {f f' : α → Reader β} (hx : Keeps p j V x x' σ)
    (hf : ∀ v v' τ, V v v' → At p τ → Fewer j σ τ → Keeps p (n - j) W (f v) (f' v') τ) :
    Keeps p n W (x >>= f) (x' >>= f') σ := by
  unfold Keeps at hx ⊢
  rw [bind_apply, bind_apply]
  rcases hrun : x σ.1 with ⟨r, t⟩
  rcases hrun' : x' σ.2 with ⟨r', t'⟩
  rw [hrun, hrun'] at hx
  cases hx with
  | ok hv hend hm hm' =>
    exact (hf _ _ (t, t') hv hend ⟨hm.length_le, hm'.length_le⟩).after hm hm' (by omega)
  | fault hfault hkept hm hm' => exact .fault hfault hkept hm hm'

lemma Keeps.mono (h : Keeps p n V x x' σ) (hjn : j ≤ n) : Keeps p j V x x' σ :=
  Ends.after h (.refl _) (.refl _) (by omega)

lemma Keeps.pure {v v'} (hv : V v v') (h : At p σ) : Keeps p 0 V (pure v) (pure v') σ :=
  .ok hv h (.refl _) (.refl _)

lemma Keeps.map {f f' : α → β} (hx : Keeps p n V x x' σ) (hf : ∀ v v', V v v' → W (f v) (f' v')) :
    Keeps p n W (do return f (← x)) (do return f' (← x')) σ :=
  hx.bind fun v v' _ hv h _ => (Keeps.pure (hf v v' hv) h).mono (Nat.le_of_eq (Nat.sub_self n))

lemma Keeps.ite {c c'} [Decidable c] [Decidable c'] {y y'} (hc : c' ↔ c)
    (hx : c → Keeps p n V x x' σ) (hy : ¬ c → Keeps p n V y y' σ) :
    Keeps p n V (if c then x else y) (if c' then x' else y') σ := by
  by_cases h : c
  · rw [if_pos h, if_pos (hc.mpr h)]
    exact hx h
  · rw [if_neg h, if_neg fun h' => h (hc.mp h')]
    exact hy h

lemma Keeps.get {f f'} (h : Keeps p n W (f σ.1) (f' σ.2) σ) :
    Keeps p n W (MonadState.get >>= f) (MonadState.get >>= f') σ := h

lemma Keeps.peek {f f'} (h : Keeps p n W (f σ.1.current) (f' σ.2.current) σ) :
    Keeps p n W (peek >>= f) (peek >>= f') σ := h

lemma Keeps.peekKind {f f'} (h : Keeps p n W (f σ.1.current.kind) (f' σ.2.current.kind) σ) :
    Keeps p n W (peekKind >>= f) (peekKind >>= f') σ := h

/-! ### Tokens -/

namespace Lawful

variable (hK : K.Lawful)

include hK

variable (what : String)

lemma failAt {pos f} (h : At p σ) (hf : f.kind ≠ .unbalancedBlock) :
    Keeps p n V (failAt pos f) (failAt (pos.down K.down) f) σ :=
  .fault (hK.fail pos h.states hf) h.toKept (.refl _) (.refl _)

lemma failExpected (h : At p σ) : Keeps p n V (failExpected what) (failExpected what) σ :=
  .fault (hK.expected what h.states) h.toKept (.refl _) (.refl _)

lemma kind_iff (h : At p σ) (hend : kind ≠ .eof) (hstart : startsItem kind = false) :
    σ.2.current.kind = kind ↔ σ.1.current.kind = kind := by
  by_cases heof : σ.1.current.kind = .eof
  · refine iff_of_false ?_ (heof ▸ hend.symm)
    rintro rfl
    rcases hK.ended h.states heof with hended | hstarts
    · exact hend hended
    · rw [hstart] at hstarts
      cases hstarts
  · rw [(hK.meets h.states heof).1, Token.down_kind]

lemma ifKind {y y'} (h : At p σ) (hend : kind ≠ .eof)
    (hstart : startsItem kind = false) (hx : σ.1.current.kind = kind → Keeps p n V x x' σ)
    (hy : σ.1.current.kind ≠ kind → Keeps p n V y y' σ) :
    Keeps p n V (if σ.1.current.kind == kind then x else y)
      (if σ.2.current.kind == kind then x' else y') σ := by
  simp only [beq_iff_eq]
  exact Keeps.ite (hK.kind_iff h hend hstart) hx hy

lemma at_advance (h : At p σ) (hinner : isInner σ.1.current.kind) :
    At p (σ.1.advance, σ.2.advance) :=
  ⟨h.toKept.advance, hK.advance h.states hinner⟩

/-- A token inside of a statement is passed on both sides. -/
lemma pass {f g} (h : At p σ) (hkind : σ.1.current.kind = kind) (hinner : isInner kind)
    (hf : ∀ τ, At p τ → Fewer 1 σ τ →
      Keeps p (n - 1) W (f σ.1.current) (g (σ.1.current.down K.down)) τ) :
    Keeps p n W (Parse.advance >>= f) (Parse.advance >>= g) σ := by
  subst hkind
  have hne := isInner_end hinner
  obtain ⟨hcurrent, -⟩ := hK.meets h.states hne
  have hm := moved_advance hne
  have hm' : Moved 1 σ.2 σ.2.advance := moved_advance (by rwa [hcurrent])
  rw [← hcurrent] at hf
  exact (hf _ (hK.at_advance h hinner) ⟨hm.length_le, hm'.length_le⟩).after hm hm' (by omega)

lemma expect (h : At p σ) (hinner : isInner kind) (hstart : startsItem kind = false) :
    Keeps p 1 (fun t t' => t' = t.down K.down ∧ K.passed t ∧ t.kind = kind) (expect kind what)
      (expect kind what) σ := by
  refine Keeps.peekKind (hK.ifKind h (isInner_end hinner) hstart (fun hkind => ?_) fun _ => ?_)
  · have hmeets := hK.meets h.states (by rw [hkind]; exact isInner_end hinner)
    exact hK.pass (f := Pure.pure) (g := Pure.pure) h hkind hinner fun τ hτ _ =>
      .pure ⟨rfl, hmeets.2, hkind⟩ hτ
  · exact hK.failExpected what h

lemma expectSymbol {sym} (h : At p σ) (hinner : isInner (.symbol sym)) :
    Keeps p 1 (fun _ _ => True) (expectSymbol sym what) (expectSymbol sym what) σ :=
  (hK.expect what h hinner rfl).bind fun _ _ _ _ hτ _ => Keeps.pure trivial hτ

lemma eat (h : At p σ) (hinner : isInner kind) (hstart : startsItem kind = false) :
    Keeps p 0 Eq (eat kind) (eat kind) σ := by
  refine Keeps.peekKind (hK.ifKind h (isInner_end hinner) hstart (fun hkind => ?_) fun _ => ?_)
  · exact hK.pass (f := fun _ => Pure.pure true) (g := fun _ => Pure.pure true) h hkind hinner
      fun τ hτ _ => .pure rfl hτ
  · exact .pure rfl h

lemma ifEat {f f'} (h : At p σ) (hinner : isInner kind) (hstart : startsItem kind = false)
    (hf : ∀ more τ, At p τ → Fewer 0 σ τ → Keeps p n W (f more) (f' more) τ) :
    Keeps p n W (Parse.eat kind >>= f) (Parse.eat kind >>= f') σ := by
  refine (hK.eat h hinner hstart).bind ?_
  rintro more _ τ rfl
  exact hf more τ

section Symbols

variable {sym : Symbol} {what : String}

lemma current (h : At p σ) (hkind : σ.1.current.kind = kind) (hinner : isInner kind) :
    σ.2.current = σ.1.current.down K.down :=
  (hK.meets h.states (hkind ▸ isInner_end hinner)).1

lemma symbol {f f'} (h : At p σ) (hinner : isInner (.symbol sym))
    (hf : ∀ τ, At p τ → Fewer 1 σ τ → Keeps p (n - 1) W (f ()) (f' ()) τ) :
    Keeps p n W (Parse.expectSymbol sym what >>= f) (Parse.expectSymbol sym what >>= f') σ :=
  (hK.expectSymbol what h hinner).bind fun _ _ τ _ => hf τ

lemma closing {w w'} (h : At p σ) (hinner : isInner (.symbol sym)) (hw : W w w') :
    Keeps p 0 W (do Parse.expectSymbol sym what; return w)
      (do Parse.expectSymbol sym what; return w') σ :=
  hK.symbol h hinner fun _ hτ _ => .pure hw hτ

end Symbols

/-! ### Loops, bodies and recovery -/

lemma within {depth body} (h : At p σ)
    (hx : ∀ τ, At (⟨p.site, depth, body⟩ : K.Spot) τ → Fewer 0 σ τ →
      Keeps (⟨p.site, depth, body⟩ : K.Spot) n V x x' τ) {r r'} {g k : State → State}
    (hr : r = ((x (σ.1.around depth body)).1, g (x (σ.1.around depth body)).2))
    (hr' : r' = ((x' (σ.2.around depth body)).1, k (x' (σ.2.around depth body)).2))
    (hback : ∀ t, t.loopDepth = depth → t.inBody = body → g t = t.around p.depth p.body)
    (hback' : ∀ t, t.loopDepth = depth → t.inBody = body → k t = t.around p.depth p.body) :
    Ends p n V σ r r' := by
  have hends := hx (σ.1.around depth body, σ.2.around depth body)
    ⟨⟨⟨rfl, rfl⟩, ⟨rfl, rfl⟩⟩, hK.around depth body h.states⟩ ⟨Nat.le_refl _, Nat.le_refl _⟩
  have hkept : ∀ t t' : State, Kept p (t.around p.depth p.body, t'.around p.depth p.body) :=
    fun t t' => ⟨⟨rfl, rfl⟩, ⟨rfl, rfl⟩⟩
  subst hr hr'
  unfold Keeps at hends
  rcases hrun : x (σ.1.around depth body) with ⟨r, t⟩
  rcases hrun' : x' (σ.2.around depth body) with ⟨r', t'⟩
  rw [hrun, hrun'] at hends
  cases hends with
  | ok hv hend hm hm' =>
    rw [hback t hend.depth.1 hend.body.1, hback' t' hend.depth.2 hend.body.2]
    exact .ok hv ⟨hkept t t', hK.around p.depth p.body hend.states⟩ hm hm'
  | fault hfault hend hm hm' =>
    rw [hback t hend.depth.1 hend.body.1, hback' t' hend.depth.2 hend.body.2]
    exact .fault (hK.around_fault p.depth p.body hfault) (hkept t t') hm hm'

lemma insideLoop (h : At p σ)
    (hx : ∀ τ, At (⟨p.site, p.depth + 1, p.body⟩ : K.Spot) τ → Fewer 0 σ τ →
      Keeps (⟨p.site, p.depth + 1, p.body⟩ : K.Spot) n V x x' τ) :
    Keeps p n V (insideLoop x) (insideLoop x') σ := by
  have henter : ∀ s : State, s.loopDepth = p.depth → s.inBody = p.body →
      { s with loopDepth := s.loopDepth + 1 } = s.around (p.depth + 1) p.body := by
    intro s hdepth hbody
    simp only [State.around, hdepth, ← hbody]
  have hback : ∀ t : State, t.loopDepth = p.depth + 1 → t.inBody = p.body →
      { t with loopDepth := t.loopDepth - 1 } = t.around p.depth p.body := by
    intro t hdepth hbody
    simp only [State.around, hdepth, ← hbody, Nat.add_sub_cancel]
  refine hK.within h hx ?_ ?_ hback hback
  · rw [← henter σ.1 h.depth.1 h.body.1]
    exact insideLoop_apply x σ.1
  · rw [← henter σ.2 h.depth.2 h.body.2]
    exact insideLoop_apply x' σ.2

lemma insideBody (h : At p σ) (hx : ∀ τ, At (⟨p.site, 0, true⟩ : K.Spot) τ → Fewer 0 σ τ →
      Keeps (⟨p.site, 0, true⟩ : K.Spot) n V x x' τ) :
    Keeps p n V (insideBody x) (insideBody x') σ := by
  refine hK.within h hx (insideBody_apply x σ.1) (insideBody_apply x' σ.2)
    (g := fun t => { t with loopDepth := σ.1.loopDepth, inBody := σ.1.inBody })
    (k := fun t => { t with loopDepth := σ.2.loopDepth, inBody := σ.2.inBody }) ?_ ?_
  · intro t _ _
    rw [State.around, ← h.depth.1, ← h.body.1]
  · intro t _ _
    rw [State.around, ← h.depth.2, ← h.body.2]

/-- Where one side recovers, so does the other. -/
lemma recovering (h : At p σ) (hend : σ.1.current.kind ≠ .eof)
    (hclose : σ.1.current.kind ≠ .symbol .rightBrace) (hx : Keeps p 1 V x x' σ) :
    ∃ o o' τ, recovering x σ.1 = (.ok o, τ.1) ∧ recovering x' σ.2 = (.ok o', τ.2) ∧
      Option.Rel V o o' ∧ Kept p τ ∧ (K.states p.site τ ∨ o = none ∧ K.lost p.site τ) ∧
      Moved 1 σ.1 τ.1 ∧ Moved 1 σ.2 τ.2 := by
  have hcurrent := (hK.meets h.states hend).1
  unfold Keeps at hx
  rw [recovering_apply, recovering_apply]
  rcases hrun : x σ.1 with ⟨r, t⟩
  rcases hrun' : x' σ.2 with ⟨r', t'⟩
  rw [hrun, hrun'] at hx
  cases hx with
  | ok hv ht hm hm' => exact ⟨_, _, (t, t'), rfl, rfl, .some hv, ht.toKept, .inl ht.states, hm, hm'⟩
  | @fault d d' _ _ hfault hkept hm hm' =>
    refine ⟨none, none, (t.recover σ.1.current.pos.line d, t'.recover σ.2.current.pos.line d'),
      rfl, rfl, .none, ⟨hkept.depth, hkept.body⟩, ?_, hm.recover hend hclose d,
      hm'.recover (by rwa [hcurrent]) (by rwa [hcurrent]) d'⟩
    exact (hK.recover h.states hend hfault).imp_right fun hlost => ⟨rfl, hlost⟩

end Lawful

end Pairing

end CanScript.Parse
