import CanScript.Proofs.Readings

/-! # Readers keep to their block

    However a reader ends, it has passed whole groups in braces only: it stands at the level where
    it started, or it came to the end inside a group that is never closed.  Skipping to a boundary
    passes whole groups too, so the blocks around a faulty statement stay where they are. -/

namespace CanScript.Parse

open List State

variable {s s' s'' : State} {k : Nat}

/-! ## From one state to a later one -/

def Passes (depth e : Nat) (s s' : State) : Prop :=
  ∃ used, s.rest = used ++ s'.rest ∧ climb depth used = some e ∧ ∀ t ∈ used, t.kind ≠ .eof

def Adds (P : Diagnostic → Prop) (s s' : State) : Prop :=
  ∃ new, s'.diagnostics = s.diagnostics ++ new ∧ ∀ d ∈ new, P d

/-- A diagnostic of a reader that does not complain about braces. -/
structure Mild (d : Diagnostic) : Prop where
  phase : d.phase = .parse
  kind : d.kind ≠ .unbalancedBlock

/-- A later state at the same level, with nothing wrong with the braces. -/
structure Level (s s' : State) : Prop where
  passes : Passes 0 0 s s'
  adds : Adds Mild s s'

/-- A later state at the end, with groups still open. -/
structure Cut (depth : Nat) (s s' : State) : Prop where
  passes : ∃ k, Passes depth (k + 1) s s'
  adds : Adds (fun d => d.phase = .parse) s s'
  ends : s'.current.kind = .eof

variable {P : Diagnostic → Prop}

section Between

variable {depth e f : Nat}

lemma Passes.trans (h : Passes depth e s s') (h' : Passes e f s' s'') : Passes depth f s s'' := by
  obtain ⟨used, hrest, hused, hends⟩ := h
  obtain ⟨more, hrest', hmore, hends'⟩ := h'
  refine ⟨used ++ more, ?_, ?_, forall_mem_append.mpr ⟨hends, hends'⟩⟩
  · rw [hrest, hrest', append_assoc]
  · rw [climb_append, hused, Option.bind_some, hmore]

lemma Passes.raise (h : Passes depth e s s') : Passes (depth + k) (e + k) s s' := by
  obtain ⟨used, hrest, hused, hends⟩ := h
  exact ⟨used, hrest, climb_raise hused, hends⟩

lemma Passes.at (h : Passes 0 0 s s') (depth : Nat) : Passes depth depth s s' := by
  have := h.raise (k := depth)
  rwa [Nat.zero_add] at this

lemma Adds.trans (h : Adds P s s') (h' : Adds P s' s'') : Adds P s s'' := by
  obtain ⟨new, hnew, hP⟩ := h
  obtain ⟨more, hmore, hP'⟩ := h'
  refine ⟨new ++ more, by rw [hmore, hnew, append_assoc], ?_⟩
  intro d hd
  exact (mem_append.mp hd).elim (hP d) (hP' d)

lemma Adds.imp {Q : Diagnostic → Prop} (h : Adds P s s') (hPQ : ∀ d, P d → Q d) : Adds Q s s' := by
  obtain ⟨new, hnew, hP⟩ := h
  exact ⟨new, hnew, fun d hd => hPQ d (hP d hd)⟩

lemma Adds.length_le (h : Adds P s s') : s.diagnostics.length ≤ s'.diagnostics.length := by
  obtain ⟨new, hnew, -⟩ := h
  rw [hnew, length_append]
  exact Nat.le_add_right _ _

lemma Adds.phase (h : Adds Mild s s') : Adds (fun d => d.phase = .parse) s s' :=
  h.imp fun _ hd => hd.phase

lemma Level.refl (s : State) : Level s s :=
  ⟨⟨[], rfl, rfl, forall_mem_nil _⟩, [], (append_nil _).symm, forall_mem_nil _⟩

lemma Level.trans (h : Level s s') (h' : Level s' s'') : Level s s'' :=
  ⟨h.passes.trans h'.passes, h.adds.trans h'.adds⟩

lemma Cut.after (h' : Cut e s' s'') (h : Passes depth e s s')
    (hadds : Adds (fun d => d.phase = .parse) s s') : Cut depth s s'' := by
  obtain ⟨k, hk⟩ := h'.passes
  exact ⟨⟨k, h.trans hk⟩, hadds.trans h'.adds, h'.ends⟩

lemma Level.cut (h : Level s s') (h' : Cut 0 s' s'') : Cut 0 s s'' :=
  h'.after h.passes h.adds.phase

lemma Cut.raise (h : Cut 0 s s') : Cut 1 s s' := by
  obtain ⟨k, hk⟩ := h.passes
  exact ⟨⟨k + 1, hk.raise (k := 1)⟩, h.adds, h.ends⟩

end Between

/-! ## Tokens and boundaries -/

lemma passes_advance {depth e} (h : s.current.kind ≠ .eof)
    (hnested : nested s.current.kind depth = some e) : Passes depth e s s.advance :=
  ⟨[s.current], (advance_of_ne h).1, by rw [climb, hnested]; rfl, forall_mem_singleton.mpr h⟩

lemma adds_advance (h : s.current.kind ≠ .eof) : Adds P s s.advance :=
  ⟨[], by rw [(advance_of_ne h).2, append_nil], forall_mem_nil _⟩

lemma level_advance (h : isInner s.current.kind) : Level s s.advance :=
  ⟨passes_advance (isInner_end h) (nested_plain (isInner_brace h)), adds_advance (isInner_end h)⟩

lemma mild_toDiagnostic {f : ParseFault} (h : f.kind ≠ .unbalancedBlock) (pos) :
    Mild (f.toDiagnostic pos) :=
  ⟨rfl, h⟩

lemma expected_kind (what : String) (found) :
    (ParseFault.expected what found).kind ≠ .unbalancedBlock := by
  show (if found.kind == .eof then _ else _ : ErrorKind) ≠ _
  split <;> simp

/-- After a fault was recorded and its statement skipped. -/
lemma recover_later (line : Nat) {d : Diagnostic} (hphase : d.phase = .parse)
    (hend : Level s s' ∧ Mild d ∨ Cut 0 s s') :
    Level s (s'.recover line d) ∨ Cut 0 s (s'.recover line d) := by
  obtain ⟨used, hrest, hused, hends⟩ := boundary_passes line s'.last s'.rest
  have hadds : ∀ {P : Diagnostic → Prop}, P d → Adds P s' (s'.recover line d) :=
    fun hd => ⟨[d], rfl, forall_mem_singleton.mpr hd⟩
  rcases hend with ⟨hlevel, hmild⟩ | hcut
  · rcases hused with hused | ⟨⟨k, hused⟩, heof⟩
    · exact .inl (hlevel.trans ⟨⟨used, hrest, hused, hends⟩, hadds hmild⟩)
    · exact .inr (hlevel.cut ⟨⟨k, used, hrest, hused, hends⟩, hadds hphase, heof⟩)
  · -- at the end nothing is left to skip
    have hstay : (boundary line 0 s'.last s'.rest).2 = s'.rest := by
      cases used with
      | nil => exact hrest.symm
      | cons t used =>
        have heof := hcut.ends
        rw [State.current, hrest] at heof
        exact absurd heof (hends t mem_cons_self)
    obtain ⟨k, hk⟩ := hcut.passes
    have hsame : Passes (k + 1) (k + 1) s' (s'.recover line d) :=
      ⟨[], hstay.symm, rfl, forall_mem_nil _⟩
    refine .inr ⟨⟨k, hk.trans hsame⟩, hcut.adds.trans (hadds hphase), ?_⟩
    show ((boundary line 0 s'.last s'.rest).2.headD endToken).kind = .eof
    rw [hstay]
    exact hcut.ends

/-! ## A reading and itself -/

section Alone

variable (τ : Token → Prop)

/-- A reading of tokens with a property, paired with itself.  A site is the state in which the group
    of the reader began. -/
def alone : Pairing where
  down := 0
  passed := τ
  closed := True
  Site := State
  inside _ σ := σ.1.advance
  states base σ := ∃ s, σ = (s, s) ∧ Level base s ∧ ∀ t ∈ base.rest, τ t
  faults base d d' σ := ∃ s, σ = (s, s) ∧ d' = d ∧ d.phase = .parse ∧
    (Level base s ∧ Mild d ∨ Cut 0 base s)
  lost base σ := ∃ s, σ = (s, s) ∧ Cut 0 base s ∧ base.diagnostics.length < s.diagnostics.length

variable {τ}

lemma Passes.mem {depth e} {t : Token} (h : Passes depth e s s') (ht : t ∈ s'.rest) :
    t ∈ s.rest := by
  obtain ⟨used, hrest, -⟩ := h
  rw [hrest]
  exact mem_append_right used ht

lemma current_mem (h : s.current.kind ≠ .eof) : s.current ∈ s.rest := by
  rw [(advance_of_ne h).1]
  exact mem_cons_self

lemma Level.group (h : Level s.advance s') (hopen : s.current.kind = .symbol .leftBrace)
    (hclose : s'.current.kind = .symbol .rightBrace) : Level s s'.advance := by
  have hne : s.current.kind ≠ .eof := by rw [hopen]; simp
  have hne' : s'.current.kind ≠ .eof := by rw [hclose]; simp
  have hinto : Passes 0 1 s s.advance := passes_advance hne (by rw [hopen]; rfl)
  have hout : Passes 1 0 s' s'.advance := passes_advance hne' (by rw [hclose]; rfl)
  exact ⟨hinto.trans ((h.passes.at 1).trans hout),
    (adds_advance hne).trans (h.adds.trans (adds_advance hne'))⟩

lemma Cut.group (hopen : s.current.kind = .symbol .leftBrace) (hend : s'.current.kind = .eof)
    (h : Level s.advance s' ∨ Cut 0 s.advance s') : Cut 0 s s' := by
  have hne : s.current.kind ≠ .eof := by rw [hopen]; simp
  have hinto : Passes 0 1 s s.advance := passes_advance hne (by rw [hopen]; rfl)
  rcases h with hlevel | hcut
  · exact ⟨⟨0, hinto.trans (hlevel.passes.at 1)⟩, (adds_advance hne).trans hlevel.adds.phase, hend⟩
  · exact hcut.raise.after hinto (adds_advance hne)

lemma alone_lawful : (alone τ).Lawful where
  around := by
    rintro base _ depth body ⟨s, rfl, hlevel, hτ⟩
    exact ⟨_, rfl, ⟨hlevel.passes, hlevel.adds⟩, hτ⟩
  around_fault := by
    rintro base d d' _ depth body ⟨s, rfl, rfl, hphase, hlevel | hcut⟩
    · exact ⟨_, rfl, rfl, hphase, .inl ⟨⟨hlevel.1.passes, hlevel.1.adds⟩, hlevel.2⟩⟩
    · exact ⟨_, rfl, rfl, hphase, .inr ⟨hcut.passes, hcut.adds, hcut.ends⟩⟩
  meets := by
    rintro base _ ⟨s, rfl, hlevel, hτ⟩ hne
    exact ⟨rfl, hτ _ (hlevel.passes.mem (current_mem hne))⟩
  ended := by
    rintro base _ ⟨s, rfl, -⟩ heof
    exact .inl heof
  same := by
    rintro base _ - ⟨s, rfl, -⟩
    rfl
  closes := fun _ _ => trivial
  opens := by
    rintro base _ sym ⟨s, rfl, -⟩ -
    rfl
  returns := by
    rintro base _ t ⟨s, rfl, -⟩ -
    rfl
  advance := by
    rintro base _ ⟨s, rfl, hlevel, hτ⟩ hinner
    exact ⟨_, rfl, hlevel.trans (level_advance hinner), hτ⟩
  report := by
    rintro base _ f pos ⟨s, rfl, hlevel, hτ⟩ hf
    refine ⟨_, rfl, hlevel.trans ⟨⟨[], rfl, rfl, forall_mem_nil _⟩, [f.toDiagnostic pos], rfl,
      ?_⟩, hτ⟩
    exact forall_mem_singleton.mpr (mild_toDiagnostic hf pos)
  fail := by
    rintro base _ f pos ⟨s, rfl, hlevel, -⟩ hf
    exact ⟨s, rfl, rfl, rfl, .inl ⟨hlevel, mild_toDiagnostic hf pos⟩⟩
  expected := by
    rintro base _ what ⟨s, rfl, hlevel, -⟩
    exact ⟨s, rfl, rfl, rfl, .inl ⟨hlevel, mild_toDiagnostic (expected_kind what _) _⟩⟩
  noTimeout := by
    rintro base _ ⟨s, rfl, hlevel, -⟩
    exact ⟨s, rfl, rfl, rfl, .inl ⟨hlevel, mild_toDiagnostic (by simp [ParseFault.kind]) _⟩⟩
  recover := by
    rintro base _ _ d d' ⟨s, rfl, -, hτ⟩ - ⟨t, rfl, rfl, hphase, hwhere⟩
    have hle : base.diagnostics.length ≤ t.diagnostics.length :=
      hwhere.elim (fun h => h.1.adds.length_le) fun h => h.adds.length_le
    refine (recover_later s.current.pos.line hphase hwhere).imp (fun h => ⟨_, rfl, h, hτ⟩)
      fun h => ?_
    refine ⟨_, rfl, h, ?_⟩
    show _ < (t.diagnostics ++ [_]).length
    rw [length_append]
    exact Nat.lt_succ_of_le hle
  lost_ends := by
    rintro base _ ⟨s, rfl, hcut, -⟩
    exact ⟨hcut.ends, hcut.ends⟩
  enter := by
    rintro base _ ⟨s, rfl, hlevel, hτ⟩ hopen
    have hne : s.current.kind ≠ .eof := by rw [hopen]; simp
    refine ⟨_, rfl, .refl _, fun t ht => hτ t (hlevel.passes.mem ?_)⟩
    rw [(advance_of_ne hne).1]
    exact mem_cons_of_mem _ ht
  leave := by
    rintro base _ _ ⟨s, rfl, hlevel, hτ⟩ hopen ⟨t, rfl, hinside, -⟩ hclose
    exact ⟨_, rfl, hlevel.trans (hinside.group hopen hclose), hτ⟩
  unclosed := by
    rintro base _ _ ⟨s, rfl, hlevel, -⟩ hopen (⟨t, rfl, hin, -⟩ | ⟨t, rfl, hcut, -⟩) hend
    · exact ⟨t, rfl, rfl, rfl, .inr (hlevel.cut (Cut.group hopen hend (.inl hin)))⟩
    · exact ⟨t, rfl, rfl, rfl, .inr (hlevel.cut (Cut.group hopen hend (.inr hcut)))⟩

end Alone

/-! ## Programs step by step -/

section Programs

variable {fuel : Nat} {p : Program}

lemma programRest_end (h : s.current.kind = .eof) : programRest fuel p s = (.ok p, s) := by
  cases fuel with
  | zero => rw [programRest]; rfl
  | succ fuel =>
    rw [programRest]
    show (if s.current.kind == .eof then _ else _ : Reader Program) s = _
    rw [if_pos (beq_iff_eq.mpr h)]
    rfl

lemma programRest_semicolon (h : s.current.kind = .symbol .semicolon) :
    programRest (fuel + 1) p s = programRest fuel p s.advance := by
  rw [programRest]
  show (if s.current.kind == .eof then _ else if
    (s.current.kind == .symbol .semicolon) then _ else _ : Reader Program) s = _
  rw [h]
  rfl

lemma programRest_brace (h : s.current.kind = .symbol .rightBrace) : programRest (fuel + 1) p s
      = programRest fuel p (s.report .unmatchedBrace s.current.pos).advance := by
  rw [programRest]
  show (if s.current.kind == .eof then _ else if
    (s.current.kind == .symbol .semicolon) then _ else if
    (s.current.kind == .symbol .rightBrace) then _ else _ : Reader Program) s = _
  rw [h]
  rfl

lemma programRest_item {o} (hend : s.current.kind ≠ .eof)
    (hsemi : s.current.kind ≠ .symbol .semicolon) (hclose : s.current.kind ≠ .symbol .rightBrace)
    (h : recovering (topLevel p) s = (.ok o, s')) :
    programRest (fuel + 1) p s = programRest fuel (o.getD p) s' := by
  rw [programRest]
  show (if s.current.kind == .eof then _ else if
    (s.current.kind == .symbol .semicolon) then _ else if
    (s.current.kind == .symbol .rightBrace) then _ else _ : Reader Program) s = _
  rw [if_neg (by rwa [beq_iff_eq]), if_neg (by rwa [beq_iff_eq]), if_neg (by rwa [beq_iff_eq]),
    bind_apply, h]
  cases o with
  | none => rfl
  | some q => rfl

end Programs

/-! ## Reading to the end -/

/-- What a reading to the end has passed and reported: tokens at one level and nothing about braces,
    or other tokens and something. -/
structure ReadsThrough (s s' : State) (used : List Token) (new : List Diagnostic) : Prop where
  rest : s.rest = used ++ s'.rest
  before : ∀ t ∈ used, t.kind ≠ .eof
  diagnostics : s'.diagnostics = s.diagnostics ++ new
  ends : s'.current.kind = .eof
  phase : ∀ d ∈ new, d.phase = .parse
  verdict : climb 0 used = some 0 ∧ (∀ d ∈ new, d.kind ≠ .unbalancedBlock)
    ∨ climb 0 used ≠ some 0 ∧ new ≠ []

section Reading

variable {used : List Token} {new : List Diagnostic}

lemma ReadsThrough.after (h : ReadsThrough s' s'' used new) (hlevel : Level s s') :
    ∃ used new, ReadsThrough s s'' used new := by
  obtain ⟨⟨first, hrest, hclimb, hends⟩, early, hearly, hmild⟩ := hlevel
  have hwhole : climb 0 (first ++ used) = climb 0 used := by
    rw [climb_append, hclimb, Option.bind_some]
  refine ⟨first ++ used, early ++ new, ?_, forall_mem_append.mpr ⟨hends, h.before⟩, ?_,
    h.ends, ?_, ?_⟩
  · rw [hrest, h.rest, append_assoc]
  · rw [h.diagnostics, hearly, append_assoc]
  · intro d hd
    exact (mem_append.mp hd).elim (fun hd => (hmild d hd).phase) (h.phase d)
  · rw [hwhole]
    rcases h.verdict with ⟨hused, hkinds⟩ | ⟨hused, hne⟩
    · refine .inl ⟨hused, ?_⟩
      intro d hd
      exact (mem_append.mp hd).elim (fun hd => (hmild d hd).kind) (hkinds d)
    · exact .inr ⟨hused, append_ne_nil_of_right_ne_nil _ hne⟩

lemma Cut.readsThrough (h : Cut 0 s s') (hmore : s.diagnostics.length < s'.diagnostics.length) :
    ∃ used new, ReadsThrough s s' used new := by
  obtain ⟨⟨k, used, hrest, hclimb, hends⟩, ⟨new, hnew, hphase⟩, hend⟩ := h
  refine ⟨used, new, hrest, hends, hnew, hend, hphase, .inr ⟨?_, ?_⟩⟩
  · rw [hclimb]
    simp
  · rintro rfl
    rw [hnew, append_nil] at hmore
    exact Nat.lt_irrefl _ hmore

lemma ReadsThrough.unmatched {t : State} {d}
    (hclose : s.current.kind = .symbol .rightBrace) (hrest : t.rest = s.rest)
    (hdiagnostics : t.diagnostics = s.diagnostics ++ [d]) (hphase : d.phase = .parse)
    (h : ReadsThrough t.advance s'' used new) : ∃ used new, ReadsThrough s s'' used new := by
  have hcurrent : t.current = s.current := by
    unfold current
    rw [hrest]
  have hne : t.current.kind ≠ .eof := by rw [hcurrent, hclose]; simp
  obtain ⟨hmoved, hsame⟩ := advance_of_ne hne
  refine ⟨t.current :: used, d :: new, ?_, forall_mem_cons.mpr ⟨hne, h.before⟩, ?_, h.ends, ?_,
    .inr ⟨?_, cons_ne_nil _ _⟩⟩
  · rw [← hrest, hmoved, cons_append]
    exact congrArg _ h.rest
  · rw [h.diagnostics, hsame, hdiagnostics, append_assoc]
    rfl
  · exact forall_mem_cons.mpr ⟨hphase, h.phase⟩
  · rw [climb_unmatched (by rw [hcurrent, hclose])]
    simp

end Reading

/-- A state at top level, with tokens of a property ahead. -/
structure Outside (τ : Token → Prop) (s : State) : Prop where
  tokens : ∀ t ∈ s.rest, τ t
  loopDepth : s.loopDepth = 0
  inBody : s.inBody = false

section Programs

variable {τ : Token → Prop}

lemma Outside.moved {n} (h : Outside τ s) (hm : Moved n s s')
    (hdepth : s'.loopDepth = s.loopDepth) (hbody : s'.inBody = s.inBody) : Outside τ s' := by
  obtain ⟨used, hrest, -⟩ := hm
  refine ⟨fun t ht => h.tokens t ?_, hdepth.trans h.loopDepth, hbody.trans h.inBody⟩
  rw [hrest]
  exact mem_append_right used ht

lemma Outside.advance (h : Outside τ s) (hne : s.current.kind ≠ .eof) : Outside τ s.advance :=
  h.moved (moved_advance hne) (around_advance s).1 (around_advance s).2

lemma Outside.at (hs : Outside τ s) :
    Pairing.At (⟨s, 0, false⟩ : (alone τ).Spot) (s, s) :=
  ⟨⟨⟨hs.loopDepth, hs.loopDepth⟩, hs.inBody, hs.inBody⟩, s, rfl, .refl s, hs.tokens⟩

lemma topLevel_recovers (q : Program) (hs : Outside τ s) (hend : s.current.kind ≠ .eof)
    (hclose : s.current.kind ≠ .symbol .rightBrace) :
    ∃ o t, recovering (topLevel q) s = (.ok o, t) ∧ Moved 1 s t ∧ Outside τ t ∧
      (∀ r, o = some r → ∃ part : Pairing.Part, r = part.addTo q ∧ Pairing.PartFrom τ part) ∧
      (Level s t ∨ o = none ∧ Cut 0 s t ∧ s.diagnostics.length < t.diagnostics.length) := by
  obtain ⟨o, o', υ, hrun, -, ho, hkept, hwhere, hm, -⟩ :=
    alone_lawful.recovering hs.at hend hclose (Pairing.topLevel_keeps alone_lawful hs.at rfl q q)
  refine ⟨o, υ.1, hrun, hm, hs.moved hm (hkept.depth.1.trans hs.loopDepth.symm)
    (hkept.body.1.trans hs.inBody.symm), ?_, ?_⟩
  · rintro r rfl
    cases ho with
    | some hread =>
      obtain ⟨part, hr, -, hpart, -⟩ := hread
      exact ⟨part, hr, hpart⟩
  · rcases hwhere with ⟨t, rfl, hlevel, -⟩ | ⟨hnone, t, rfl, hcut⟩
    · exact .inl hlevel
    · exact .inr ⟨hnone, hcut⟩

lemma ProgramFrom.add {q part} (hq : ProgramFrom τ q)
    (h : Pairing.PartFrom τ part) : ProgramFrom τ (part.addTo q) := by
  have hadd : ∀ {α : Type} {P : α → Prop} {as : List α} {b : α}, (∀ a ∈ as, P a) → P b →
      ∀ a ∈ as ++ [b], P a :=
    fun has hb => forall_mem_append.mpr ⟨has, forall_mem_singleton.mpr hb⟩
  cases h with
  | receive hh => exact { hq with receiveHandlers := hadd hq.receiveHandlers hh }
  | interval hh => exact { hq with intervalHandlers := hadd hq.intervalHandlers hh }
  | item hi =>
    cases hi with
    | stmt hst => exact { hq with statements := hadd hq.statements hst }
    | function hf => exact { hq with functions := hadd hq.functions hf }

/-- What reading to the end of a script comes to, with any budget that is enough. -/
structure Reaches (τ : Token → Prop) (q : Program) (s : State) (r : Program) (t : State) :
    Prop where
  runs : ∀ fuel, s.rest.length < fuel → programRest fuel q s = (.ok r, t)
  program : ProgramFrom τ r
  outside : Outside τ t
  reads : ∃ used new, ReadsThrough s t used new

lemma Reaches.after {q q' r t} (h : Reaches τ q' s' r t)
    (hstep : ∀ fuel, programRest (fuel + 1) q s = programRest fuel q' s') (hm : Moved 1 s s')
    (hreads : ∃ used new, ReadsThrough s t used new) : Reaches τ q s r t := by
  refine ⟨fun fuel hfuel => ?_, h.program, h.outside, hreads⟩
  have hle := hm.length_le
  cases fuel with
  | zero => omega
  | succ fuel => rw [hstep, h.runs fuel (by omega)]

/-- A script is read through to its end, whatever is wrong with it. -/
lemma programRest_reads (q : Program) (s : State) (hq : ProgramFrom τ q) (hs : Outside τ s) :
    ∃ r t, Reaches τ q s r t := by
  induction hn : s.rest.length using Nat.strongRecOn generalizing q s with
  | ind n ih =>
    by_cases hend : s.current.kind = .eof
    · exact ⟨q, s, fun _ _ => programRest_end hend, hq, hs, [], [], rfl, forall_mem_nil _,
        (append_nil _).symm, hend, forall_mem_nil _, .inl ⟨rfl, forall_mem_nil _⟩⟩
    have hlength := length_advance hend
    by_cases hsemi : s.current.kind = .symbol .semicolon
    · obtain ⟨r, t, h⟩ := ih _ (by omega) q s.advance hq (hs.advance hend) rfl
      obtain ⟨used, new, hreads⟩ := h.reads
      exact ⟨r, t, h.after (fun _ => programRest_semicolon hsemi) (moved_advance hend)
        (hreads.after (level_advance (by rw [hsemi]; rfl)))⟩
    by_cases hclose : s.current.kind = .symbol .rightBrace
    · obtain ⟨u, hu⟩ : ∃ u : State, u = s.report .unmatchedBrace s.current.pos := ⟨_, rfl⟩
      have hrest : u.rest = s.rest := by rw [hu]; rfl
      have hend' : u.current.kind ≠ .eof := by rw [hu]; exact hend
      have hmoved : Moved 1 s u.advance := by
        obtain ⟨used, hused, hmore⟩ := moved_advance hend'
        exact ⟨used, hrest ▸ hused, hmore⟩
      have hle := hmoved.length_le
      have houtside : Outside τ u := by rw [hu]; exact ⟨hs.tokens, hs.loopDepth, hs.inBody⟩
      obtain ⟨r, t, h⟩ := ih _ (by omega) q u.advance hq (houtside.advance hend') rfl
      obtain ⟨used, new, hreads⟩ := h.reads
      refine ⟨r, t, h.after (fun _ => ?_) hmoved
        (hreads.unmatched hclose hrest (by rw [hu]; rfl) rfl)⟩
      rw [hu]
      exact programRest_brace hclose
    obtain ⟨o, u, hrun, hm, houtside, hparts, hwhere⟩ := topLevel_recovers q hs hend hclose
    have hle := hm.length_le
    have hq' : ProgramFrom τ (o.getD q) := by
      cases o with
      | none => exact hq
      | some r =>
        obtain ⟨part, rfl, hpart⟩ := hparts r rfl
        exact hq.add hpart
    obtain ⟨r, t, h⟩ := ih _ (by omega) (o.getD q) u hq' houtside rfl
    refine ⟨r, t, h.after (fun _ => programRest_item hend hsemi hclose hrun) hm ?_⟩
    rcases hwhere with hlevel | ⟨-, hcut, hmore⟩
    · obtain ⟨used, new, hreads⟩ := h.reads
      exact hreads.after hlevel
    · -- at the end of a group that is not closed nothing follows
      obtain ⟨-, rfl⟩ := Prod.mk.inj ((h.runs _ (Nat.lt_succ_self _)).symm.trans
        (programRest_end hcut.ends))
      exact hcut.readsThrough hmore

lemma readable_from {tokens} (hend : ∀ t, t.kind = .eof → τ t)
    (htokens : ∀ t ∈ tokens, τ t) : ∀ t ∈ readable tokens, τ t := by
  have hvalid : ∀ t ∈ tokens.filter (fun t => t.kind != .invalid), τ t :=
    fun t ht => htokens t ((mem_filter.mp ht).1)
  unfold readable
  simp only
  split
  · intro t ht
    exact hend t (by rw [mem_singleton.mp ht]; rfl)
  · next last _ =>
      split
      · exact hvalid
      · exact forall_mem_append.mpr ⟨hvalid, forall_mem_singleton.mpr (hend _ rfl)⟩

/-- Where the reading of tokens begins. -/
def State.before (tokens : List Token) : State :=
  { rest := readable tokens, last := (readable tokens).headD endToken }

def keptProgram : Except Failure Program → Program
  | .ok p => p
  | .error _ => {}

lemma ofTokens_of_run {tokens result final}
    (h : programRest ((readable tokens).length + 1) {} (.before tokens) = (result, final)) :
    Program.ofTokens tokens = (keptProgram result,
      final.diagnostics ++ repeatedFunctions [] (keptProgram result).functions) := by
  have hrun : (programRest ((readable tokens).length + 1) {}).run (.before tokens)
      = (result, final) := h
  unfold before at hrun
  unfold Program.ofTokens
  simp only [hrun]
  cases result with
  | ok p => rfl
  | error e => rfl

lemma before_reads (tokens) (hend : ∀ t, t.kind = .eof → τ t) (htokens : ∀ t ∈ tokens, τ t) :
    ∃ r t, Reaches τ {} (.before tokens) r t :=
  programRest_reads {} (.before tokens)
    ⟨forall_mem_nil _, forall_mem_nil _, forall_mem_nil _, forall_mem_nil _⟩
    ⟨readable_from hend htokens, rfl, rfl⟩

lemma ofTokens_from (tokens) (hend : ∀ t, t.kind = .eof → τ t) (htokens : ∀ t ∈ tokens, τ t) :
    ProgramFrom τ (Program.ofTokens tokens).1 := by
  obtain ⟨r, t, h⟩ := before_reads tokens hend htokens
  rw [ofTokens_of_run (h.runs _ (Nat.lt_succ_self _))]
  exact h.program

end Programs

end CanScript.Parse
