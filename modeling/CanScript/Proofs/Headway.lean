import CanScript.Proofs.Nesting

/-! # Reading always makes headway

    Scripts and blocks are read in loops.  A statement that cannot be read may pass no token at all,
    and the search for a boundary may stop at once; but not both, for a statement that passes
    nothing leaves the search at its own first token, on the line where it began.  So every pass of
    a loop ends the loop or passes a token, whatever the tokens are and wherever they claim to
    stand. -/

namespace CanScript.Parse

open List

variable {α : Type} {s : State} {fuel : Nat}

/-! ## Statements -/

/-- A reader comes to an end, and reading goes on past its first token: behind what it has read, or
    behind what is skipped after its fault. -/
structure Headway (read : Reader α) (s : State) : Prop where
  reads {a t} : read s = (.ok a, t) → Moved 1 s t
  skips {d t} : read s = (.error (.fault d), t) →
    Moved 1 s (t.recover s.current.pos.line d)
  ends (t : State) : read s ≠ (.error .exhausted, t)

lemma Pairing.Keeps.headway {K : Pairing} {p : K.Spot} {V} {read : Reader α}
    (h : Keeps p 1 V read read (s, s)) (hend : s.current.kind ≠ .eof)
    (hclose : s.current.kind ≠ .symbol .rightBrace) : Headway read s := by
  have hends : Ends p 1 V (s, s) (read s) (read s) := h
  refine ⟨fun hrun => ?_, fun hrun => ?_, fun t hrun => ?_⟩
  · rw [hrun] at hends
    cases hends with
    | ok _ _ hm _ => exact hm
  · rw [hrun] at hends
    cases hends with
    | fault _ _ hm _ => exact hm.recover hend hclose _
  · rw [hrun] at hends
    cases hends

lemma Headway.recovering {read : Reader α} (h : Headway read s) :
    ∃ o t, Parse.recovering read s = (.ok o, t) ∧ Moved 1 s t := by
  rw [recovering_apply]
  rcases hrun : read s with ⟨(d | _) | a, t⟩
  · exact ⟨none, _, rfl, h.skips hrun⟩
  · exact absurd hrun (h.ends t)
  · exact ⟨some a, t, rfl, h.reads hrun⟩

lemma item_headway (hfuel : 8 * s.rest.length + 3 ≤ fuel) (hend : s.current.kind ≠ .eof)
    (hclose : s.current.kind ≠ .symbol .rightBrace) : Headway (item fuel) s := by
  have hat : Pairing.At (⟨s, s.loopDepth, s.inBody⟩ : (alone fun _ => True).Spot) (s, s) :=
    ⟨⟨⟨rfl, rfl⟩, rfl, rfl⟩, s, rfl, .refl s, fun _ _ => trivial⟩
  have hkeeps := (Pairing.statements_keep alone_lawful fuel fuel).item _ _ hat rfl ⟨hfuel, hfuel⟩
  exact hkeeps.headway hend hclose

lemma topLevel_headway {τ : Token → Prop} (p : Program) (hs : Outside τ s)
    (hend : s.current.kind ≠ .eof) (hclose : s.current.kind ≠ .symbol .rightBrace) :
    Headway (topLevel p) s :=
  (Pairing.topLevel_keeps alone_lawful hs.at rfl p p).headway hend hclose

/-! ## Passes -/

/-- A pass of the loop over a block closes it, gives it up at the end of the script, or is past a
    token and adds some statements to those that follow. -/
lemma blockRest_pass (hfuel : 8 * s.rest.length + 3 ≤ fuel) :
    (s.current.kind = .symbol .rightBrace ∧ blockRest (fuel + 1) s = (.ok [], s.advance)) ∨
    (s.current.kind = .eof ∧ blockRest (fuel + 1) s
      = (.error (.fault (ParseFault.unclosedBlock.toDiagnostic s.current.pos)), s)) ∨
    ∃ new t, Moved 1 s t ∧
      blockRest (fuel + 1) s = (do return new ++ (← blockRest fuel) : Reader (List Stmt)) t := by
  have hskip : ∀ t, (do return [] ++ (← blockRest fuel) : Reader (List Stmt)) t
      = blockRest fuel t := by
    intro t
    simp only [nil_append, bind_pure]
  by_cases heof : s.current.kind = .eof
  · exact .inr (.inl ⟨heof, Pairing.blockRest_end heof⟩)
  by_cases hclose : s.current.kind = .symbol .rightBrace
  · refine .inl ⟨hclose, ?_⟩
    rw [blockRest]
    show (if (s.current.kind == .symbol .rightBrace) = true then _ else _ :
      Reader (List Stmt)) s = _
    rw [if_pos (beq_iff_eq.mpr hclose)]
    rfl
  refine .inr (.inr ?_)
  rw [blockRest]
  show ∃ new t, _ ∧ (if (s.current.kind == .symbol .rightBrace) = true then _ else if
    (s.current.kind == .eof) = true then _ else if
    (s.current.kind == .symbol .semicolon) = true then _ else _ : Reader (List Stmt)) s = _
  rw [if_neg (by rwa [beq_iff_eq]), if_neg (by rwa [beq_iff_eq])]
  split
  · exact ⟨[], s.advance, moved_advance heof, (hskip _).symm⟩
  · obtain ⟨o, t, hrun, hm⟩ := (item_headway hfuel heof hclose).recovering
    rw [bind_apply, hrun]
    rcases o with _ | st | f
    · exact ⟨[], t, hm, (hskip t).symm⟩
    · exact ⟨[st], t, hm, rfl⟩
    · exact ⟨[], t.report (.nestedFunction f.name) f.pos, hm, (hskip _).symm⟩

lemma blockRest_ends (hfuel : 8 * s.rest.length + 4 ≤ fuel) :
    (∃ body t, blockRest fuel s = (.ok body, t) ∧ Moved 1 s t) ∨
      ∃ d t, blockRest fuel s = (.error (.fault d), t) ∧ Moved 0 s t ∧ t.current.kind = .eof := by
  induction fuel generalizing s with
  | zero => omega
  | succ fuel ih =>
    obtain ⟨hclose, hrun⟩ | ⟨heof, hrun⟩ | ⟨new, t, hm, hrun⟩ :=
      blockRest_pass (show 8 * s.rest.length + 3 ≤ fuel by omega)
    · exact .inl ⟨[], _, hrun, moved_advance (by rw [hclose]; simp)⟩
    · exact .inr ⟨_, s, hrun, .refl s, heof⟩
    · have hle := hm.length_le
      rw [hrun, bind_apply]
      obtain ⟨body, u, hrest, hmore⟩ | ⟨d, u, hrest, hmore, heof⟩ := ih (s := t) (by omega)
      · rw [hrest]
        exact .inl ⟨_, u, rfl, (hm.trans hmore).mono (by omega)⟩
      · rw [hrest]
        exact .inr ⟨d, u, rfl, (hm.trans hmore).mono (by omega), heof⟩

lemma programRest_pass {τ} (p) (hs : Outside τ s) :
    (s.current.kind = .eof ∧ ∀ fuel, programRest fuel p s = (.ok p, s)) ∨
    ∃ q t, Moved 1 s t ∧ Outside τ t ∧
      ∀ fuel, programRest (fuel + 1) p s = programRest fuel q t := by
  by_cases heof : s.current.kind = .eof
  · exact .inl ⟨heof, fun _ => programRest_end heof⟩
  by_cases hsemi : s.current.kind = .symbol .semicolon
  · exact .inr ⟨p, _, moved_advance heof, hs.advance heof, fun _ => programRest_semicolon hsemi⟩
  by_cases hclose : s.current.kind = .symbol .rightBrace
  · have hreport : Outside τ (s.report .unmatchedBrace s.current.pos) :=
      ⟨hs.tokens, hs.loopDepth, hs.inBody⟩
    exact .inr ⟨p, _, moved_advance (s := s.report .unmatchedBrace s.current.pos) heof,
      hreport.advance heof, fun _ => programRest_brace hclose⟩
  obtain ⟨o, t, hrun, hm, ht, -⟩ := topLevel_recovers p hs heof hclose
  exact .inr ⟨o.getD p, t, hm, ht, fun _ => programRest_item heof hsemi hclose hrun⟩

/-! ## Up to the end -/

lemma readable_ends (tokens) : ∃ t ∈ readable tokens, t.kind = .eof := by
  unfold readable
  simp only
  split
  · exact ⟨_, mem_singleton_self _, rfl⟩
  · next last hlast =>
      split
      · next heof => exact ⟨last, mem_of_getLast? hlast, eq_of_beq heof⟩
      · exact ⟨_, mem_append_right _ (mem_singleton_self _), rfl⟩

lemma ReadsThrough.dropWhile {t used new}
    (h : ReadsThrough s t used new) (hends : ∃ u ∈ s.rest, u.kind = .eof) :
    t.rest ≠ [] ∧ t.rest = s.rest.dropWhile fun u => u.kind != .eof := by
  obtain ⟨e, he, heof⟩ := hends
  have hcurrent : (t.rest.headD endToken).kind = .eof := h.ends
  rw [h.rest] at he ⊢
  rw [dropWhile_append_of_pos fun u hu => bne_iff_ne.mpr (h.before u hu)]
  cases hrest : t.rest with
  | nil =>
    rw [hrest, append_nil] at he
    exact absurd heof (h.before e he)
  | cons u rest =>
    rw [hrest] at hcurrent
    have hu : u.kind = .eof := hcurrent
    refine ⟨cons_ne_nil _ _, ?_⟩
    rw [dropWhile_cons_of_neg (by rw [hu]; decide)]

/-- **Reading makes headway.**  A pass over a script stops it at an end, and
    only there, or is past a token and at top level again; a pass over a block closes it, gives it
    up at an end, or is past a token.  In particular a statement is passed whether it can be read or
    not.  So a block is read to its brace or up to an end, and any tokens are read up to the first
    end among them. -/
theorem reading_makes_headway (tokens : List Token) :
    (∀ τ p s, Outside τ s →
      (s.current.kind = .eof ∧ ∀ fuel, programRest fuel p s = (.ok p, s)) ∨
      ∃ q t, Moved 1 s t ∧ Outside τ t ∧
        ∀ fuel, programRest (fuel + 1) p s = programRest fuel q t) ∧
    (∀ fuel s, 8 * s.rest.length + 3 ≤ fuel →
      (s.current.kind = .symbol .rightBrace ∧ blockRest (fuel + 1) s = (.ok [], s.advance)) ∨
      (s.current.kind = .eof ∧ blockRest (fuel + 1) s
        = (.error (.fault (ParseFault.unclosedBlock.toDiagnostic s.current.pos)), s)) ∨
      ∃ new t, Moved 1 s t ∧
        blockRest (fuel + 1) s = (do return new ++ (← blockRest fuel) : Reader (List Stmt)) t) ∧
    (∀ s, s.current.kind ≠ .eof → s.current.kind ≠ .symbol .rightBrace →
      (∀ τ p, Outside τ s → Headway (topLevel p) s) ∧
      ∀ fuel, 8 * s.rest.length + 3 ≤ fuel → Headway (item fuel) s) ∧
    (∀ fuel s, 8 * s.rest.length + 4 ≤ fuel →
      (∃ body t, blockRest fuel s = (.ok body, t) ∧ Moved 1 s t) ∨
        ∃ d t, blockRest fuel s = (.error (.fault d), t) ∧ Moved 0 s t ∧ t.current.kind = .eof) ∧
    Outside (fun _ => True) (.before tokens) ∧
    ∃ program final, (∀ fuel, (readable tokens).length < fuel →
        programRest fuel {} (.before tokens) = (.ok program, final)) ∧
      Program.ofTokens tokens
        = (program, final.diagnostics ++ repeatedFunctions [] program.functions) ∧
      final.rest ≠ [] ∧ final.rest = (readable tokens).dropWhile fun t => t.kind != .eof := by
  refine ⟨fun τ p s => programRest_pass p, fun fuel s => blockRest_pass, fun s hend hclose =>
    ⟨fun τ p hs => topLevel_headway p hs hend hclose, fun fuel hfuel =>
      item_headway hfuel hend hclose⟩, fun fuel s => blockRest_ends,
    ⟨fun _ _ => trivial, rfl, rfl⟩, ?_⟩
  obtain ⟨program, final, h⟩ := before_reads (τ := fun _ => True) tokens (fun _ _ => trivial)
    fun _ _ => trivial
  obtain ⟨used, new, hreads⟩ := h.reads
  exact ⟨program, final, h.runs, ofTokens_of_run (h.runs _ (Nat.lt_succ_self _)),
    hreads.dropWhile (readable_ends tokens)⟩

end CanScript.Parse
