import CanScript.Proofs.Nesting

/-! # Balanced braces

    Reading a whole script passes all of its tokens, and complains about braces only where they are
    at fault: a script with balanced braces gets no such complaint, whatever else is wrong with it,
    and one whose braces are not balanced never goes without a complaint. -/

namespace CanScript

open List

namespace Parse

/-! ## Source texts -/

lemma climb_filter {keep} (depth ts) (h : ∀ t ∈ ts, keep t = false → isBrace t.kind = false) :
    climb depth (ts.filter keep) = climb depth ts := by
  induction ts generalizing depth with
  | nil => rfl
  | cons t ts ih =>
    have htail := fun d => ih d fun u hu => h u (mem_cons_of_mem t hu)
    cases hkeep : keep t with
    | true =>
      rw [filter_cons_of_pos hkeep, climb, climb]
      exact congrArg _ (funext htail)
    | false =>
      rw [filter_cons_of_neg (by rw [hkeep]; simp), htail, climb_plain (h t mem_cons_self hkeep)]

lemma readable_of_ends {ts e} (he : e.kind = .eof) :
    readable (ts ++ [e]) = ts.filter (fun t => t.kind != .invalid) ++ [e] := by
  have hvalid : (ts ++ [e]).filter (fun t => t.kind != .invalid)
      = ts.filter (fun t => t.kind != .invalid) ++ [e] := by
    rw [filter_append, filter_cons_of_pos (by rw [he]; rfl), filter_nil]
  unfold readable
  simp only [hvalid, getLast?_concat, beq_iff_eq.mpr he, if_true]

lemma climb_of_ends {ts used rest e depth} (he : e.kind = .eof) (hts : ∀ t ∈ ts, t.kind ≠ .eof)
    (hsplit : ts ++ [e] = used ++ rest) (hrest : (rest.headD endToken).kind = .eof) :
    climb depth used = climb depth ts := by
  have hend : isBrace e.kind = false := by rw [he]; rfl
  rcases append_eq_append_iff.mp hsplit with ⟨more, hused, hlast⟩ | ⟨more, hts', hrest'⟩
  · -- at most the end itself was passed as well
    have hmore : ∀ d, climb d more = some d := by
      intro d
      rcases append_eq_singleton_iff.mp hlast.symm with ⟨rfl, -⟩ | ⟨rfl, -⟩
      · rfl
      · rw [climb_plain hend, climb_nil]
    rw [hused, climb_append, funext hmore, Option.bind_fun_some]
  · cases more with
    | nil => rw [hts', append_nil]
    | cons t more =>
      rw [hrest', cons_append, headD_cons] at hrest
      refine absurd hrest (hts t ?_)
      rw [hts']
      exact mem_append_right _ mem_cons_self

lemma repeatedFunctions_kind (seen fs) :
    ∀ d ∈ repeatedFunctions seen fs, d.kind ≠ .unbalancedBlock := by
  induction fs generalizing seen with
  | nil => exact forall_mem_nil _
  | cons f fs ih =>
    have htail := ih (f.name :: seen)
    unfold repeatedFunctions
    simp only
    split
    · refine forall_mem_cons.mpr ⟨?_, htail⟩
      simp [ParseFault.toDiagnostic, ParseFault.kind]
    · exact htail

/-- What reading the tokens of a source comes to, in terms of its braces. -/
lemma ofTokens_braces (source : String) : climb 0 (tokenize source).1 = some 0
        ∧ (∀ d ∈ (Program.ofTokens (tokenize source).1).2, d.kind ≠ .unbalancedBlock)
      ∨ climb 0 (tokenize source).1 ≠ some 0 ∧ (Program.ofTokens (tokenize source).1).2 ≠ [] := by
  obtain ⟨ts, hts, hkinds⟩ := Scan.scanFrom_end .start source.toList
  obtain ⟨e, he⟩ : ∃ e : Token, e = ⟨.eof, "", Pos.start.after source.toList⟩ := ⟨_, rfl⟩
  have hend : e.kind = .eof := by rw [he]
  rw [show (tokenize source).1 = ts ++ [e] from he ▸ hts]
  -- neither the invalid tokens nor the end matter for the braces
  have hvalid : climb 0 (ts ++ [e]) = climb 0 (ts.filter fun t => t.kind != .invalid) := by
    rw [climb_filter]
    · exact climb_of_ends hend hkinds (append_nil _).symm rfl
    · intro t _ hinvalid
      rw [bne_eq_false_iff_eq.mp hinvalid]
      rfl
  obtain ⟨p, final, hreads⟩ :=
    before_reads (τ := fun _ => True) (ts ++ [e]) (fun _ _ => trivial) fun _ _ => trivial
  obtain ⟨used, new, h⟩ := hreads.reads
  have hdiagnostics : final.diagnostics = new := h.diagnostics
  have hused : climb 0 used = climb 0 (ts ++ [e]) := by
    rw [hvalid]
    refine climb_of_ends hend ?_ ?_ h.ends
    · intro t ht
      exact hkinds t (mem_filter.mp ht).1
    · rw [← readable_of_ends hend]
      exact h.rest
  rw [ofTokens_of_run (hreads.runs _ (Nat.lt_succ_self _)), ← hused, hdiagnostics]
  rcases h.verdict with ⟨hbalanced, hnew⟩ | ⟨hnot, hne⟩
  · refine .inl ⟨hbalanced, ?_⟩
    intro d hd
    exact (mem_append.mp hd).elim (hnew d) (repeatedFunctions_kind _ _ d)
  · exact .inr ⟨hnot, append_ne_nil_of_left_ne_nil hne _⟩

end Parse

/-- **Braces.**  If the braces of a source text are balanced, no error is
    about them, however many other errors there are; and if they are not balanced, there is an
    error. -/
theorem braces_balanced_or_reported (source : String) :
    (Balanced (tokenize source).1 →
      ∀ d ∈ (Program.ofTokens (tokenize source).1).2, d.kind ≠ .unbalancedBlock)
    ∧ (¬ Balanced (tokenize source).1 → (Program.ofTokens (tokenize source).1).2 ≠ []) := by
  rw [Parse.balanced_iff_climb]
  rcases Parse.ofTokens_braces source with ⟨hbalanced, hkinds⟩ | ⟨hnot, hsome⟩
  · exact ⟨fun _ => hkinds, fun h => absurd hbalanced h⟩
  · exact ⟨fun h => absurd h hnot, fun _ => hsome⟩

/-! ## No token is dropped in silence

What cannot be read as a word becomes an invalid token, and the parser passes over such tokens.
Each of them has a report of its own at the same place; the only other reports are of escapes,
which leave their string literal in the text. -/

namespace Scan

lemma piece_told {c rest p} (h : PieceSpec c rest p) (pos chars) :
    ((Piece.token? p pos chars).toList.filter (·.kind == .invalid)).map Token.pos
      = ((Piece.diagnostics p pos).filter (·.kind != .invalidEscape)).map Diagnostic.pos := by
  have hescapes : ∀ {faults}, OnlyEscapes faults →
      (reports pos faults).filter (·.kind != .invalidEscape) = [] := by
    intro faults hfaults
    refine filter_eq_nil_iff.mpr fun d hd => ?_
    obtain ⟨f, hf, rfl⟩ := mem_map.mp hd
    simp [LexFault.toDiagnostic, hfaults f hf]
  cases p with
  | gap n => rfl
  | token n kind =>
    obtain ⟨_, _, _, hvalid⟩ := h
    simp [Piece.token?, Piece.diagnostics, hvalid]
  | string n contents faults =>
    rw [Piece.diagnostics, hescapes h.2.2.1]
    rfl
  | bad n faults fault =>
    obtain ⟨_, hfaults, hfault⟩ := h
    rw [Piece.diagnostics, filter_append, hescapes hfaults]
    simp [Piece.token?, LexFault.toDiagnostic, hfault]

lemma scanFrom_told (pos cs) : ((scanFrom pos cs).1.filter (·.kind == .invalid)).map Token.pos
      = ((scanFrom pos cs).2.filter (·.kind != .invalidEscape)).map Diagnostic.pos := by
  induction pos, cs using scanFrom.induct with
  | case1 pos =>
    rw [scanFrom]
    rfl
  | case2 pos c rest p chars _ _ _ ih =>
    rw [scanFrom]
    simp only [filter_append, map_append]
    exact congr (congrArg _ (piece_told (piece_spec c rest) pos _)) ih

lemma scanFrom_phase (pos cs) : ∀ d ∈ (scanFrom pos cs).2, d.phase = .lex := by
  induction pos, cs using scanFrom.induct with
  | case1 pos =>
    rw [scanFrom]
    exact forall_mem_nil _
  | case2 pos c rest p chars _ _ _ ih =>
    have hreports : ∀ faults, ∀ d ∈ reports pos faults, d.phase = .lex := by
      intro faults d hd
      obtain ⟨f, -, rfl⟩ := mem_map.mp hd
      rfl
    rw [scanFrom]
    refine forall_mem_append.mpr ⟨?_, ih⟩
    cases piece c rest with
    | gap n | token n kind => exact forall_mem_nil _
    | string n contents faults => exact hreports faults
    | bad n faults fault =>
      exact forall_mem_append.mpr ⟨hreports faults, forall_mem_singleton.mpr rfl⟩

end Scan

/-- **Nothing is dropped in silence.**  The invalid tokens of a text and the
    reports of its scanning, those of escapes apart, stand at the same places one after the other.
    So if nothing is wrong with a program, its parser has seen every token. -/
theorem invalid_tokens_reported (source : String) :
    (∀ d ∈ (tokenize source).2, d.phase = .lex) ∧
    ((tokenize source).1.filter (·.kind == .invalid)).map Token.pos
      = ((tokenize source).2.filter (·.kind != .invalidEscape)).map Diagnostic.pos ∧
    ((Program.ofSource source).2 = [] →
      Parse.readable (tokenize source).1 = (tokenize source).1) := by
  have htold := Scan.scanFrom_told .start source.toList
  refine ⟨Scan.scanFrom_phase .start source.toList, htold, fun hclean => ?_⟩
  obtain ⟨ts, hts, -⟩ := Scan.scanFrom_end .start source.toList
  have hreports : (Scan.scanFrom .start source.toList).2 = [] :=
    (append_eq_nil_iff.mp hclean).1
  rw [hreports, hts, filter_append, map_append] at htold
  have hvalid := filter_eq_nil_iff.mp
    (map_eq_nil_iff.mp (append_eq_nil_iff.mp htold).1)
  rw [tokenize, hts, Parse.readable_of_ends rfl, filter_eq_self.mpr]
  intro t ht
  exact bne_iff_ne.mpr fun hinvalid => hvalid t ht (beq_iff_eq.mpr hinvalid)

theorem invalid_tokens_reported_escape :
    ((tokenize "\"a\\q\" # \"b\\z").1.filter (·.kind == .invalid)).map Token.pos
      = ((tokenize "\"a\\q\" # \"b\\z").2.filter (·.kind != .invalidEscape)).map Diagnostic.pos ∧
    Parse.readable (tokenize "print(1); // one").1 = (tokenize "print(1); // one").1 :=
  ⟨(invalid_tokens_reported _).2.1, (invalid_tokens_reported _).2.2 (by decide +kernel)⟩

end CanScript
