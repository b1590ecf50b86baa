import CanScript.Proofs.Balance
import CanScript.Proofs.Tandem

/-! # Bad lines do no damage

    A line of a script may be cut off anywhere and may hold any number of faults.  If it has no
    braces and no condition, and what follows starts a statement or a declaration, then what follows
    is read as if the line were not there. -/

namespace CanScript

open List Token

namespace Parse

/-! ## Programs -/

variable {a : Ahead} {base base' : List Diagnostic} {s s' : State}

/-- The programs of two readings, the second of which had some parts before: it has the parts of the
    first after them, further down.  Where it has more to come, there are only statements yet. -/
structure Grown (a : Ahead) (before p p' : Program) : Prop where
  functions : p'.functions = before.functions ++ p.functions.map (Function.down a.down)
  receiveHandlers : p'.receiveHandlers
    = before.receiveHandlers ++ p.receiveHandlers.map (ReceiveHandler.down a.down)
  intervalHandlers : p'.intervalHandlers
    = before.intervalHandlers ++ p.intervalHandlers.map (IntervalHandler.down a.down)
  statements : p'.statements = before.statements ++ p.statements.map (Stmt.down a.down)
  plain : a.tail ≠ [] → p.functions = [] ∧ p.receiveHandlers = [] ∧ p.intervalHandlers = []

private lemma append_map_concat {α : Type} {f : α → α} {before items items' : List α} (x : α)
    (h : items' = before ++ items.map f) : items' ++ [f x] = before ++ (items ++ [x]).map f := by
  rw [h, map_append, append_assoc]
  rfl

lemma Grown.extends {before q q' r r'} (h : Grown a before q q')
    (hmore : Pairing.Extends (tandem a base base') q q' r r') : Grown a before r r' := by
  obtain ⟨part, rfl, rfl, -, hclosed⟩ := hmore
  have hplain : part.isStmt = false → ∀ {P : Prop}, a.tail ≠ [] → P :=
    fun hpart _ hne => absurd (hclosed hpart) hne
  cases part with
  | receive x =>
    exact { h with
      receiveHandlers := append_map_concat x h.receiveHandlers
      plain := hplain rfl }
  | interval x =>
    exact { h with
      intervalHandlers := append_map_concat x h.intervalHandlers
      plain := hplain rfl }
  | item i =>
    cases i with
    | stmt st => exact { h with statements := append_map_concat st h.statements }
    | function f =>
      exact { h with
        functions := append_map_concat f h.functions
        plain := hplain rfl }

/-- Two readings go abreast at top level. -/
abbrev AtTop (a : Ahead) (base base' : List Diagnostic) (s s' : State) : Prop :=
  Pairing.At (⟨(), 0, false⟩ : (tandem a base base').Spot) (s, s')

/-- Two readings of a script go abreast until the first has come to its end; the second goes on from
    there. -/
lemma programRest_tandem {before q q'} (fuel fuel') (hq : Grown a before q q')
    (hs : AtTop a base base' s s') (hfuel : s.rest.length < fuel)
    (hfuel' : s'.rest.length < fuel') :
    ∃ r r' t t' fuel'', programRest fuel q s = (.ok r, t) ∧ t.current.kind = .eof
      ∧ programRest fuel' q' s' = programRest fuel'' r' t' ∧ t'.rest.length < fuel''
      ∧ Grown a before r r' ∧ AtTop a base base' t t' := by
  have hK : (tandem a base base').Lawful := tandem_lawful
  induction fuel generalizing fuel' q q' s s' with
  | zero => omega
  | succ fuel ih =>
    by_cases hend : s.current.kind = .eof
    · exact ⟨q, q', s, s', fuel', programRest_end hend, hend, rfl, hfuel', hq, hs⟩
    cases fuel' with
    | zero => omega
    | succ fuel' =>
      have hcurrent : s'.current = s.current.down a.down := (hK.meets hs.states hend).1
      have hend' : s'.current.kind ≠ .eof := by rwa [hcurrent]
      have hlength := length_advance hend
      have hlength' := length_advance hend'
      by_cases hsemi : s.current.kind = .symbol .semicolon
      · rw [programRest_semicolon hsemi, programRest_semicolon (by rwa [hcurrent])]
        exact ih fuel' hq (hK.at_advance hs (by rw [hsemi]; rfl)) (by omega) (by omega)
      by_cases hclose : s.current.kind = .symbol .rightBrace
      · rw [programRest_brace hclose, programRest_brace (by rwa [hcurrent]), hcurrent]
        have hreport : Abreast a base base' (s.report .unmatchedBrace s.current.pos)
            (s'.report .unmatchedBrace (s.current.pos.down a.down)) := hs.states.report .same
        refine ih fuel' hq ⟨Pairing.Kept.advance (σ := (s.report .unmatchedBrace s.current.pos,
          s'.report .unmatchedBrace (s.current.pos.down a.down))) ⟨hs.depth, hs.body⟩,
          (hreport.advance hend).1⟩ ?_ ?_
        · rw [rest_advance_report]
          omega
        · rw [rest_advance_report]
          omega
      obtain ⟨o, o', ⟨t, t'⟩, hrun, hrun', ho, hkept, hwhere, hm, hm'⟩ :=
        hK.recovering hs hend hclose (Pairing.topLevel_keeps hK hs hcurrent q q')
      have hle : t.rest.length + 1 ≤ s.rest.length := hm.length_le
      have hle' : t'.rest.length + 1 ≤ s'.rest.length := hm'.length_le
      have hgrown : Grown a before (o.getD q) (o'.getD q') := by
        cases ho with
        | none => exact hq
        | some hread => exact hq.extends hread
      rw [programRest_item hend hsemi hclose hrun,
        programRest_item hend' (by rwa [hcurrent]) (by rwa [hcurrent]) hrun']
      exact ih fuel' hgrown ⟨hkept, hwhere.resolve_right fun hlost => hlost.2⟩
        (by show t.rest.length < fuel; omega) (by show t'.rest.length < fuel'; omega)

/-! ## Tokens -/

variable {ts : List Token}

lemma Follows.eq_tail {ts'} (h : Follows a ts ts')
    (hend : (ts.headD endToken).kind = .eof) (htail : a.tail ≠ []) : ts' = a.tail := by
  cases h with
  | cons hne _ _ => exact absurd hend hne
  | stop _ hnil => exact absurd hnil htail
  | onward _ hcons _ => exact hcons.symm

lemma follows_tail {e x xs} (hend : e.kind = .eof) (htail : a.tail = x :: xs)
    (hstart : startsItem x.kind) (hts : ∀ t ∈ ts, t.kind ≠ .eof ∧ Fits a t) :
    Follows a (ts ++ [e]) (ts.map (down a.down) ++ x :: xs) := by
  induction ts with
  | nil => exact .onward hend htail hstart
  | cons t ts ih =>
    obtain ⟨⟨hne, hfits⟩, hmore⟩ := forall_mem_cons.mp hts
    exact .cons hne hfits (ih hmore)

lemma follows_down {e} (hend : e.kind = .eof) (htail : a.tail = [])
    (hts : ∀ t ∈ ts, t.kind ≠ .eof) :
    Follows a (ts ++ [e]) ((ts ++ [e]).map (down a.down)) := by
  have hfits : ∀ t, Fits a t := by
    intro t
    refine ⟨fun x xs hcons => ?_, fun x xs hcons => ?_⟩ <;>
      · rw [htail] at hcons
        cases hcons
  induction ts with
  | nil => exact .stop hend htail
  | cons t ts ih =>
    obtain ⟨hne, hmore⟩ := forall_mem_cons.mp hts
    exact .cons hne (hfits t) (ih hmore)

lemma echoes_eq {k new new'}
    (h : List.Forall₂ (Echo k none) new new') : new' = new.map (Diagnostic.down k) := by
  induction h with
  | nil => rfl
  | cons hecho _ ih =>
    cases hecho with
    | same => rw [map_cons, ih]
    | expected _ hnone => cases hnone
    | noTimeout _ hnone => cases hnone

lemma repeatedFunctions_down (k seen fs) : repeatedFunctions seen (fs.map (Function.down k))
      = (repeatedFunctions seen fs).map (Diagnostic.down k) := by
  induction fs generalizing seen with
  | nil => rfl
  | cons f fs ih =>
    have htail := ih (f.name :: seen)
    rw [map_cons]
    unfold repeatedFunctions
    simp only [show (f.down k).name = f.name from rfl, htail]
    split <;> rfl

/-! ## Source texts -/

/-- What comes of two texts one after the other, the second `k` lines further down: all declarations
    are those of the second, its statements follow those of the first, and so do its errors, with
    nothing changed but the line.  The errors of the first are those that it has alone, up to what
    stands behind it. -/
structure Contained (k : Nat) (next : Token) (first second whole : Program × List Diagnostic) :
    Prop where
  functions : whole.1.functions = second.1.functions.map (Function.down k)
  receiveHandlers : whole.1.receiveHandlers = second.1.receiveHandlers.map (ReceiveHandler.down k)
  intervalHandlers :
    whole.1.intervalHandlers = second.1.intervalHandlers.map (IntervalHandler.down k)
  statements : whole.1.statements = first.1.statements ++ second.1.statements.map (Stmt.down k)
  errors : ∃ errors, List.Forall₂ (Echo 0 (some next)) first.2 errors
    ∧ whole.2 = errors ++ second.2.map (Diagnostic.down k)

def valid (ts : List Token) : List Token :=
  ts.filter fun t => t.kind != .invalid

lemma valid_down (k ts) : valid (ts.map (down k)) = (valid ts).map (down k) := by
  unfold valid
  rw [filter_map]
  rfl

lemma forall_valid {P : Token → Prop} (h : ∀ t ∈ ts, P t) : ∀ t ∈ valid ts, P t :=
  fun t ht => h t (mem_filter.mp ht).1

lemma Follows.abreast {ts'} (h : Follows a (readable ts) (readable ts')) :
    AtTop a [] [] (.before ts) (.before ts') := by
  refine ⟨⟨⟨rfl, rfl⟩, rfl, rfl⟩, h, ?_, ⟨[], [], rfl, rfl, .nil⟩⟩
  show (readable ts').headD endToken = ((readable ts).headD endToken).down a.down
    ∨ startsItem ((readable ts').headD endToken).kind
  have hmeets := h.head
  generalize (readable ts).headD endToken = t at hmeets ⊢
  generalize (readable ts').headD endToken = t' at hmeets ⊢
  cases hmeets with
  | same _ => exact .inl rfl
  | ends _ _ hstart => exact .inr hstart

section Contained

variable {k : Nat} {ls rs : List Token} {e e' x : Token}

def tailOf (k : Nat) (ts : List Token) (e : Token) : List Token :=
  (valid ts ++ [e]).map (Token.down k)

lemma tailOf_cons (hstart : startsItem x.kind) :
    tailOf k (x :: rs) e' = x.down k :: tailOf k rs e' := by
  have hvalid : valid (x :: rs) = x :: valid rs := by
    refine filter_cons_of_pos (bne_iff_ne.mpr fun hinvalid => ?_)
    rw [hinvalid] at hstart
    cases hstart
  unfold tailOf
  rw [hvalid]
  rfl

lemma readable_whole (hend' : e'.kind = .eof) :
    readable (ls ++ (rs ++ [e']).map (down k)) = valid ls ++ tailOf k rs e' := by
  have hend'' : (e'.down k).kind = .eof := hend'
  rw [map_append, map_singleton, ← append_assoc, readable_of_ends hend'']
  show valid (ls ++ rs.map (down k)) ++ [e'.down k] = _
  rw [show valid (ls ++ rs.map (down k)) = valid ls ++ valid (rs.map (down k)) from
    filter_append _ _, valid_down, tailOf, map_append, append_assoc]
  rfl

lemma first_abreast (hend : e.kind = .eof) (hend' : e'.kind = .eof) (hstart : startsItem x.kind)
    (hls : ∀ t ∈ ls, t.kind ≠ .eof ∧ isSimple t.kind ∧ t.pos.line < x.pos.line + k) :
    AtTop ⟨0, tailOf k (x :: rs) e'⟩ [] [] (.before (ls ++ [e]))
      (.before (ls ++ (x :: rs ++ [e']).map (down k))) := by
  refine Follows.abreast ?_
  rw [readable_of_ends hend, readable_whole hend', tailOf_cons hstart]
  have hsame : valid ls = (valid ls).map (down 0) := (map_id _).symm
  conv => arg 3; rw [hsame]
  refine follows_tail hend rfl hstart (forall_valid fun t ht => ?_)
  obtain ⟨hne, hsimple, hline⟩ := hls t ht
  refine ⟨hne, fun _ _ _ => hsimple, ?_⟩
  rintro y ys hy
  obtain ⟨rfl, -⟩ := List.cons.inj hy
  exact hline

lemma second_abreast {t' : State} (hend' : e'.kind = .eof) (hrs : ∀ t ∈ x :: rs, t.kind ≠ .eof)
    (hstart : startsItem x.kind) (hrest : t'.rest = tailOf k (x :: rs) e')
    (hdepth : t'.loopDepth = 0) (hbody : t'.inBody = false) :
    AtTop ⟨k, []⟩ [] t'.diagnostics (.before (x :: rs ++ [e'])) t' := by
  refine ⟨⟨⟨rfl, hdepth⟩, rfl, hbody⟩, ?_, .inr ?_, ⟨[], [], rfl, (append_nil _).symm, .nil⟩⟩
  · show Follows _ (readable (x :: rs ++ [e'])) t'.rest
    rw [hrest]
    rw [readable_of_ends hend']
    exact follows_down hend' rfl (forall_valid hrs)
  · show startsItem (t'.rest.headD endToken).kind
    rw [hrest, tailOf_cons hstart]
    exact hstart

lemma statements_down_zero {q} {t : State} {fuel} (hend : e.kind = .eof)
    (hls : ∀ t ∈ ls, t.kind ≠ .eof) (hfuel : (State.before (ls ++ [e])).rest.length < fuel)
    (h : programRest fuel {} (.before (ls ++ [e])) = (.ok q, t)) :
    q.statements.map (Stmt.down 0) = q.statements := by
  have hfollows : Follows ⟨0, []⟩ (valid ls ++ [e]) ((valid ls ++ [e]).map (down 0)) :=
    follows_down hend rfl (forall_valid hls)
  rw [show (valid ls ++ [e]).map (down 0) = _ from map_id _,
    show valid ls ++ [e] = _ from (readable_of_ends hend).symm] at hfollows
  have hnone : Grown ⟨0, []⟩ {} {} {} := ⟨rfl, rfl, rfl, rfl, fun h => absurd rfl h⟩
  obtain ⟨r, r', u, u', fuel', hread, hended, hread', -, hr, hu⟩ :=
    programRest_tandem fuel fuel hnone hfollows.abreast hfuel hfuel
  have hended' : u'.current.kind = .eof := by
    rw [hu.states.current_eq rfl]
    exact hended
  cases h.symm.trans hread
  cases h.symm.trans (hread'.trans (programRest_end hended'))
  exact hr.statements.symm

/-- **Tokens.**  Simple tokens do no damage to what follows them. -/
lemma ofTokens_contained (hend : e.kind = .eof) (hend' : e'.kind = .eof)
    (hrs : ∀ t ∈ x :: rs, t.kind ≠ .eof) (hstart : startsItem x.kind)
    (hls : ∀ t ∈ ls, t.kind ≠ .eof ∧ isSimple t.kind ∧ t.pos.line < x.pos.line + k) :
    Contained k (x.down k) (Program.ofTokens (ls ++ [e])) (Program.ofTokens (x :: rs ++ [e']))
      (Program.ofTokens (ls ++ (x :: rs ++ [e']).map (down k))) := by
  have hnone : Grown ⟨0, tailOf k (x :: rs) e'⟩ {} {} {} :=
    ⟨rfl, rfl, rfl, rfl, fun _ => ⟨rfl, rfl, rfl⟩⟩
  have htail : tailOf k (x :: rs) e' ≠ [] := by
    rw [tailOf_cons hstart]
    exact cons_ne_nil _ _
  -- up to the end of the first text
  obtain ⟨q, q', t, t', fuel, hfirst, hended, hwhole, hfuel, hq, ht⟩ :=
    programRest_tandem _ _ hnone (first_abreast hend hend' hstart hls) (Nat.lt_succ_self _)
      (Nat.lt_succ_self _)
  obtain ⟨hfunctions, hreceive, hinterval⟩ := hq.plain htail
  obtain ⟨new, new', hnew, hnew', hechoes⟩ := ht.states.diagnostics
  have hrest : t'.rest = tailOf k (x :: rs) e' := ht.states.tokens.eq_tail hended htail
  -- from there to the end of the second
  have hstarted : Grown ⟨k, []⟩ q' {} q' :=
    ⟨(append_nil _).symm, (append_nil _).symm, (append_nil _).symm,
      (append_nil _).symm, fun h => absurd rfl h⟩
  obtain ⟨r, r', u, u', fuel', hsecond, hended', hlast, -, hr, hu⟩ :=
    programRest_tandem _ _ hstarted (second_abreast hend' hrs hstart hrest ht.depth.2 ht.body.2)
      (Nat.lt_succ_self _) hfuel
  have hend'' : u'.current.kind = .eof := by
    rw [show u'.current = u.current.down k from hu.states.current_eq rfl]
    exact hended'
  have hall := hwhole.trans (hlast.trans (programRest_end hend''))
  obtain ⟨more, more', hmore, hmore', hechoes'⟩ := hu.states.diagnostics
  rw [ofTokens_of_run hfirst, ofTokens_of_run hsecond, ofTokens_of_run hall]
  have hnames : r'.functions = r.functions.map (Function.down k) := by
    rw [hr.functions, hq.functions, hfunctions]
    rfl
  refine ⟨hnames, ?_, ?_, ?_, new', ?_, ?_⟩
  · show r'.receiveHandlers = _
    rw [hr.receiveHandlers, hq.receiveHandlers, hreceive]
    rfl
  · show r'.intervalHandlers = _
    rw [hr.intervalHandlers, hq.intervalHandlers, hinterval]
    rfl
  · show r'.statements = q.statements ++ _
    rw [hr.statements, hq.statements,
      statements_down_zero hend (fun t ht => (hls t ht).1) (Nat.lt_succ_self _) hfirst]
    rfl
  · show List.Forall₂ _ (t.diagnostics ++ repeatedFunctions [] q.functions) new'
    rw [hnew, hfunctions]
    rw [tailOf_cons hstart] at hechoes
    simpa [repeatedFunctions] using hechoes
  · show u'.diagnostics ++ repeatedFunctions [] r'.functions
      = new' ++ (u.diagnostics ++ repeatedFunctions [] r.functions).map (Diagnostic.down k)
    rw [hnames, repeatedFunctions_down, hmore', hnew', hmore, echoes_eq hechoes']
    simp

end Contained

end Parse

/-- The program of a source text and the errors in how its words are put together. -/
def parsed (source : String) : Program × List Diagnostic :=
  Program.ofTokens (tokenize source).1

lemma tokenize_end (source) :
    ∃ ts e, (tokenize source).1 = ts ++ [e] ∧ e.kind = .eof ∧ ∀ t ∈ ts, t.kind ≠ .eof := by
  obtain ⟨ts, hts, hkinds⟩ := Scan.scanFrom_end .start source.toList
  exact ⟨ts, _, hts, rfl, hkinds⟩

lemma tokenize_above {line rest} (hline : '\n' ∉ line.toList) {t x} (ht : t ∈ (tokenize line).1)
    (hx : x ∈ (tokenize rest).1) : t.pos.line < x.pos.line + 1 := by
  have hupper := (Scan.scanFrom_lines .start line.toList t ht).2
  have hlower := (Scan.scanFrom_lines .start rest.toList x hx).1
  rw [Scan.line_after hline] at hupper
  exact Nat.lt_succ_of_le (Nat.le_trans hupper hlower)

/-- **A bad line does no damage.**  A line without braces and branches, with
    whatever else on it, leaves all that stands below it as it is where the text below begins with a
    word that starts a statement or a declaration. -/
theorem bad_line_contained (line rest : String) (x : Token) (hline : '\n' ∉ line.toList)
    (hsimple : ∀ t ∈ (tokenize line).1, Parse.isSimple t.kind = true)
    (hclosed : ∀ d ∈ (tokenize line).2, d.kind ≠ .unterminatedComment)
    (hfirst : (tokenize rest).1.head? = some x) (hstart : Parse.startsItem x.kind = true) :
    Parse.Contained 1 (x.down 1) (parsed line) (parsed rest) (parsed (line ++ "\n" ++ rest)) := by
  obtain ⟨ls, e, hls, hend, hkinds⟩ := tokenize_end line
  obtain ⟨rs, e', hrs, hend', hkinds'⟩ := tokenize_end rest
  have hx : x ∈ (tokenize rest).1 := mem_of_head? hfirst
  -- the text below is not empty, since its end starts nothing
  cases rs with
  | nil =>
    rw [hrs] at hfirst
    obtain rfl := Option.some.inj hfirst
    rw [hend'] at hstart
    cases hstart
  | cons y rs =>
    rw [hrs] at hfirst
    obtain rfl := Option.some.inj hfirst
    have hsimples : ∀ t ∈ ls, t.kind ≠ .eof ∧ Parse.isSimple t.kind = true
        ∧ t.pos.line < y.pos.line + 1 := by
      intro t ht
      have hmem : t ∈ (tokenize line).1 := hls ▸ mem_append_left _ ht
      exact ⟨hkinds t ht, hsimple t hmem, tokenize_above hline hmem hx⟩
    unfold parsed
    rw [tokenize_below line rest hclosed, count_eq_zero.mpr hline, hls, dropLast_concat,
      hrs]
    exact Parse.ofTokens_contained hend hend' hkinds' hstart hsimples

/-- A line with three errors, the last of them a call that is left open, above a handler and a
    statement with one error. -/
theorem bad_line_contained_open_call :
    (tokenize "on_receive(true) \x7b n += 1 \x7d var = 2").1.head?
        = some ⟨.keyword .onReceive, "on_receive", ⟨1, 1⟩⟩ ∧
      (parsed "x = = 1; var; send(2,").2.length = 3 ∧
      (parsed "on_receive(true) \x7b n += 1 \x7d var = 2").2.length = 1 ∧
      Parse.Contained 1 ⟨.keyword .onReceive, "on_receive", ⟨2, 1⟩⟩ (parsed "x = = 1; var; send(2,")
        (parsed "on_receive(true) \x7b n += 1 \x7d var = 2")
        (parsed ("x = = 1; var; send(2," ++ "\n" ++ "on_receive(true) \x7b n += 1 \x7d var = 2")) :=
  ⟨by decide +kernel, by decide +kernel, by decide +kernel,
    bad_line_contained _ _ ⟨.keyword .onReceive, "on_receive", ⟨1, 1⟩⟩ (by decide +kernel)
      (by decide +kernel) (by decide +kernel) (by decide +kernel) rfl⟩

end CanScript
