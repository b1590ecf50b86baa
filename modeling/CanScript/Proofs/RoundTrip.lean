import CanScript.Proofs.ReadBack

/-! # Programs are read back

    A program that was read from a source is written out, and the text is read as the same program
    again, but for its places.  The text is set in any style: it is the words of the program with
    blanks between them. -/

namespace CanScript

open List Parse Print Scan Program Token

/-- The source of a program in a style. -/
def Program.render (style : Style) (p : Program) : String :=
  String.ofList ((programWords style.spell p).flatMap (writtenWord style.after))

/-! ## The words of a program are genuine -/

variable {st : Stmt} {p : Program}

section Genuine

variable {style : Style}

variable (style) in
def StmtGenuine (st : Stmt) : Prop :=
  ∀ w ∈ stmtWords style.spell st, Genuine w.kind w.text.toList

lemma genuine_restWords {ss} (h : ∀ s ∈ ss, StmtGenuine style s) :
    ∀ w ∈ restWords style.spell ss, Genuine w.kind w.text.toList := by
  induction ss with
  | nil => exact forall_mem_cons.mpr ⟨.symbol, nofun⟩
  | cons s ss ih =>
    rw [forall_mem_cons] at h
    rw [restWords, forall_mem_append, forall_mem_cons]
    exact ⟨h.1, .symbol, ih h.2⟩

lemma genuine_exprWords {e} (h : ExprFrom Spelled e) :
    ∀ w ∈ exprWords style.spell e, Genuine w.kind w.text.toList :=
  fun w hw => (plain_exprWords h w hw).1

lemma genuine_dataWords {es} (h : ∀ e ∈ es, ExprFrom Spelled e) (x) :
    ∀ w ∈ dataWords style.spell es x, Genuine w.kind w.text.toList := by
  induction es with
  | nil =>
    cases x with
    | false => exact nofun
    | true => exact forall_mem_cons.mpr ⟨.symbol, forall_mem_cons.mpr ⟨.keyword, nofun⟩⟩
  | cons e es ih =>
    rw [forall_mem_cons] at h
    rw [dataWords, forall_mem_cons, forall_mem_append]
    exact ⟨.symbol, fun w hw => (plain_enclose (plain_exprWords h.1) _ w hw).1, ih h.2⟩

variable {depth : Nat} {body : Bool}

lemma genuine_stmtWords (h : StmtFrom Spelled depth body st) : StmtGenuine style st := by
  induction h with
  | @declare _ _ _ n value hn hvalue =>
    cases value with
    | none =>
      simp only [StmtGenuine, stmtWords, forall_mem_cons]
      exact ⟨.keyword, (plain_name hn).1, forall_mem_nil _⟩
    | some e =>
      simp only [StmtGenuine, stmtWords, forall_mem_cons]
      exact ⟨.keyword, (plain_name hn).1, .symbol, genuine_exprWords (hvalue e rfl)⟩
  | assign hn he =>
    simp only [StmtGenuine, stmtWords, forall_mem_cons]
    exact ⟨(plain_name hn).1, .symbol, genuine_exprWords he⟩
  | send hid hdata =>
    simp only [StmtGenuine, stmtWords, forall_mem_cons, forall_mem_append]
    exact ⟨.keyword, .symbol, genuine_exprWords hid, genuine_dataWords hdata _, .symbol,
      forall_mem_nil _⟩
  | delay he | print he =>
    simp only [StmtGenuine, stmtWords, forall_mem_cons]
    exact ⟨.keyword, genuine_exprWords he⟩
  | times he _ ih =>
    simp only [StmtGenuine, stmtWords, forall_mem_cons, forall_mem_append]
    exact ⟨.keyword, genuine_exprWords he, .symbol, genuine_restWords ih⟩
  | forever _ ih =>
    simp only [StmtGenuine, stmtWords, forall_mem_cons]
    exact ⟨.keyword, .symbol, genuine_restWords ih⟩
  | @when _ _ _ e yes no he _ _ ihyes ihno =>
    simp only [StmtGenuine, stmtWords, forall_mem_cons, forall_mem_append]
    refine ⟨.keyword, genuine_exprWords he, .symbol, genuine_restWords ihyes, ?_⟩
    cases no with
    | none => exact forall_mem_nil _
    | some ss =>
      simp only [otherwiseWords, forall_mem_cons]
      exact ⟨.keyword, .symbol, genuine_restWords (ihno ss rfl)⟩
  | @waitFor _ _ _ p m fallback hp hm _ ih =>
    simp only [StmtGenuine, stmtWords, forall_mem_cons, forall_mem_append]
    refine ⟨.keyword, .symbol, genuine_exprWords hp, .symbol, .keyword, .symbol,
      genuine_exprWords hm, .symbol, ?_⟩
    cases fallback with
    | none => exact forall_mem_nil _
    | some ss =>
      simp only [fallbackWords, forall_mem_cons]
      exact ⟨.symbol, genuine_restWords (ih ss rfl)⟩
  | @giveBack _ _ value hvalue =>
    cases value with
    | none => exact forall_mem_cons.mpr ⟨.keyword, forall_mem_nil _⟩
    | some e =>
      simp only [StmtGenuine, stmtWords, forall_mem_cons]
      exact ⟨.keyword, genuine_exprWords (hvalue e rfl)⟩
  | leave _ | again _ => exact forall_mem_cons.mpr ⟨.keyword, forall_mem_nil _⟩
  | eval he => exact genuine_exprWords he

lemma genuine_blockWords {ss} (h : BlockFrom Spelled depth body ss) :
    ∀ w ∈ blockWords style.spell ss, Genuine w.kind w.text.toList :=
  forall_mem_cons.mpr ⟨.symbol, genuine_restWords fun s hs => genuine_stmtWords (h s hs)⟩

lemma genuine_paramWords {names} (h : ∀ n ∈ names, NameFrom Spelled n) :
    ∀ w ∈ paramWords names, Genuine w.kind w.text.toList := by
  fun_induction paramWords names with
  | case1 => exact nofun
  | case2 n => exact forall_mem_cons.mpr ⟨(plain_name (h n (by simp))).1, nofun⟩
  | case3 n m ns ih =>
    rw [forall_mem_cons] at h
    simp only [forall_mem_cons]
    exact ⟨(plain_name h.1).1, .symbol, ih h.2⟩

lemma genuine_functionWords {f} (h : FunctionFrom Spelled f) :
    ∀ w ∈ functionWords style.spell f, Genuine w.kind w.text.toList := by
  simp only [functionWords, forall_mem_cons, forall_mem_append]
  exact ⟨.keyword, (plain_name h.name).1, .symbol, genuine_paramWords h.params, .symbol,
    genuine_blockWords h.body⟩

lemma genuine_receiveWords {h} (hh : ReceiveFrom Spelled h) :
    ∀ w ∈ receiveWords style.spell h, Genuine w.kind w.text.toList := by
  simp only [receiveWords, forall_mem_cons, forall_mem_append]
  exact ⟨.keyword, .symbol, genuine_exprWords hh.predicate, .symbol, genuine_blockWords hh.body⟩

lemma genuine_intervalWords {h} (hh : IntervalFrom Spelled h) :
    ∀ w ∈ intervalWords style.spell h, Genuine w.kind w.text.toList := by
  simp only [intervalWords, forall_mem_cons, forall_mem_append]
  exact ⟨.keyword, .symbol, genuine_exprWords hh.period, .symbol, genuine_blockWords hh.body⟩

lemma genuine_sequenceWords (h : StmtFrom Spelled depth body st) :
    ∀ w ∈ sequenceWords style.spell st, Genuine w.kind w.text.toList := by
  rw [sequenceWords, forall_mem_append]
  exact ⟨genuine_stmtWords h, forall_mem_cons.mpr ⟨.symbol, nofun⟩⟩

lemma genuine_programWords (style : Style) (h : ProgramFrom Spelled p) :
    ∀ w ∈ programWords style.spell p, Genuine w.kind w.text.toList := by
  simp only [programWords, forall_mem_append, mem_flatMap, forall_exists_index, and_imp]
  exact ⟨fun _ f hf => genuine_functionWords (h.functions f hf) _,
    fun _ r hr => genuine_receiveWords (h.receiveHandlers r hr) _,
    fun _ i hi => genuine_intervalWords (h.intervalHandlers i hi) _,
    fun _ s hs => genuine_sequenceWords (h.statements s hs) _⟩

end Genuine

/-! ## Functions and handlers -/

section Parts

variable {style : Style} {ts : List Token}

lemma params_readBack {names} (hts : ts.map lexeme = paramWords names) :
    ParamsRead names ts := by
  fun_induction paramWords names generalizing ts with
  | case1 => exact .inr ⟨rfl, lexemes_nil hts⟩
  | case2 n =>
    simp only [lexemes_iff] at hts
    obtain ⟨t, _, rfl, ht, htext, rfl⟩ := hts
    cases htext
    exact .inl (.last ht)
  | case3 n m ns ih =>
    simp only [lexemes_iff] at hts
    obtain ⟨t, _, rfl, ht, htext, comma, rest, rfl, hcomma, -, hrest1⟩ := hts
    cases htext
    rcases ih hrest1 with hnames | ⟨hnil, -⟩
    · exact .inl (.more ht hcomma hnames)
    · cases hnil

lemma function_readBack {f} (h : FunctionFrom Spelled f)
    (hts : ts.map lexeme = functionWords style.spell f) (hlaid : Laid style ts) :
    ∃ f', FunctionReads f' ts ∧ f'.unplaced = f.unplaced := by
  simp only [functionWords, lexemes_iff] at hts
  obtain ⟨k, _, rfl, hk, -, n, _, rfl, hn, htext, o, _, rfl, ho, -, ps, _, rfl, hps, c, bs,
    rfl, hc, -, hbs⟩ := hts
  obtain ⟨body, hbody, heq⟩ := block_readBack (fun s hs => stmtWords_reads (h.body s hs)) hbs
    hlaid.tail.tail.tail.right.tail
  exact ⟨_, .mk hk hn ho (params_readBack hps) h.distinct hc hbody,
    by simp only [Function.unplaced, heq, htext]⟩

lemma receive_readBack {h} (hh : ReceiveFrom Spelled h)
    (hts : ts.map lexeme = receiveWords style.spell h) (hlaid : Laid style ts) :
    ∃ h', ReceiveReads h' ts ∧ h'.unplaced = h.unplaced := by
  simp only [receiveWords, lexemes_iff] at hts
  obtain ⟨k, _, rfl, hk, -, o, _, rfl, ho, -, es, _, rfl, hes, c, bs, rfl, hc, -, hbs⟩ := hts
  obtain ⟨e', hreads, heq⟩ := expr_readBack hh.predicate hes hlaid.tail.tail.left
  obtain ⟨body, hbody, heqs⟩ := block_readBack (fun s hs => stmtWords_reads (hh.body s hs)) hbs
    hlaid.tail.tail.right.tail
  exact ⟨_, .mk hk ho hreads hc hbody, by simp only [ReceiveHandler.unplaced, heq, heqs]⟩

lemma interval_readBack {h} (hh : IntervalFrom Spelled h)
    (hts : ts.map lexeme = intervalWords style.spell h) (hlaid : Laid style ts) :
    ∃ h', IntervalReads h' ts ∧ h'.unplaced = h.unplaced := by
  simp only [intervalWords, lexemes_iff] at hts
  obtain ⟨k, _, rfl, hk, -, o, _, rfl, ho, -, es, _, rfl, hes, c, bs, rfl, hc, -, hbs⟩ := hts
  obtain ⟨e', hreads, heq⟩ := expr_readBack hh.period hes hlaid.tail.tail.left
  obtain ⟨body, hbody, heqs⟩ := block_readBack (fun s hs => stmtWords_reads (hh.body s hs)) hbs
    hlaid.tail.tail.right.tail
  exact ⟨_, .mk hk ho hreads hc hbody, by simp only [IntervalHandler.unplaced, heq, heqs]⟩

lemma sequence_readBack (h : StmtFrom Spelled 0 false st)
    (hts : ts.map lexeme = sequenceWords style.spell st) (hlaid : Laid style ts) :
    ∃ st', (∀ p p' rest, ScriptReads { p with statements := p.statements ++ [st'] } rest p' →
      ScriptReads p (ts ++ rest) p') ∧ st'.unplaced = st.unplaced := by
  simp only [sequenceWords, lexemes_iff] at hts
  obtain ⟨us, _, rfl, hus, semi, _, rfl, hsemi, -, rfl⟩ := hts
  obtain ⟨st', hst, heq⟩ := stmtWords_reads h us hus hlaid.left
  refine ⟨st', fun p p' rest hrest => ?_, heq⟩
  rw [append_assoc]
  exact .stmt hst hsemi hrest

lemma parts_readBack {α : Type} {words} (forget : α → α) (extend : Program → List α → Program)
    (hnil : ∀ p, extend p [] = p)
    (happend : ∀ p as bs, extend (extend p as) bs = extend p (as ++ bs)) {as : List α}
    (h : ∀ a ∈ as, ∀ ts, ts.map lexeme = words a → Laid style ts → ∃ a',
      (∀ p p' rest, ScriptReads (extend p [a']) rest p' → ScriptReads p (ts ++ rest) p')
        ∧ forget a' = forget a) (hts : ts.map lexeme = as.flatMap words)
    (hlaid : Laid style ts) :
    ∃ as', (∀ p p' rest, ScriptReads (extend p as') rest p' → ScriptReads p (ts ++ rest) p')
      ∧ as'.map forget = as.map forget := by
  induction as generalizing ts with
  | nil =>
    obtain rfl := lexemes_nil hts
    exact ⟨[], fun p p' rest hrest => by rwa [hnil] at hrest, rfl⟩
  | cons a as ih =>
    rw [forall_mem_cons] at h
    rw [flatMap_cons] at hts
    obtain ⟨us, vs, rfl, hus, hvs⟩ := map_eq_append_iff.mp hts
    obtain ⟨a', ha, heq⟩ := h.1 us hus hlaid.left
    obtain ⟨as', has, heqs⟩ := ih h.2 hvs hlaid.right
    refine ⟨a' :: as', fun p p' rest hrest => ?_, by rw [map_cons, heq, heqs, map_cons]⟩
    rw [append_assoc]
    refine ha p p' _ (has _ p' rest ?_)
    rwa [happend]

end Parts

/-! ## Programs -/

/-- The words of a program that was read from a source, set by the style, are a script of it. -/
lemma programWords_reads {style} (h : ProgramFrom Spelled p) {ts}
    (hts : ts.map lexeme = programWords style.spell p) (hlaid : Laid style ts) (eof)
    (heof : eof.kind = .eof) :
    ∃ p', ScriptReads {} (ts ++ [eof]) p' ∧ p'.unplaced = p.unplaced := by
  simp only [programWords, lexemes_iff] at hts
  obtain ⟨fts, _, rfl, hfts, rts, _, rfl, hrts, its, sts, rfl, hits, hsts⟩ := hts
  obtain ⟨fs, hfs, hfeq⟩ := parts_readBack Function.unplaced
    (fun p fs => { p with functions := p.functions ++ fs }) (by simp) (by simp)
    (fun f hf us hus hu =>
      have ⟨f', hreads, heq⟩ := function_readBack (h.functions f hf) hus hu
      ⟨f', fun _ _ _ => .function hreads, heq⟩) hfts hlaid.left
  obtain ⟨rs, hrs, hreq⟩ := parts_readBack ReceiveHandler.unplaced
    (fun p rs => { p with receiveHandlers := p.receiveHandlers ++ rs })
    (by simp) (by simp)
    (fun r hr us hus hu =>
      have ⟨r', hreads, heq⟩ := receive_readBack (h.receiveHandlers r hr) hus hu
      ⟨r', fun _ _ _ => .receive hreads, heq⟩) hrts hlaid.right.left
  obtain ⟨is, his, hieq⟩ := parts_readBack IntervalHandler.unplaced
    (fun p is => { p with intervalHandlers := p.intervalHandlers ++ is })
    (by simp) (by simp)
    (fun i hi us hus hu =>
      have ⟨i', hreads, heq⟩ := interval_readBack (h.intervalHandlers i hi) hus hu
      ⟨i', fun _ _ _ => .interval hreads, heq⟩) hits hlaid.right.right.left
  obtain ⟨ss, hss, hseq⟩ := parts_readBack Stmt.unplaced
    (fun p ss => { p with statements := p.statements ++ ss }) (by simp) (by simp)
    (fun s hs us hus hu => sequence_readBack (h.statements s hs) hus hu) hsts
    hlaid.right.right.right
  refine ⟨⟨fs, rs, is, ss⟩, ?_, by rw [unplaced, hfeq, hreq, hieq, hseq, unplaced]⟩
  simp only [append_assoc]
  exact hfs _ _ _ (hrs _ _ _ (his _ _ _ (hss _ _ _ (.done heof))))

lemma repeatedFunctions_eq_nil {seen} {fs gs : List Function}
    (hnames : gs.map (·.name) = fs.map (·.name)) (h : repeatedFunctions seen fs = []) :
    repeatedFunctions seen gs = [] := by
  induction fs generalizing seen gs with
  | nil =>
    obtain rfl := map_eq_nil_iff.mp hnames
    rfl
  | cons f fs ih =>
    obtain ⟨g, gs, rfl, hg, hgs⟩ := map_eq_cons_iff.mp hnames
    rw [repeatedFunctions] at h ⊢
    rw [hg]
    split at h
    · cases h
    · next hnew =>
        rw [if_neg hnew]
        exact ih hgs h

lemma names_of_unplaced {q : Program} (h : p.unplaced = q.unplaced) :
    p.functions.map (·.name) = q.functions.map (·.name) := by
  have hfunctions := congrArg (fun r : Program => r.functions.map (·.name)) h
  simpa only [unplaced, map_map, Function.comp_def, Function.unplaced] using hfunctions

lemma repeatedFunctions_of_ofTokens {tokens} (h : (ofTokens tokens).2 = []) :
    repeatedFunctions [] (ofTokens tokens).1.functions = [] := by
  rcases hrun : programRest ((readable tokens).length + 1) {} (.before tokens) with ⟨result, final⟩
  rw [ofTokens_of_run hrun] at h ⊢
  exact (append_eq_nil_iff.mp h).2

/-- **Round trip.**  If nothing is wrong with a source, the text of its program
    in any style is one that nothing is wrong with either, and gives the program again but for its
    places. -/
theorem ofSource_render (style : Style) (source : String)
    (h : (Program.ofSource source).2 = []) :
    (Program.ofSource ((Program.ofSource source).1.render style)).2 = []
      ∧ (Program.ofSource ((Program.ofSource source).1.render style)).1.unplaced
        = (Program.ofSource source).1.unplaced := by
  obtain ⟨-, hparsed⟩ := append_eq_nil_iff.mp h
  -- the words of the program come from the source, and so are genuine
  have hfrom : ProgramFrom Spelled (Program.ofSource source).1 :=
    ofTokens_from _ (fun t ht _ hne => absurd ht hne) (tokenize_spelled source)
  have hgenuine := genuine_programWords style hfrom
  -- genuine words are scanned as themselves, and their tokens are a script
  obtain ⟨ts, end', hscan, hlexemes, hlines⟩ := scanFrom_words style.after_blank hgenuine .start
  obtain ⟨p, hscript, heq⟩ := programWords_reads hfrom hlexemes ⟨_, hlines⟩
    ⟨.eof, "", end'⟩ rfl
  have hvalid : ∀ t ∈ ts ++ [⟨.eof, "", end'⟩], t.kind ≠ .invalid := by
    intro t ht
    rcases mem_append.mp ht with ht | ht
    · exact (hgenuine t.lexeme (hlexemes ▸ mem_map_of_mem ht)).ne_invalid
    · rw [mem_singleton.mp ht]
      exact nofun
  -- the one check that is made of a whole program looks only at names
  have hrepeated := repeatedFunctions_eq_nil (names_of_unplaced heq)
    (repeatedFunctions_of_ofTokens hparsed)
  have htokens : tokenize ((Program.ofSource source).1.render style)
      = (ts ++ [⟨.eof, "", end'⟩], []) := by
    rw [tokenize, Program.render, String.toList_ofList, hscan]
  have hread : Program.ofSource ((Program.ofSource source).1.render style) = (p, []) := by
    rw [Program.ofSource, htokens]
    simp only [hscript.ofTokens hvalid, hrepeated, append_nil]
  rw [hread]
  exact ⟨rfl, heq⟩

open Classical in
/-- A style with a line for every statement and brace.  A floating-point number of a source is
    spelled as some source spells it. -/
noncomputable def Style.lined : Style where
  spell x :=
    if h : ∃ cs, Genuine .float cs ∧ Number.readFloat? cs = some x then String.ofList h.choose
    else ""
  spell_reads := by
    intro x hx
    rw [dif_pos hx, String.toList_ofList]
    exact hx.choose_spec
  after w := if w.kind.endsLine then '\n' else ' '
  after_blank := by
    intro w
    split <;> rfl
  after_line := by
    intro w hw
    split at hw
    · assumption
    · cases hw

/-- A source with branches, loops, and words that only brackets keep apart. -/
def mixedSource : String :=
  "function f(a) \x7b if a > 0 \x7b return -(a + 1) * 2 \x7d return \x7d\n"
    ++ "repeat 3 \x7b send(0x123, f(1) ? 2 : 3, (ext)) \x7d print \"\\\"\\n\""

theorem ofSource_render_lined :
    (Program.ofSource mixedSource).2 = []
      ∧ (Program.ofSource ((Program.ofSource mixedSource).1.render .lined)).2 = []
      ∧ (Program.ofSource ((Program.ofSource mixedSource).1.render .lined)).1.unplaced
        = (Program.ofSource mixedSource).1.unplaced := by
  have h : (Program.ofSource mixedSource).2 = [] := by decide +kernel
  exact ⟨h, ofSource_render .lined mixedSource h⟩

end CanScript
