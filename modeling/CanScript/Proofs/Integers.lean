import CanScript.Proofs.Conversion
import Mathlib.Data.Nat.Digits.Defs

/-! # Integer literals

    An integer literal is a run of decimal digits, a run of hexadecimal digits after a mark, or a
    run of decimal digits for a number of seconds.  The digits may be any number, zeros in front
    included.  The literal stands for the number that the digits denote if that has 63 bits at most,
    and for seconds the same goes for the milliseconds; otherwise it is reported once, where it
    stands. -/

namespace CanScript

open List Scan Program

namespace Number

def digitsValue (base : Nat) (ds : List Char) : Nat :=
  Nat.ofDigits base (ds.reverse.map fun c => (digitValue? 16 c).getD 0)

lemma digitsValue_append (base ds c) :
    digitsValue base (ds ++ [c]) = digitsValue base ds * base + (digitValue? 16 c).getD 0 := by
  rw [digitsValue, reverse_append, reverse_singleton, singleton_append, map_cons, Nat.ofDigits_cons,
    Nat.mul_comm, Nat.add_comm]
  rfl

lemma readDigitsFrom?_digitsValue {base front ds}
    (h : ∀ c ∈ ds, digitValue? base c = some ((digitValue? 16 c).getD 0)) :
    readDigitsFrom? base (digitsValue base front) ds = some (digitsValue base (front ++ ds)) := by
  induction ds generalizing front with
  | nil => rw [append_nil, readDigitsFrom?]
  | cons c ds ih =>
    obtain ⟨hc, hds⟩ := forall_mem_cons.mp h
    rw [readDigitsFrom?, hc]
    show readDigitsFrom? base (digitsValue base front * base + _) ds = _
    rw [← digitsValue_append, ih hds, append_assoc, singleton_append]

lemma toNat_lt_of_isHexDigit {c} (h : isHexDigit c) : c.toNat < 103 := by
  have hle : ∀ d, d.toNat < 103 → c ≤ d → c.toNat < 103 := fun d hd hcd =>
    Nat.lt_of_le_of_lt hcd hd
  simp only [isHexDigit, Char.isDigit, Bool.or_eq_true, Bool.and_eq_true, decide_eq_true_eq] at h
  rcases h with (⟨-, h⟩ | ⟨-, h⟩) | ⟨-, h⟩
  · exact hle '9' (by decide) h
  · exact hle 'f' (by decide) h
  · exact hle 'F' (by decide) h

lemma digitValue?_of_isHexDigit {c} (h : isHexDigit c) :
    digitValue? 16 c = some ((digitValue? 16 c).getD 0) := by
  have htable : ∀ e < 103, isHexDigit (Char.ofNat e) →
      digitValue? 16 (Char.ofNat e) = some ((digitValue? 16 (Char.ofNat e)).getD 0) := by decide
  have hc := htable c.toNat (toNat_lt_of_isHexDigit h)
  rw [Char.ofNat_toNat] at hc
  exact hc h

lemma digitValue?_of_isDigit {c : Char} (h : c.isDigit) :
    digitValue? 10 c = some ((digitValue? 16 c).getD 0) := by
  have htable : ∀ e < 103, (Char.ofNat e).isDigit →
      digitValue? 10 (Char.ofNat e) = some ((digitValue? 16 (Char.ofNat e)).getD 0) := by decide
  have hc := htable c.toNat (toNat_lt_of_isHexDigit (by rw [isHexDigit, h]; rfl))
  rw [Char.ofNat_toNat] at hc
  exact hc h

lemma readInt64?_digitsValue {base ds} {p : Char → Bool} (hne : ds ≠ []) (hds : ∀ c ∈ ds, p c)
    (hminus : p '-' = false) (hplus : p '+' = false)
    (hp : ∀ c, p c → digitValue? base c = some ((digitValue? 16 c).getD 0)) :
    readInt64? base ds = int64? (digitsValue base ds) := by
  rw [readInt64?_of_unsigned (unsigned_of_class hminus hplus hds), readDigits?_of_ne_nil hne,
    show (0 : Nat) = digitsValue base [] from rfl,
    readDigitsFrom?_digitsValue fun c hc => hp c (hds c hc)]
  rfl

end Number

/-- An integer literal: what it is scanned as, its text, and the number that it stands for. -/
inductive IntegerText : TokenKind → List Char → Nat → Prop where
  | decimal {ds} : IsNumeral ds → IntegerText .number ds (Number.digitsValue 10 ds)
  | hexadecimal {x : Char} {ds} : x = 'x' ∨ x = 'X' → ds ≠ [] → (∀ c ∈ ds, isHexDigit c = true) →
      IntegerText .hexNumber ('0' :: x :: ds) (Number.digitsValue 16 ds)
  | seconds {ds} : IsNumeral ds →
      IntegerText .seconds (ds ++ ['s']) (Number.digitsValue 10 ds * 1000)

/-- The literal of a number: a number of seconds stands for milliseconds. -/
def TokenKind.literal (kind : TokenKind) (n : Int64) : Literal :=
  if kind = .seconds then .millis n else .int n

variable {kind : TokenKind} {cs : List Char} {v : Nat}

lemma IntegerText.genuine (h : IntegerText kind cs v) : Genuine kind cs := by
  cases h with
  | decimal hds => exact .number hds
  | hexadecimal hx hne hds => exact .hexNumber hx hne hds
  | seconds hds => exact .seconds hds

namespace Parse

variable {s s' : State} {d : Failure} {fuel : Nat}

lemma binary_error (h : unary fuel s = (.error d, s')) (tighter) :
    binary (fuel + 1 + tighter.length) tighter s = (.error d, s') := by
  induction tighter with
  | nil => exact h
  | cons operators tighter ih =>
    show binary (fuel + 1 + tighter.length + 1) (operators :: tighter) s = _
    rw [binary, bind_apply, ih]

lemma expression_error (hop : unaryOperator? s.current.kind = none)
    (h : ∀ fuel, primary (fuel + 1) s = (.error d, s')) : expression s = (.error d, s') := by
  have hunary : ∀ fuel, unary (fuel + 2) s = (.error d, s') := by
    intro fuel
    rw [unary, bind_ok (show peek s = (.ok s.current, s) from rfl), hop]
    show (primary (fuel + 1) >>= postfixRest (fuel + 1)) s = _
    rw [bind_apply, h]
  have hlevels : levels.length = 10 := rfl
  have hbudget : 20 * s.rest.length + 20
      = 20 * s.rest.length + 6 + 2 + 1 + levels.length + 1 := by omega
  rw [expression, bind_ok (get_apply s), hbudget, ternary, bind_apply, binary_error (hunary _)]

def State.facingOnly (t : Token) (place : Pos) : State :=
  ⟨[t, ⟨.eof, "", place⟩], t, [], 0, false⟩

/-- A literal that cannot be read is all that is wrong with a script that has nothing else. -/
lemma ofTokens_fault {kind : TokenKind} {text pos place d}
    (hkind : kind = .number ∨ kind = .hexNumber ∨ kind = .seconds)
    (h : ∀ fuel, primary (fuel + 1) (.facingOnly ⟨kind, text, pos⟩ place)
      = (.error (.fault d), (State.facingOnly ⟨kind, text, pos⟩ place).advance)) :
    ofTokens [⟨kind, text, pos⟩, ⟨.eof, "", place⟩] = ({}, [d]) := by
  let s : State := .facingOnly ⟨kind, text, pos⟩ place
  let after (ds) : State := ⟨[⟨.eof, "", place⟩], ⟨kind, text, pos⟩, ds, 0, false⟩
  have hexpr : expression s = (.error (.fault d), after []) := by
    rcases hkind with rfl | rfl | rfl <;> exact expression_error rfl h
  have hitem : item 24 s = (.error (.fault d), after []) := by
    have hbody : itemBody 23 s = (do return .stmt (.eval pos (← expression)) : Reader Item) s := by
      rcases hkind with rfl | rfl | rfl <;>
        exact itemBody_expression rfl (by simp [s, State.facingOnly, State.current])
    rw [item, bind_apply, hbody, bind_apply, hexpr]
  have htop : topLevel {} s = (.error (.fault d), after []) := by
    obtain ⟨f, hchoice⟩ : ∃ f : Item → Reader Program, topLevel {} s = (item 24 >>= f) s := by
      rcases hkind with rfl | rfl | rfl <;> exact ⟨_, rfl⟩
    rw [hchoice, bind_apply, hitem]
  have hrun : programRest 3 {} s = (.ok {}, after [d]) := by
    obtain ⟨f, hfirst, hnone⟩ : ∃ f : Option Program → Reader Program,
        programRest 3 {} s = (recovering (topLevel {}) >>= f) s ∧ f none = programRest 2 {} := by
      rcases hkind with rfl | rfl | rfl <;> exact ⟨_, rfl, rfl⟩
    rw [hfirst, bind_apply, recovering_apply, htop]
    exact (congrFun hnone _).trans rfl
  have htokens : readable [⟨kind, text, pos⟩, ⟨.eof, "", place⟩]
      = [⟨kind, text, pos⟩, ⟨.eof, "", place⟩] := by
    rcases hkind with rfl | rfl | rfl <;> rfl
  have hbefore : State.before [⟨kind, text, pos⟩, ⟨.eof, "", place⟩] = s := by
    rcases hkind with rfl | rfl | rfl <;> rfl
  rw [ofTokens_of_run (by rw [htokens, hbefore]; exact hrun)]
  rfl

end Parse

/-! ## What a literal stands for -/

namespace Number

lemma int64?_of_le {v : Nat} (h : (v : Int) ≤ maxInt64) : ∃ n, int64? v = some n ∧ n.toInt = v := by
  have hfits : int64? v = some (Int64.ofInt v) := by
    unfold int64? minInt64
    rw [if_pos ⟨by omega, h⟩]
  exact ⟨_, hfits, int64?_eq_some hfits⟩

lemma int64?_of_lt {z} (h : maxInt64 < z) : int64? z = none := by
  unfold int64?
  rw [if_neg (by omega)]

end Number

namespace IntegerText

open Number Parse

lemma kind_cases (h : IntegerText kind cs v) :
    kind = .number ∨ kind = .hexNumber ∨ kind = .seconds := by
  cases h with
  | decimal _ => exact .inl rfl
  | hexadecimal _ _ _ => exact .inr (.inl rfl)
  | seconds _ => exact .inr (.inr rfl)

lemma readInt64?_numeral {ds} (h : IsNumeral ds) : readInt64? 10 ds = int64? (digitsValue 10 ds) :=
  readInt64?_digitsValue h.1 h.2 rfl rfl fun _ => digitValue?_of_isDigit

lemma readInt64?_afterMark {x} {ds : List Char} (hne : ds ≠ []) (hds : ∀ c ∈ ds, isHexDigit c) :
    readInt64? 16 (afterMark ('0' :: x :: ds)) = int64? (digitsValue 16 ds) := by
  have hmark : afterMark ('0' :: x :: ds) = ds := rfl
  rw [hmark]
  exact readInt64?_digitsValue hne hds rfl rfl fun _ => digitValue?_of_isHexDigit

lemma denotes (pos) (h : IntegerText kind cs v) (hfits : (v : Int) ≤ maxInt64) :
    ∃ n : Int64, n.toInt = v ∧ Denotes ⟨kind, String.ofList cs, pos⟩ (kind.literal n) := by
  obtain ⟨n, hn, hvalue⟩ := int64?_of_le hfits
  refine ⟨n, hvalue, ?_⟩
  cases h with
  | decimal hds =>
    refine .decimal rfl ?_
    rw [String.toList_ofList, readInt64?_numeral hds, hn]
  | hexadecimal _ hne hds =>
    refine .hexadecimal rfl ?_
    rw [String.toList_ofList, readInt64?_afterMark hne hds, hn]
  | @seconds ds hds =>
    obtain ⟨m, hm, hseconds⟩ := int64?_of_le (v := digitsValue 10 ds) (by omega)
    refine .seconds (n := m) rfl ?_ ?_
    · rw [String.toList_ofList, dropLast_concat, readInt64?_numeral hds, hm]
    · rw [hseconds, ← hn]
      rfl

lemma integer_fault {base ds t} (h : readInt64? base ds = none) :
    integer base ds t = failAt t.pos (.integerOutOfRange t.text) := by
  rw [integer, h]

lemma seconds_fault {ds t} (hds : IsNumeral ds) (htext : t.text.toList = ds ++ ['s'])
    (hlarge : maxInt64 < ((digitsValue 10 ds * 1000 : Nat) : Int)) :
    ∃ f, f.kind = .invalidNumber ∧ Parse.seconds t = failAt t.pos f := by
  have hread := readInt64?_numeral hds
  have hdigits : t.text.toList.dropLast = ds := by rw [htext, dropLast_concat]
  by_cases hfits : (digitsValue 10 ds : Int) ≤ maxInt64
  · obtain ⟨m, hm, hvalue⟩ := int64?_of_le hfits
    have hmillis : int64? (m.toInt * 1000) = none := int64?_of_lt (by rw [hvalue]; omega)
    refine ⟨.secondsOutOfRange, rfl, ?_⟩
    have hinteger : integer 10 ds t = pure m := by rw [integer, hread, hm]
    rw [Parse.seconds, hdigits, hinteger]
    funext s
    rw [bind_ok (show (pure m : Reader Int64) s = (.ok m, s) from rfl), hmillis]
  · rw [int64?_of_lt (not_le.mp hfits)] at hread
    refine ⟨.integerOutOfRange t.text, rfl, ?_⟩
    rw [Parse.seconds, hdigits, integer_fault hread]
    rfl

/-- A number that does not fit is a fault of the literal. -/
lemma primary_fault (pos) (h : IntegerText kind cs v) (hlarge : maxInt64 < v) :
    ∃ f : ParseFault, f.kind = .invalidNumber ∧ ∀ s,
      s.current = ⟨kind, String.ofList cs, pos⟩ → ∀ fuel,
        primary (fuel + 1) s = (.error (.fault (f.toDiagnostic pos)), s.advance) := by
  cases h with
  | decimal hds =>
    have hread := (readInt64?_numeral hds).trans (int64?_of_lt hlarge)
    refine ⟨.integerOutOfRange (String.ofList cs), rfl, fun s hs fuel => ?_⟩
    rw [primary, bind_ok (show peek s = (.ok s.current, s) from rfl), hs]
    show (advance >>= fun _ => integer 10 (String.ofList cs).toList _ >>= _) s = _
    rw [String.toList_ofList, integer_fault hread]
    rfl
  | @hexadecimal x ds _ hne hds =>
    have hread := (readInt64?_afterMark (x := x) hne hds).trans (int64?_of_lt hlarge)
    refine ⟨.integerOutOfRange (String.ofList ('0' :: x :: ds)), rfl, fun s hs fuel => ?_⟩
    rw [primary, bind_ok (show peek s = (.ok s.current, s) from rfl), hs]
    show (advance >>= fun _ => integer 16 (afterMark (String.ofList _).toList) _ >>= _) s = _
    rw [String.toList_ofList, integer_fault hread]
    rfl
  | @seconds ds hds =>
    obtain ⟨f, hkind, hf⟩ := seconds_fault (t := ⟨.seconds, String.ofList (ds ++ ['s']), pos⟩) hds
      String.toList_ofList hlarge
    refine ⟨f, hkind, fun s hs fuel => ?_⟩
    rw [primary, bind_ok (show peek s = (.ok s.current, s) from rfl), hs]
    show (advance >>= fun _ => Parse.seconds _ >>= _) s = _
    rw [hf]
    rfl

lemma ofTokens_denotes {t l place} (h : Denotes t l)
    (hvalid : t.kind ≠ .invalid) : ofTokens [t, ⟨.eof, "", place⟩]
      = ({ statements := [.eval t.pos (.literal t.pos l)] }, []) := by
  have hreads : Reads (.ranked 12 (.literal t.pos l)) [t] := .simple (.literal h)
  have hscript : ScriptReads {} ([t] ++ [⟨.eof, "", place⟩])
      { statements := [.eval t.pos (.literal t.pos l)] } :=
    .line (.eval (hreads.loosen (Nat.le_refl 12) (Nat.zero_le 12)))
      (endsStmt_of_beginsLine (.inr (.inr rfl)) (.inl rfl)) (.done rfl)
  refine hscript.ofTokens ?_
  intro u hu
  rcases mem_cons.mp hu with rfl | hu
  · exact hvalid
  · rw [mem_singleton.mp hu]
    exact TokenKind.noConfusion

end IntegerText

/-! ## Sources that hold one literal -/

namespace Scan

lemma scanFrom_blanks {blanks} (h : ∀ c ∈ blanks, isSpace c) (pos rest) :
    scanFrom pos (blanks ++ rest) = scanFrom (pos.after blanks) rest := by
  induction blanks generalizing pos with
  | nil => rfl
  | cons c blanks ih =>
    obtain ⟨hc, hblanks⟩ := forall_mem_cons.mp h
    rw [cons_append, scanFrom_blank hc, ih hblanks]
    rfl

/-- A word between blanks is the only token of its source. -/
lemma tokenize_alone {before behind} (h : Genuine kind cs) (hkind : kind ≠ .text)
    (hbefore : ∀ c ∈ before, isSpace c) (hbehind : ∀ c ∈ behind, isSpace c) :
    ∃ place, tokenize (String.ofList (before ++ cs ++ behind))
      = ([⟨kind, String.ofList cs, Pos.start.after before⟩, ⟨.eof, "", place⟩], []) := by
  have hwritten : written kind cs = cs := by rw [written, if_neg hkind]
  have hdetached : Detached kind behind := by
    intro c hc
    exact detaches_blank kind (hbehind c (mem_of_mem_head? hc))
  have hscan := scanFrom_written h hdetached (Pos.start.after before)
  have hend := scanFrom_blanks hbehind ((Pos.start.after before).after cs) []
  rw [append_nil, scanFrom] at hend
  rw [hwritten, hend] at hscan
  refine ⟨((Pos.start.after before).after cs).after behind, ?_⟩
  rw [tokenize, String.toList_ofList, append_assoc, scanFrom_blanks hbefore, hscan]

end Scan

lemma ofSource_of_tokenize {source ts} (h : tokenize source = (ts, [])) :
    ofSource source = ofTokens ts := by
  rw [ofSource, h]
  rfl

/-- Whether a text can be cut at a number of bytes from its start. -/
def CutsAt (text : String) (n : Nat) : Prop :=
  ∃ front back, text = front ++ back ∧ front.utf8ByteSize = n

/-- The mark of a hexadecimal token and the unit of a number of seconds can be cut off. -/
lemma Spelled.cuts {t} (h : Spelled t) : (t.kind = .hexNumber → CutsAt t.text 2)
      ∧ (t.kind = .seconds →
        1 ≤ t.text.utf8ByteSize ∧ CutsAt t.text (t.text.utf8ByteSize - 1)) := by
  constructor
  · intro hkind
    have hgenuine := h (by rw [hkind]; decide) (by rw [hkind]; decide)
    rw [hkind] at hgenuine
    generalize hcs : t.text.toList = cs at hgenuine
    cases hgenuine with
    | @hexNumber x ds hx _ _ =>
      refine ⟨String.ofList ['0', x], String.ofList ds, ?_, ?_⟩
      · rw [← String.ofList_append, ← String.ofList_toList (s := t.text), hcs]
        rfl
      · rcases hx with rfl | rfl <;> decide
  · intro hkind
    have hgenuine := h (by rw [hkind]; decide) (by rw [hkind]; decide)
    rw [hkind] at hgenuine
    generalize hcs : t.text.toList = cs at hgenuine
    cases hgenuine with
    | @seconds ds _ =>
      have htext : t.text = String.ofList ds ++ "s" := by
        rw [← String.ofList_toList (s := t.text), hcs, String.ofList_append]
      have hsize : t.text.utf8ByteSize = (String.ofList ds).utf8ByteSize + 1 := by
        rw [htext, String.utf8ByteSize_append]
        rfl
      exact ⟨by omega, String.ofList ds, "s", htext, by omega⟩

/-- A literal that stands alone in a source is read as its exact value, or reported once at its
    place if the value has more than 63 bits; and the cuts that take a mark or a unit off fall
    inside every token of every source. -/
theorem integer_literals_exact :
    (∀ (kind : TokenKind) (cs before behind : List Char) (v : Nat), IntegerText kind cs v →
      (∀ c ∈ before, isSpace c = true) → (∀ c ∈ behind, isSpace c = true) →
      (v < 2 ^ 63 → ∃ n : Int64, n.toInt = v ∧
        Program.ofSource (String.ofList (before ++ cs ++ behind))
          = ({ statements := [.eval (Pos.start.after before)
              (.literal (Pos.start.after before) (kind.literal n))] }, []))
      ∧ (2 ^ 63 ≤ v → ∃ d : Diagnostic, d.kind = .invalidNumber ∧ d.phase = .parse
        ∧ d.pos = Pos.start.after before
        ∧ Program.ofSource (String.ofList (before ++ cs ++ behind)) = ({}, [d])))
    ∧ ∀ (source : String), ∀ t ∈ (tokenize source).1,
      (t.kind = .hexNumber → CutsAt t.text 2)
      ∧ (t.kind = .seconds →
          1 ≤ t.text.utf8ByteSize ∧ CutsAt t.text (t.text.utf8ByteSize - 1)) := by
  refine ⟨?_, fun source t ht => Spelled.cuts (tokenize_spelled source t ht)⟩
  intro kind cs before behind v h hbefore hbehind
  have hmax : Number.maxInt64 = 2 ^ 63 - 1 := rfl
  obtain ⟨place, hscan⟩ := Scan.tokenize_alone h.genuine
    (by rcases h.kind_cases with rfl | rfl | rfl <;> decide) hbefore hbehind
  constructor
  · intro hfits
    obtain ⟨n, hn, hdenotes⟩ := h.denotes (Pos.start.after before) (by omega)
    refine ⟨n, hn, ?_⟩
    rw [ofSource_of_tokenize hscan]
    exact IntegerText.ofTokens_denotes hdenotes h.genuine.ne_invalid
  · intro hlarge
    obtain ⟨f, hkind, hfault⟩ := h.primary_fault (Pos.start.after before) (by omega)
    refine ⟨f.toDiagnostic (Pos.start.after before), hkind, rfl, rfl, ?_⟩
    rw [ofSource_of_tokenize hscan]
    exact Parse.ofTokens_fault h.kind_cases (fun fuel => hfault _ rfl fuel)

/-- Zeros in front of seconds do not count, and one more than the largest number is reported. -/
theorem integer_literals_exact_limits :
    (∃ n : Int64, n.toInt = 7000 ∧ Program.ofSource " 007s" = ({ statements :=
      [.eval ⟨1, 2⟩ (.literal ⟨1, 2⟩ (.millis n))] }, []))
    ∧ ∃ d : Diagnostic, d.kind = .invalidNumber ∧ d.phase = .parse ∧ d.pos = ⟨1, 1⟩
      ∧ Program.ofSource "0x8000000000000000" = ({}, [d]) :=
  ⟨(integer_literals_exact.1 .seconds ("007".toList ++ ['s']) [' '] [] 7000
      (.seconds ⟨by decide, List.all_eq_true.mp (by decide)⟩) (List.forall_mem_singleton.mpr rfl)
      (List.forall_mem_nil _)).1 (by decide),
    (integer_literals_exact.1 .hexNumber ('0' :: 'x' :: "8000000000000000".toList) [] [] (2 ^ 63)
      (.hexadecimal (.inl rfl) (by decide) (List.all_eq_true.mp (by decide)))
      (List.forall_mem_nil _) (List.forall_mem_nil _)).2 (Nat.le_refl _)⟩

end CanScript
