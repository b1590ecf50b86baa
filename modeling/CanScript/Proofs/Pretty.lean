import CanScript.Json.Read
import CanScript.Proofs.Numerals

/-! # Written values are read back

    A JSON value that is written over several lines is read as itself again. The reader looks for no
    particular layout: all that matters is that blanks stand where they may, that no string ends
    early, and that a numeral ends before a character that could not belong to it. -/

namespace CanScript.Json

open List Number

/-! ## Strings -/

variable {n : Nat} {c : Char} {rest : List Char} {v : Json} (level : Nat) {text : Json → List Char}
  {items : List Json} (inner : Nat) {fuel : Nat} {cs : List Char}

lemma hex4?_escape (h : n < 32) :
    hex4? '0' '0' (Nat.digitChar (n / 16)) (Nat.digitChar (n % 16)) = some n := by
  have hall : ∀ n < 32,
      hex4? '0' '0' (Nat.digitChar (n / 16)) (Nat.digitChar (n % 16)) = some n := by decide
  exact hall n h

lemma readString?_control (h : c.toNat < 32) (seen fuel rest) :
    readString? seen true (fuel + 1) ('\\' :: 'u' :: '0' :: '0' :: Nat.digitChar (c.toNat / 16)
      :: Nat.digitChar (c.toNat % 16) :: rest) = readString? (c :: seen) true fuel rest := by
  have hlow : isLowSurrogate c.toNat = false := by
    simp only [isLowSurrogate, Bool.and_eq_false_iff, decide_eq_false_iff_not]
    omega
  have hhigh : isHighSurrogate c.toNat = false := by
    simp only [isHighSurrogate, Bool.and_eq_false_iff, decide_eq_false_iff_not]
    omega
  rw [readString?, hex4?_escape h]
  simp only [hlow, hhigh, Bool.false_eq_true, if_false, Char.ofNat_toNat]

lemma readString?_plain (hquote : c ≠ '"') (hslash : c ≠ '\\') (h : ¬ c.toNat < 32)
    (seen fuel rest) :
    readString? seen true (fuel + 1) (c :: rest) = readString? (c :: seen) true fuel rest := by
  rw [readString?, if_neg (by simp [h, hslash])]
  · exact hquote
  · exact fun _ _ _ _ _ heq _ => hslash heq
  · exact fun _ _ heq _ => hslash heq

/-- What is written for a character is read as that character. -/
lemma readString?_escapeChar (c seen fuel rest) :
    readString? seen true (fuel + 1) (escapeChar c ++ rest)
      = readString? (c :: seen) true fuel rest := by
  have hnamed : ∀ n, c.toNat = n → c = Char.ofNat n := by
    rintro n rfl
    exact (Char.ofNat_toNat c).symm
  unfold escapeChar
  split
  · next h => rw [eq_of_beq h]; rfl
  · next hquote =>
  split
  · next h => rw [eq_of_beq h]; rfl
  · next hslash =>
  split
  · next h => rw [eq_of_beq h]; rfl
  split
  · next h => rw [eq_of_beq h]; rfl
  split
  · next h => rw [eq_of_beq h]; rfl
  split
  · next h => rw [hnamed 8 (eq_of_beq h)]; rfl
  split
  · next h => rw [hnamed 12 (eq_of_beq h)]; rfl
  split
  · next h => exact readString?_control h seen fuel rest
  · next h =>
      exact readString?_plain (by simpa using hquote) (by simpa using hslash) h seen fuel rest

lemma readString?_escaped (text seen fuel rest) (h : text.length < fuel) :
    readString? seen true fuel (text.flatMap escapeChar ++ '"' :: rest)
      = some (some (String.ofList (seen.reverse ++ text)), rest) := by
  induction text generalizing seen fuel with
  | nil =>
    obtain ⟨fuel, rfl⟩ : ∃ n, fuel = n + 1 := ⟨fuel - 1, by simp at h; omega⟩
    rw [append_nil]
    rfl
  | cons c text ih =>
    rw [length_cons] at h
    obtain ⟨fuel, rfl⟩ : ∃ n, fuel = n + 1 := ⟨fuel - 1, by omega⟩
    rw [flatMap_cons, append_assoc, readString?_escapeChar, ih _ _ (by omega),
      reverse_cons, append_assoc, singleton_append]

lemma escapeChar_ne_nil (c) : escapeChar c ≠ [] := by
  unfold escapeChar
  intro hnil
  repeat' split at hnil
  all_goals cases hnil

lemma length_le_escaped (text : List Char) : text.length ≤ (text.flatMap escapeChar).length := by
  induction text with
  | nil => exact Nat.le_refl 0
  | cons c text ih =>
    have hpos := length_pos_iff.mpr (escapeChar_ne_nil c)
    rw [flatMap_cons, length_append, length_cons]
    omega

lemma quote_toList (text) :
    (quote text).toList = '"' :: (text.toList.flatMap escapeChar ++ ['"']) :=
  String.toList_ofList

lemma readString?_quote (text rest) :
    readString? [] true ((text.toList.flatMap escapeChar ++ '"' :: rest).length + 1)
      (text.toList.flatMap escapeChar ++ '"' :: rest) = some (some text, rest) := by
  have hlength : text.toList.length
      < (text.toList.flatMap escapeChar ++ '"' :: rest).length + 1 := by
    have hle := length_le_escaped text.toList
    rw [List.length_append]
    omega
  rw [readString?_escaped _ _ _ _ hlength, List.reverse_nil, List.nil_append, String.ofList_toList]

/-! ## Numerals -/

def EndsNumeral (rest : List Char) : Prop :=
  ∀ c, rest.head? = some c → c.isDigit = false ∧ c ≠ '.' ∧ c ≠ 'e' ∧ c ≠ 'E'

lemma toDigits_head (h : 0 < n) : ∃ c cs, Nat.toDigits 10 n = c :: cs ∧ c ≠ '0' := by
  induction n using Nat.strongRecOn with
  | ind n ih =>
    by_cases hn : n < 10
    · have hdigits : ∀ d < 10, 0 < d → d.digitChar ≠ '0' := by decide
      exact ⟨_, [], Nat.toDigits_of_lt_base hn, hdigits n hn h⟩
    · obtain ⟨c, cs, heq, hne⟩ := ih (n / 10) (by omega) (by omega)
      rw [Nat.toDigits_of_base_le (by decide) (Nat.not_lt.mp hn), heq]
      exact ⟨c, _, rfl, hne⟩

lemma isDigit_of_mem_toDigits (h : c ∈ Nat.toDigits 10 n) : c.isDigit :=
  Nat.isDigit_of_mem_toDigits (by decide) (by decide) h

lemma digitRun?_append {ds} (hne : ds ≠ []) (hds : ∀ c ∈ ds, c.isDigit) (hrest : EndsNumeral rest) :
    digitRun? (ds ++ rest) = some (ds, rest) := by
  have htake : rest.takeWhile Char.isDigit = [] ∧ rest.dropWhile Char.isDigit = rest := by
    cases rest with
    | nil => exact ⟨rfl, rfl⟩
    | cons c rest =>
      have hc := (hrest c rfl).1
      rw [List.takeWhile_cons, List.dropWhile_cons, hc]
      exact ⟨rfl, rfl⟩
  have hempty : ds.isEmpty = false := List.isEmpty_eq_false_iff.mpr hne
  rw [digitRun?, List.takeWhile_append_of_pos hds, List.dropWhile_append_of_pos hds, htake.1,
    htake.2, List.append_nil, hempty]
  rfl

lemma wholeRun?_toDigits (n) (h : EndsNumeral rest) :
    wholeRun? (Nat.toDigits 10 n ++ rest) = some (Nat.toDigits 10 n, rest) := by
  rcases Nat.eq_zero_or_pos n with rfl | hpos
  · cases rest with
    | nil => rfl
    | cons c rest =>
      show (if c.isDigit then none else some (['0'], c :: rest)) = _
      rw [(h c rfl).1]
      rfl
  · have hrun := digitRun?_append (toDigits_ne_nil 10 n) (fun _ => isDigit_of_mem_toDigits) h
    obtain ⟨c, cs, heq, hne⟩ := toDigits_head hpos
    rw [heq, List.cons_append] at hrun ⊢
    rw [wholeRun?, hrun]
    exact fun _ heq => hne (List.cons.inj heq).1

lemma fractionRun?_of_ends (h : EndsNumeral rest) : fractionRun? rest = some ([], rest) := by
  cases rest with
  | nil => rfl
  | cons c rest =>
    rw [fractionRun?]
    exact fun _ heq => (h c rfl).2.1 (List.cons.inj heq).1

lemma exponentRun?_of_ends (h : EndsNumeral rest) : exponentRun? rest = some ([], rest) := by
  cases rest with
  | nil => rfl
  | cons c rest =>
    have hmark : (c == 'e' || c == 'E') = false := by simpa using (h c rfl).2.2
    dsimp only [exponentRun?]
    rw [hmark]
    rfl

lemma readNumeral?_nat (n) (h : EndsNumeral rest) :
    readNumeral? (Nat.toDigits 10 n ++ rest) = some (nat n, rest) := by
  have hsign : ∀ more, Nat.toDigits 10 n ++ rest ≠ '-' :: more := by
    obtain ⟨c, cs, heq⟩ := List.exists_cons_of_ne_nil (toDigits_ne_nil 10 n)
    have hc : c.isDigit := isDigit_of_mem_toDigits (heq ▸ List.mem_cons_self)
    intro more hminus
    rw [heq] at hminus
    cases hminus
    cases hc
  unfold readNumeral?
  split
  next sign more heq =>
  split at heq
  · next hminus => exact absurd hminus (hsign _)
  · cases heq
    rw [wholeRun?_toDigits n h]
    show (fractionRun? rest >>= _) = _
    rw [fractionRun?_of_ends h]
    show (exponentRun? rest >>= _) = _
    rw [exponentRun?_of_ends h]
    show some (numeral (String.ofList ([] ++ Nat.toDigits 10 n ++ [] ++ [])), rest) = _
    rw [List.nil_append, List.append_nil, List.append_nil]
    rfl

/-! ## Values in front of a text -/

lemma skipSpace_of_head (h : isSpace c = false) (cs) : skipSpace (c :: cs) = c :: cs := by
  rw [skipSpace, List.dropWhile_cons, h]
  rfl

lemma newline_toList : (newline level).toList = '\n' :: List.replicate (2 * level) ' ' := by
  rw [newline, String.toList_append, String.toList_ofList, String.toList_ofList]
  rfl

lemma skipSpace_newline (cs) : skipSpace ((newline level).toList ++ cs) = skipSpace cs := by
  have hblanks : ∀ c ∈ (newline level).toList, isSpace c := by
    rw [newline_toList]
    exact List.forall_mem_cons.mpr ⟨rfl, fun c hc => by rw [List.eq_of_mem_replicate hc]; rfl⟩
  exact List.dropWhile_append_of_pos hblanks

/-- A value that records are written as: its numbers are whole, and every string in it has a text.
    -/
inductive Plain : Json → Prop where
  | null : Plain .null
  | bool (b : Bool) : Plain (.bool b)
  | nat (n : Nat) : Plain (.nat n)
  | string (text : String) : Plain (.string text)
  | array {items : List Json} : (∀ v ∈ items, Plain v) → Plain (.array items)
  | object {members} : (∀ p ∈ members, Plain p.2) → Plain (.object members)

/-- The reader takes a text for a value, whatever follows that could not belong to a numeral. -/
structure Reads (v : Json) (cs : List Char) : Prop where
  /-- The first character is no blank and closes no array. -/
  head : ∃ c rest, cs = c :: rest ∧ isSpace c = false ∧ c ≠ ']'
  read : ∀ fuel rest, 2 * cs.length ≤ fuel + 1 → EndsNumeral rest →
    readValue? fuel (cs ++ rest) = some (v, rest)

lemma Reads.skipSpace (h : Reads v cs) (rest) : skipSpace (cs ++ rest) = cs ++ rest := by
  obtain ⟨c, more, rfl, hc, -⟩ := h.head
  exact skipSpace_of_head hc _

lemma endsNumeral_nil : EndsNumeral [] := by
  intro c hc
  cases hc

lemma endsNumeral_comma (rest) : EndsNumeral (',' :: rest) := by
  intro c hc
  cases hc
  decide

lemma endsNumeral_newline (rest) : EndsNumeral ((newline level).toList ++ rest) := by
  rw [newline_toList]
  intro c hc
  cases hc
  decide

lemma Reads.of_step (hhead : ∃ c rest, cs = c :: rest ∧ isSpace c = false ∧ c ≠ ']')
    (hstep : ∀ fuel rest, 2 * cs.length ≤ fuel + 2 → EndsNumeral rest →
      readValue? (fuel + 1) (cs ++ rest) = some (v, rest)) : Reads v cs := by
  refine ⟨hhead, fun fuel rest hfuel hrest => ?_⟩
  obtain ⟨c, more, rfl, -⟩ := hhead
  rw [List.length_cons] at hfuel
  obtain ⟨fuel, rfl⟩ : ∃ n, fuel = n + 1 := ⟨fuel - 1, by omega⟩
  exact hstep fuel rest (by rw [List.length_cons]; omega) hrest

lemma reads_null : Reads .null "null".toList :=
  .of_step ⟨'n', _, rfl, by decide⟩ fun _ _ _ _ => rfl

lemma reads_bool (b) : Reads (.bool b) (if b then "true" else "false").toList := by
  cases b with
  | true => exact .of_step ⟨'t', _, rfl, by decide⟩ fun _ _ _ _ => rfl
  | false => exact .of_step ⟨'f', _, rfl, by decide⟩ fun _ _ _ _ => rfl

lemma readValue?_digit (h : c.isDigit) (fuel cs) :
    readValue? (fuel + 1) (c :: cs) = readNumeral? (c :: cs) := by
  rw [readValue?]
  all_goals
    intro _ heq
    cases heq
    cases h

lemma isSpace_of_isDigit (h : c.isDigit) : isSpace c = false := by
  have hne : ∀ d, d.isDigit = false → (c == d) = false := by
    intro d hd
    refine beq_eq_false_iff_ne.mpr fun hcd => ?_
    rw [hcd, hd] at h
    cases h
  rw [isSpace, hne _ rfl, hne _ rfl, hne _ rfl, hne _ rfl]
  rfl

lemma reads_nat (n) : Reads (.nat n) (Nat.toDigits 10 n) := by
  obtain ⟨c, cs, heq⟩ := List.exists_cons_of_ne_nil (toDigits_ne_nil 10 n)
  have hdigit : c.isDigit := isDigit_of_mem_toDigits (heq ▸ List.mem_cons_self)
  refine .of_step ⟨c, cs, heq, isSpace_of_isDigit hdigit, ?_⟩ fun fuel rest _ hrest => ?_
  · rintro rfl
    cases hdigit
  · rw [← readNumeral?_nat n hrest, heq, List.cons_append, readValue?_digit hdigit]

lemma reads_string (text) : Reads (.string text) (quote text).toList := by
  rw [quote_toList]
  refine .of_step ⟨'"', _, rfl, by decide⟩ fun fuel rest _ _ => ?_
  rw [cons_append, append_assoc, singleton_append, readValue?, readString?_quote]

/-! ## Arrays and objects -/

def entries (level : Nat) (texts : List (List Char)) : List Char :=
  (',' :: (newline level).toList).intercalate texts

lemma entries_cons_cons (t u texts) : entries level (t :: u :: texts)
      = t ++ ',' :: ((newline level).toList ++ entries level (u :: texts)) := by
  rw [entries, intercalate_cons_cons, append_assoc, cons_append]
  rfl

lemma entries_head (c t texts) : ∃ more, entries level ((c :: t) :: texts) = c :: more := by
  cases texts with
  | nil => exact ⟨t, intercalate_singleton⟩
  | cons u texts =>
    rw [entries_cons_cons]
    exact ⟨_, rfl⟩

lemma items_head (items) (h : Reads v (text v)) :
    ∃ c more, entries inner ((v :: items).map text) = c :: more ∧ isSpace c = false ∧ c ≠ ']' := by
  obtain ⟨c, t, htext, hc⟩ := h.head
  obtain ⟨more, heq⟩ := entries_head inner c t (items.map text)
  exact ⟨c, more, by rw [map_cons, htext, heq], hc⟩

/-- Items that are read one by one are read as the items of an array. -/
lemma readItems?_entries (outer) (h : ∀ v' ∈ v :: items, Reads v' (text v')) (fuel rest)
    (hfuel : 2 * (entries inner ((v :: items).map text)).length ≤ fuel) :
    readItems? fuel (entries inner ((v :: items).map text)
      ++ ((newline outer).toList ++ ']' :: rest)) = some (v :: items, rest) := by
  induction items generalizing v fuel with
  | nil =>
    have hv := h v mem_cons_self
    obtain ⟨c, more, htext, -⟩ := hv.head
    have hentry : entries inner [text v] = text v := intercalate_singleton
    rw [map_singleton, hentry] at hfuel ⊢
    have hlength : 0 < (text v).length := by rw [htext]; exact Nat.succ_pos _
    obtain ⟨fuel, rfl⟩ : ∃ n, fuel = n + 1 := ⟨fuel - 1, by omega⟩
    rw [readItems?, hv.read fuel _ (by omega) (endsNumeral_newline _ _)]
    dsimp only
    rw [skipSpace_newline, skipSpace_of_head (by decide)]
    rfl
  | cons w items ih =>
    rw [forall_mem_cons] at h
    rw [map_cons, map_cons, entries_cons_cons, ← map_cons] at hfuel ⊢
    simp only [length_append, length_cons] at hfuel
    obtain ⟨fuel, rfl⟩ : ∃ n, fuel = n + 1 := ⟨fuel - 1, by omega⟩
    have hmore := ih h.2 fuel (by omega)
    -- the next item starts where the blanks after the comma end
    obtain ⟨c, more, hhead, hc, -⟩ := items_head inner items (h.2 w mem_cons_self)
    rw [append_assoc, cons_append, append_assoc, readItems?,
      h.1.read fuel _ (by omega) (endsNumeral_comma _)]
    dsimp only
    rw [skipSpace_of_head (by decide)]
    show (readItems? fuel (skipSpace _)).map _ = _
    rw [skipSpace_newline, hhead, cons_append, skipSpace_of_head hc, ← cons_append, ← hhead, hmore]
    rfl

def memberText (text : Json → List Char) (p : String × Json) : List Char :=
  (quote p.1).toList ++ ':' :: ' ' :: text p.2

def afterMember (fuel : Nat) (member : Option String × Json) :
    List Char → Reading (List (Option String × Json))
  | '\x7d' :: more => some ([member], more)
  | ',' :: more =>
    (readMembers? fuel (skipSpace more)).map fun (members, more) => (member :: members, more)
  | _ => none

lemma readMembers?_member {p} (h : Reads p.2 (text p.2))
    (hfuel : 2 * (memberText text p).length ≤ fuel + 1) (hrest : EndsNumeral rest) :
    readMembers? (fuel + 1) (memberText text p ++ rest)
      = afterMember fuel (some p.1, p.2) (skipSpace rest) := by
  have hvalue := h.read fuel rest
    (by rw [memberText, length_append, length_cons, length_cons] at hfuel; omega)
    hrest
  have hskip : skipSpace (' ' :: (text p.2 ++ rest)) = text p.2 ++ rest := h.skipSpace rest
  rw [memberText, quote_toList]
  simp only [cons_append, append_assoc, nil_append]
  rw [readMembers?, readString?_quote]
  dsimp only
  rw [skipSpace_of_head (by decide)]
  simp only [hskip, hvalue]
  rfl

lemma members_head (text p members) :
    ∃ more, entries inner ((p :: members).map (memberText text)) = '"' :: more := by
  rw [List.map_cons, memberText, quote_toList]
  exact entries_head inner '"' _ _

/-- Members whose values are read one by one are read as the members of an object. -/
lemma readMembers?_entries (outer) {p members} (h : ∀ q ∈ p :: members, Reads q.2 (text q.2))
    (fuel rest) (hfuel : 2 * (entries inner ((p :: members).map (memberText text))).length ≤ fuel) :
    readMembers? fuel (entries inner ((p :: members).map (memberText text))
        ++ ((newline outer).toList ++ '\x7d' :: rest))
      = some ((p :: members).map fun q => (some q.1, q.2), rest) := by
  induction members generalizing p fuel with
  | nil =>
    have hentry : entries inner [memberText text p] = memberText text p :=
      intercalate_singleton
    have hlength : 0 < (memberText text p).length := by
      rw [memberText, quote_toList]
      exact Nat.succ_pos _
    rw [map_singleton, hentry] at hfuel ⊢
    obtain ⟨fuel, rfl⟩ : ∃ n, fuel = n + 1 := ⟨fuel - 1, by omega⟩
    rw [readMembers?_member (h p mem_cons_self) (by omega) (endsNumeral_newline _ _),
      skipSpace_newline, skipSpace_of_head (by decide)]
    rfl
  | cons q members ih =>
    rw [forall_mem_cons] at h
    rw [map_cons (f := memberText text), map_cons (f := memberText text),
      entries_cons_cons, ← map_cons] at hfuel ⊢
    simp only [length_append, length_cons] at hfuel
    obtain ⟨fuel, rfl⟩ : ∃ n, fuel = n + 1 := ⟨fuel - 1, by omega⟩
    have hmore := ih h.2 fuel (by omega)
    obtain ⟨more, hhead⟩ := members_head inner text q members
    rw [append_assoc, cons_append, append_assoc,
      readMembers?_member h.1 (by omega) (endsNumeral_comma _), skipSpace_of_head (by decide)]
    show (readMembers? fuel (skipSpace _)).map _ = _
    rw [skipSpace_newline, hhead, cons_append, skipSpace_of_head (by decide),
      ← cons_append, ← hhead, hmore]
    rfl

lemma ofMembers_some (members) :
    ofMembers (members.map fun p => (some p.1, p.2)) = object members := by
  have hmap : ∀ members : List (String × Json),
      (members.map fun p => (some p.1, p.2)).mapM (fun (q : Option String × Json) =>
        q.1.map fun text => (text, q.2)) = some members := by
    intro members
    induction members with
    | nil => rfl
    | cons p members ih =>
      rw [map_cons, mapM_cons, ih]
      rfl
  unfold ofMembers
  split
  · next members' heq => rw [Option.some.inj (heq.symm.trans (hmap members))]
  · next heq => cases heq.symm.trans (hmap members)

/-! ## Values over several lines -/

lemma prettyItems_eq (items) : prettyItems level items = items.map (prettyAt level) := by
  induction items with
  | nil => rfl
  | cons v items ih => rw [prettyItems, ih, map_cons]

lemma prettyMembers_eq (members) : prettyMembers level members
      = members.map fun p => quote p.1 ++ ": " ++ prettyAt level p.2 := by
  induction members with
  | nil => rfl
  | cons p members ih => rw [prettyMembers, ih, map_cons]

def laidOut (level : Nat) (v : Json) : List Char :=
  (prettyAt level v).toList

lemma bracketed_toList {left right l r} (hleft : left.toList = [l]) (hright : right.toList = [r])
    (level) {texts} (hne : texts ≠ []) :
    (bracketed left right level texts).toList = l :: ((newline (level + 1)).toList
      ++ (entries (level + 1) (texts.map String.toList) ++ ((newline level).toList ++ [r]))) := by
  have hempty : texts.isEmpty = false := isEmpty_eq_false_iff.mpr hne
  have hcomma : ("," ++ newline (level + 1)).toList = ',' :: (newline (level + 1)).toList :=
    String.toList_append
  rw [bracketed, hempty]
  simp only [Bool.false_eq_true, if_false, String.toList_append, String.toList_intercalate, hleft,
    hright, hcomma, entries, append_assoc, singleton_append]
  rfl

lemma bracketed_nil (left right level) :
    (bracketed left right level []).toList = left.toList ++ right.toList :=
  String.toList_append

lemma readValue?_bracket {more} (hskip : skipSpace cs = c :: more) (hc : c ≠ ']')
    (hitems : readItems? fuel (c :: more) = some (items, rest)) :
    readValue? (fuel + 1) ('[' :: cs) = some (.array items, rest) := by
  rw [readValue?, hskip]
  split
  · next heq => exact absurd (List.cons.inj heq).1 hc
  · rw [hitems]
    rfl

lemma readValue?_brace {more members} (hskip : skipSpace cs = c :: more) (hc : c ≠ '\x7d')
    (hmembers : readMembers? fuel (c :: more) = some (members, rest)) :
    readValue? (fuel + 1) ('\x7b' :: cs) = some (ofMembers members, rest) := by
  rw [readValue?, hskip]
  split
  · next heq => exact absurd (List.cons.inj heq).1 hc
  · rw [hmembers]
    rfl

lemma reads_array {level} (h : ∀ v ∈ items, Reads v (laidOut (level + 1) v)) :
    Reads (.array items) (laidOut level (.array items)) := by
  rw [laidOut, prettyAt, prettyItems_eq]
  cases items with
  | nil =>
    rw [map_nil, bracketed_nil]
    exact .of_step ⟨'[', _, rfl, by decide⟩ fun _ _ _ _ => rfl
  | cons v items =>
    have htexts : ((v :: items).map (prettyAt (level + 1))).map String.toList
        = (v :: items).map (laidOut (level + 1)) := map_map
    rw [bracketed_toList (l := '[') (r := ']') rfl rfl level (by simp), htexts]
    refine .of_step ⟨'[', _, rfl, by decide⟩ fun fuel rest hfuel _ => ?_
    simp only [length_cons, length_append] at hfuel
    have hitems := readItems?_entries (level + 1) level h fuel rest (by omega)
    obtain ⟨c, more, hhead, hspace, hc⟩ := items_head (level + 1) items (h v mem_cons_self)
    rw [hhead] at hitems ⊢
    simp only [cons_append, append_assoc, nil_append] at hitems ⊢
    exact readValue?_bracket (by rw [skipSpace_newline, skipSpace_of_head hspace]) hc hitems

lemma reads_object {level members} (h : ∀ p ∈ members, Reads p.2 (laidOut (level + 1) p.2)) :
    Reads (.object members) (laidOut level (.object members)) := by
  rw [laidOut, prettyAt, prettyMembers_eq]
  cases members with
  | nil =>
    rw [map_nil, bracketed_nil]
    exact .of_step ⟨'\x7b', _, rfl, by decide⟩ fun _ _ _ _ => rfl
  | cons p members =>
    have htexts : ((p :: members).map fun p => quote p.1 ++ ": " ++ prettyAt (level + 1) p.2).map
        String.toList = (p :: members).map (memberText (laidOut (level + 1))) := by
      rw [map_map]
      refine map_congr_left fun q _ => ?_
      simp [memberText, laidOut]
    rw [bracketed_toList (l := '\x7b') (r := '\x7d') rfl rfl level (by simp), htexts]
    refine .of_step ⟨'\x7b', _, rfl, by decide⟩ fun fuel rest hfuel _ => ?_
    simp only [length_cons, length_append] at hfuel
    have hmembers := readMembers?_entries (level + 1) level h fuel rest (by omega)
    obtain ⟨more, hhead⟩ := members_head (level + 1) (laidOut (level + 1)) p members
    rw [hhead] at hmembers ⊢
    simp only [cons_append, append_assoc, nil_append] at hmembers ⊢
    rw [← ofMembers_some]
    exact readValue?_brace (by rw [skipSpace_newline, skipSpace_of_head (by decide)])
      (by decide) hmembers

lemma Plain.reads (h : Plain v) (level) : Reads v (laidOut level v) := by
  induction h generalizing level with
  | null => exact reads_null
  | bool b => exact reads_bool b
  | nat n =>
    have htext : laidOut level (.nat n) = Nat.toDigits 10 n := Nat.toList_repr
    rw [htext]
    exact reads_nat n
  | string text => exact reads_string text
  | array _ ih => exact reads_array fun v hv => ih v hv (level + 1)
  | object _ ih => exact reads_object fun p hp => ih p hp (level + 1)

lemma read?_pretty (h : Plain v) : read? v.pretty = some v := by
  have hreads := h.reads 0
  have hskip : skipSpace v.pretty.toList = laidOut 0 v := by
    have hself := hreads.skipSpace []
    rwa [append_nil] at hself
  have hvalue := hreads.read (2 * (laidOut 0 v).length + 2) [] (by omega) endsNumeral_nil
  rw [append_nil] at hvalue
  rw [read?, hskip, hvalue]
  rfl

end CanScript.Json
