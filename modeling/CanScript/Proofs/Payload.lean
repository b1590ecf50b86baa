import CanScript.Proofs.Listing
import CanScript.Proofs.Recorded
import CanScript.Token.Scan

/-! # Identifiers and data of compact lines

    A compact line writes the identifier and the data of a frame in hexadecimal.  The bytes that are
    read are those that are written, except that a number may carry a plus sign: in front of the
    identifier, and in place of the first digit of a byte. -/

namespace CanScript

open List Number Text Scan Option

/-! ## Digits -/

namespace Number

lemma digitValue?_hex {c d} (h : digitValue? 16 c = some d) :
    isHexDigit c ∧ d < 16 ∧ c.toUpper = d.digitChar.toUpper := by
  have htable : ∀ e < 103, ∀ d ∈ digitValue? 16 (Char.ofNat e), isHexDigit (Char.ofNat e) ∧
      d < 16 ∧ (Char.ofNat e).toUpper = d.digitChar.toUpper := by decide
  have hle : c.toNat < 103 := by
    refine Nat.lt_of_not_le fun hle => ?_
    have hf : ¬ c ≤ 'f' := fun hf => absurd (Nat.le_trans hle hf) (by decide)
    have hF : ¬ c ≤ 'F' := fun hF => absurd (Nat.le_trans hle hF) (by decide)
    have hdigit : c.isDigit = false := Bool.eq_false_iff.mpr fun hdigit => by
      simp only [Char.isDigit, Bool.and_eq_true, decide_eq_true_eq] at hdigit
      exact absurd (Nat.le_trans hle hdigit.2) (by decide)
    simp [digitValue?, hdigit, hf, hF] at h
  rw [← Char.ofNat_toNat c] at h ⊢
  exact htable c.toNat hle d h

lemma readDigitsFrom?_cons {value n c cs} (h : readDigitsFrom? 16 value (c :: cs) = some n) :
    ∃ d, digitValue? 16 c = some d ∧ readDigitsFrom? 16 (value * 16 + d) cs = some n := by
  rw [readDigitsFrom?] at h
  split at h
  · next d hd => exact ⟨d, hd, h⟩
  · cases h

lemma readDigitsFrom?_hex {value n cs}
    (h : readDigitsFrom? 16 value cs = some n) : ∀ c ∈ cs, isHexDigit c := by
  induction cs generalizing value with
  | nil => exact forall_mem_nil _
  | cons c cs ih =>
    obtain ⟨d, hd, hrest⟩ := readDigitsFrom?_cons h
    exact forall_mem_cons.mpr ⟨(digitValue?_hex hd).1, ih hrest⟩

lemma readNat?_hex {limit n cs} (h : readNat? 16 limit cs = some n) :
    ∀ c ∈ cs, isHexDigit c ∨ c = '+' := by
  have hdigits : ∀ ds, (readDigits? 16 ds).filter (· ≤ limit) = some n →
      ∀ c ∈ ds, isHexDigit c ∨ c = '+' := by
    intro ds hds c hc
    have hread := (filter_eq_some_iff.mp hds).1
    rw [readDigits?_of_ne_nil (ne_nil_of_mem hc)] at hread
    exact .inl (readDigitsFrom?_hex hread c hc)
  unfold readNat? at h
  split at h
  · exact forall_mem_cons.mpr ⟨.inr rfl, hdigits _ h⟩
  · exact hdigits _ h

end Number

namespace Trace

/-- The digit that a character of a byte counts for, in upper case; a plus sign counts for nothing.
    -/
def asDigit (c : Char) : Char :=
  if c = '+' then '0' else c.toUpper

lemma asDigit_of_hex {c d} (h : digitValue? 16 c = some d) :
    d < 16 ∧ asDigit c = d.digitChar.toUpper := by
  have hne : c ≠ '+' := by
    rintro rfl
    cases h
  rw [asDigit, if_neg hne]
  exact (digitValue?_hex h).2

lemma hexByte_of_pair {a b n} (h : readNat? 16 255 [a, b] = some n) :
    hexByte (UInt8.ofNat n) = [asDigit a, asDigit b] := by
  have htable : ∀ x < 16, ∀ y < 16, hexByte (UInt8.ofNat (x * 16 + y))
      = [x.digitChar.toUpper, y.digitChar.toUpper] := by decide
  unfold readNat? at h
  split at h
  · next heq =>
    cases heq
    obtain ⟨y, hy, hn⟩ := readDigitsFrom?_cons (filter_eq_some_iff.mp h).1
    obtain ⟨hlt, hdigit⟩ := asDigit_of_hex hy
    cases hn
    rw [hdigit]
    exact htable 0 (by decide) y hlt
  · obtain ⟨x, hx, hrest⟩ := readDigitsFrom?_cons (filter_eq_some_iff.mp h).1
    obtain ⟨y, hy, hn⟩ := readDigitsFrom?_cons hrest
    obtain ⟨hltx, hfirst⟩ := asDigit_of_hex hx
    obtain ⟨hlty, hsecond⟩ := asDigit_of_hex hy
    cases hn
    rw [hfirst, hsecond, Nat.zero_mul, Nat.zero_add]
    exact htable x hltx y hlty

lemma readPairs?_spec {cs bytes} (h : readPairs? cs = some bytes) :
    (∀ c ∈ cs, isHexDigit c ∨ c = '+') ∧ bytes.flatMap hexByte = cs.map asDigit := by
  fun_induction readPairs? cs generalizing bytes with
  | case1 =>
    cases h
    exact ⟨forall_mem_nil _, rfl⟩
  | case2 a b rest ih =>
    obtain ⟨n, hn, h⟩ := bind_eq_some_iff.mp h
    obtain ⟨more, hmore, h⟩ := bind_eq_some_iff.mp h
    cases h
    obtain ⟨hhex, hbytes⟩ := ih hmore
    have hpair := forall_mem_cons.mp (readNat?_hex hn)
    refine ⟨forall_mem_cons.mpr ⟨hpair.1, forall_mem_cons.mpr ⟨hpair.2 b mem_cons_self, hhex⟩⟩, ?_⟩
    rw [flatMap_cons, hexByte_of_pair hn, hbytes]
    rfl
  | case3 => cases h

/-! ## Lines -/

/-- How identifier, flag and data stand in the frame field of a compact line that is not the one of
    a remote frame. -/
inductive Compact : List Char → List Char → Option Char → List Char → Prop where
  | plain {id data : List Char} : '#' ∉ id → data.head? ≠ some '#' → data.head? ≠ some 'R' →
      Compact (id ++ '#' :: data) id none data
  | flagged {id data flag?} : '#' ∉ id → (flag? = none → data = []) →
      Compact (id ++ '#' :: '#' :: (flag?.toList ++ data)) id flag? data

/-- The frame field of a line: the second one, after a time in front. -/
def frameField? (line : List Char) : Option (List Char) :=
  (untimed (fields line))[1]?

/-- What is read of the data: a flag that takes more than a byte hides it. -/
def readable (flag? : Option Char) (data : List Char) : List Char :=
  if flag?.all (·.utf8Size = 1) then data else []

variable {body id data : List Char} {flag? : Option Char}

lemma splitAt?_append {c mark before} (h : c ∉ before) (rest) :
    splitAt? (c :: mark) (before ++ rest)
      = (splitAt? (c :: mark) rest).map fun p => (before ++ p.1, p.2) := by
  induction before with
  | nil => simp
  | cons d before ih =>
    have hne : (c == d) = false := beq_eq_false_iff_ne.mpr fun heq => h (heq ▸ mem_cons_self)
    have hstart : dropStart? (c :: mark) (d :: (before ++ rest)) = none := by
      rw [dropStart?, hne]
      rfl
    rw [cons_append, splitAt?, hstart, ih fun hmem => h (mem_cons_of_mem d hmem)]
    simp [Function.comp_def]

/-- Identifier and data of a compact line are those that stand in it, or what is taken for the
    identifier holds a mark. -/
lemma readBody_compact (hbody : Compact body id flag? data) (rest) : ∃ idText cs,
    readBody body rest = (do let bytes ← readPayload cs; .ok (idText, bytes)) ∧
    ('#' ∈ idText ∨ idText = id ∧ cs = readable flag? data) := by
  cases hbody with
  | plain hid hmark hremote =>
    have hstart : dropStart? ['#'] data = none := by
      refine eq_none_iff_forall_ne_some.mpr fun more hmore => hmark ?_
      rw [eq_of_dropStart? hmore]
      rfl
    have htwo : splitAt? ['#', '#'] (id ++ '#' :: data)
        = (splitAt? ['#', '#'] data).map fun p => (id ++ '#' :: p.1, p.2) := by
      simp [splitAt?_append hid, splitAt?, dropStart?, hstart, Function.comp_def]
    have hone : splitAt? ['#'] (id ++ '#' :: data) = some (id, data) := by
      simp [splitAt?_append hid, splitAt?, dropStart?]
    rw [readBody, htwo, hone]
    cases splitAt? ['#', '#'] data with
    | some p => exact ⟨_, _, rfl, .inl (by simp)⟩
    | none =>
      refine ⟨id, data, ?_, .inr ⟨rfl, rfl⟩⟩
      cases data with
      | nil => rfl
      | cons c data =>
        dsimp only [Option.map]
        split
        · next heq =>
          cases heq
          exact absurd rfl hremote
        · next heq =>
          cases heq
          rfl
        · next heq => cases heq
  | flagged hid hnone =>
    refine ⟨id, readable flag? data, ?_, .inr ⟨rfl, rfl⟩⟩
    cases flag? with
    | none => simp [readBody, splitAt?_append hid, splitAt?, dropStart?, afterFlag, readable, hnone]
    | some flag => simp [readBody, splitAt?_append hid, splitAt?, dropStart?, afterFlag, readable]

lemma makeFrame_data {port idText bytes f} (h : makeFrame port idText bytes = .ok f) :
    f.data = bytes ∧ ∀ c ∈ idText, isHexDigit c ∨ c = '+' := by
  unfold makeFrame at h
  split at h
  · cases h
  · next hid =>
    split at h
    · cases h
    · split at h
      · cases h
      · cases h
        exact ⟨rfl, readNat?_hex hid⟩

lemma readPayload_spec {cs bytes} (h : readPayload cs = .ok bytes) :
    (∀ c ∈ cs.filter (· != '.'), isHexDigit c ∨ c = '+') ∧
    bytes.flatMap hexByte = (cs.filter (· != '.')).map asDigit := by
  unfold readPayload at h
  dsimp only at h
  split at h
  · cases h
  · split at h
    · next hpairs =>
      cases h
      exact readPairs?_spec hpairs
    · cases h

/-- **Compact lines are read as they are written.**  Of a compact line that is accepted, identifier
    and data are hexadecimal digits but for plus signs, each of which counts for a zero, and the
    bytes are those that are written, unless the flag takes more than a byte.  Without a plus sign
    and with a flag of one byte all of them are digits, and the bytes in hexadecimal are the data in
    upper case, less the dots. -/
theorem payload_of_accepted {line body id data : List Char} {flag? : Option Char} {f : Frame}
    {micros : Option Nat} (hfield : frameField? line = some body)
    (hbody : Compact body id flag? data) (h : readLine line = .ok (some (f, micros))) :
    (∀ c ∈ id, isHexDigit c = true ∨ c = '+') ∧
    (∀ c ∈ (readable flag? data).filter (· != '.'), isHexDigit c = true ∨ c = '+') ∧
    f.data.flatMap hexByte = ((readable flag? data).filter (· != '.')).map asDigit ∧
    ('+' ∉ id → '+' ∉ data → flag?.all (·.utf8Size = 1) = true →
      (∀ c ∈ id, isHexDigit c = true) ∧
      (∀ c ∈ data.filter (· != '.'), isHexDigit c = true) ∧
      f.data.flatMap hexByte = (data.filter (· != '.')).map Char.toUpper) := by
  obtain ⟨port, body', rest, idText, bytes, htime, hread, hframe⟩ := readLine_parts h
  rw [fields_trim] at htime
  rw [frameField?, ← (readTime_spec htime).1] at hfield
  cases hfield
  obtain ⟨rfl, hhex⟩ := makeFrame_data hframe
  obtain ⟨text, cs, heq, hparts⟩ := readBody_compact hbody rest
  rw [heq] at hread
  cases hpayload : readPayload cs with
  | error e =>
    rw [hpayload] at hread
    cases hread
  | ok bytes =>
    rw [hpayload] at hread
    cases hread
    obtain ⟨rfl, rfl⟩ := hparts.resolve_left fun hmark =>
      absurd (hhex '#' hmark) (by decide)
    obtain ⟨hdigits, hbytes⟩ := readPayload_spec hpayload
    refine ⟨hhex, hdigits, hbytes, fun hid hdata hflag => ?_⟩
    rw [readable, if_pos hflag] at hdigits hbytes
    have hplain : ∀ c ∈ data.filter (· != '.'), c ≠ '+' :=
      fun c hc heq => hdata (heq ▸ (mem_filter.mp hc).1)
    refine ⟨fun c hc => (hhex c hc).resolve_right fun heq => hid (heq ▸ hc),
      fun c hc => (hdigits c hc).resolve_right (hplain c hc), hbytes.trans ?_⟩
    exact map_congr_left fun c hc => if_neg (hplain c hc)

/-- A compact line with a time, a flag, small letters and a dot. -/
def flaggedLine : List Char :=
  "(1.5) can0 18DAF110##1De.Ad".toList

theorem payload_of_accepted_flagged :
    readLine flaggedLine
      = .ok (some (⟨0x18DAF110, [0xDE, 0xAD], true, "can0", 0⟩, some 1500000)) ∧
    [0xDE, 0xAD].flatMap hexByte = ("De.Ad".toList.filter (· != '.')).map Char.toUpper := by
  have hread : readLine flaggedLine
      = .ok (some (⟨0x18DAF110, [0xDE, 0xAD], true, "can0", 0⟩, some 1500000)) := by
    with_unfolding_all rfl
  have hbody : Compact ("18DAF110".toList ++ '#' :: '#' :: ((some '1').toList ++ "De.Ad".toList))
    "18DAF110".toList (some '1') "De.Ad".toList := .flagged (by decide) (by simp)
  obtain ⟨-, -, -, hplain⟩ := payload_of_accepted (by decide +kernel) hbody hread
  exact ⟨hread, (hplain (by decide) (by decide) rfl).2.2⟩

/-- A byte with a plus sign is accepted, and is not what is written. -/
theorem plus_sign_accepted :
    (readLine "can0 1#+5".toList).toOption = some (some (⟨1, [5], false, "can0", 0⟩, none)) ∧
    frameField? "can0 1#+5".toList = some (['1'] ++ '#' :: ['+', '5']) ∧
    Compact (['1'] ++ '#' :: ['+', '5']) ['1'] none ['+', '5'] ∧ isHexDigit '+' = false ∧
    [5].flatMap hexByte = ['0', '5'] :=
  ⟨by decide +kernel, by decide +kernel, .plain (by decide) (by decide) (by decide), rfl, by decide⟩

end Trace

end CanScript
