import CanScript.Number.Digits
import Mathlib.Tactic.Lemma

/-! # Numerals are read back

    The digits that are written for a number are read as that number again, in decimal and in
    hexadecimal, with letters of either case and with zeros in front. -/

namespace CanScript.Number

open List

/-! ## Digits -/

variable {base n limit : Nat} {cs : List Char}

/-- The digit of a value has that value. -/
lemma digitValue?_digitChar {d} (hd : d < base) (hbase : base ≤ 16) :
    digitValue? base d.digitChar = some d := by
  have hraw : ∀ d < 16, (if d.digitChar.isDigit then some (d.digitChar.toNat - '0'.toNat)
      else if 'a' ≤ d.digitChar && d.digitChar ≤ 'f' then some (d.digitChar.toNat - 'a'.toNat + 10)
      else if 'A' ≤ d.digitChar && d.digitChar ≤ 'F' then some (d.digitChar.toNat - 'A'.toNat + 10)
      else none) = some d := by decide
  unfold digitValue?
  simp only [hraw d (by omega)]
  rw [Option.filter_some, if_pos (by simpa using hd)]

/-- So has the capital one. -/
lemma digitValue?_toUpper {d} (hd : d < 16) : digitValue? 16 d.digitChar.toUpper = some d := by
  have hdigits : ∀ d < 16, digitValue? 16 d.digitChar.toUpper = some d := by decide
  exact hdigits d hd

/-- Digits are read from the left, each on top of what was read. -/
lemma readDigitsFrom?_append (base value xs ys) : readDigitsFrom? base value (xs ++ ys)
      = (readDigitsFrom? base value xs).bind fun v => readDigitsFrom? base v ys := by
  induction xs generalizing value with
  | nil => rfl
  | cons x xs ih =>
    rw [cons_append, readDigitsFrom?, readDigitsFrom?]
    cases digitValue? base x with
    | none => rfl
    | some d => exact ih _

lemma readDigits?_of_ne_nil (h : cs ≠ []) : readDigits? base cs = readDigitsFrom? base 0 cs := by
  cases cs with
  | nil => exact absurd rfl h
  | cons c cs => rfl

lemma toDigits_ne_nil (base n) : Nat.toDigits base n ≠ [] :=
  length_pos_iff.mp Nat.length_toDigits_pos

/-- All digits are below the base. -/
lemma mem_toDigits (hbase : 1 < base) {c} (h : c ∈ Nat.toDigits base n) :
    ∃ d < base, c = d.digitChar := by
  induction n using Nat.strongRecOn with
  | ind n ih =>
    by_cases hn : n < base
    · rw [Nat.toDigits_of_lt_base hn, mem_singleton] at h
      exact ⟨n, hn, h⟩
    · rw [Nat.toDigits_of_base_le hbase (Nat.not_lt.mp hn), mem_append, mem_singleton] at h
      rcases h with h | h
      · exact ih _ (Nat.div_lt_self (by omega) hbase) h
      · exact ⟨n % base, Nat.mod_lt n (by omega), h⟩

/-- A numeral is read back, in whatever shape its digits are written. -/
lemma readDigitsFrom?_map_toDigits {g} (hbase : 1 < base)
    (hg : ∀ d < base, digitValue? base (g d.digitChar) = some d) (n) :
    readDigitsFrom? base 0 ((Nat.toDigits base n).map g) = some n := by
  have hone : ∀ value d, d < base →
      readDigitsFrom? base value [g d.digitChar] = some (value * base + d) := by
    intro value d hd
    rw [readDigitsFrom?, hg d hd]
    rfl
  induction n using Nat.strongRecOn with
  | ind n ih =>
    by_cases hn : n < base
    · rw [Nat.toDigits_of_lt_base hn, map_singleton, hone 0 n hn, Nat.zero_mul, Nat.zero_add]
    · have hdiv : n / base < n := Nat.div_lt_self (by omega) hbase
      have hmod : n % base < base := Nat.mod_lt n (by omega)
      rw [Nat.toDigits_of_base_le hbase (Nat.not_lt.mp hn), map_append, map_singleton,
        readDigitsFrom?_append, ih _ hdiv, Option.bind_some, hone _ _ hmod,
        Nat.div_add_mod']

/-- A numeral is read back. -/
lemma readDigits?_toDigits (hbase : 1 < base) (hle : base ≤ 16) (n) :
    readDigits? base (Nat.toDigits base n) = some n := by
  have hread := readDigitsFrom?_map_toDigits (g := id) hbase
    (fun d hd => digitValue?_digitChar hd hle) n
  rw [map_id] at hread
  rw [readDigits?_of_ne_nil (toDigits_ne_nil base n), hread]

lemma readDigitsFrom?_hexDigits (n) : readDigitsFrom? 16 0 (hexDigits n) = some n :=
  readDigitsFrom?_map_toDigits (by decide) (fun _ hd => digitValue?_toUpper hd) n

/-- Leading zeros add nothing. -/
lemma readDigitsFrom?_zeros (k) : readDigitsFrom? 16 0 (List.replicate k '0') = some 0 := by
  have hzero : digitValue? 16 '0' = some 0 := by decide
  induction k with
  | zero => rfl
  | succ k ih =>
    rw [replicate_succ, readDigitsFrom?, hzero]
    exact ih

lemma paddedHex_ne_nil (width n) : paddedHex width n ≠ [] := by
  intro hnil
  have hlist := (append_eq_nil_iff.mp hnil).2
  exact toDigits_ne_nil 16 n (map_eq_nil_iff.mp hlist)

/-- A padded numeral is read back. -/
lemma readDigits?_paddedHex (width n) : readDigits? 16 (paddedHex width n) = some n := by
  rw [readDigits?_of_ne_nil (paddedHex_ne_nil width n), paddedHex, readDigitsFrom?_append,
    readDigitsFrom?_zeros,
    Option.bind_some, readDigitsFrom?_hexDigits]

/-- Padding is made of digits, too. -/
lemma mem_paddedHex {width c} (h : c ∈ paddedHex width n) : ∃ d < 16, c = d.digitChar.toUpper := by
  rcases mem_append.mp h with hzero | hdigit
  · exact ⟨0, by decide, eq_of_mem_replicate hzero⟩
  · obtain ⟨digit, hmem, rfl⟩ := mem_map.mp hdigit
    obtain ⟨d, hd, rfl⟩ := mem_toDigits (by decide) hmem
    exact ⟨d, hd, rfl⟩

/-! ## Numbers up to a limit -/

/-- Without a plus sign all characters are digits. -/
lemma readNat?_of_unsigned (h : '+' ∉ cs) :
    readNat? base limit cs = (readDigits? base cs).filter (· ≤ limit) := by
  unfold readNat?
  split
  · exact absurd mem_cons_self h
  · rfl

/-- A number up to the limit is read back. -/
lemma readNat?_toDigits (h : n ≤ limit) : readNat? 10 limit (Nat.toDigits 10 n) = some n := by
  have hunsigned : '+' ∉ Nat.toDigits 10 n := fun hmem =>
    absurd (Nat.isDigit_of_mem_toDigits (by decide) (by decide) hmem) (by decide)
  rw [readNat?_of_unsigned hunsigned, readDigits?_toDigits (by decide) (by decide),
    Option.filter_some, if_pos (by simpa using h)]

/-- So is a padded one. -/
lemma readNat?_paddedHex {width} (h : n ≤ limit) :
    readNat? 16 limit (paddedHex width n) = some n := by
  have hdigits : ∀ d < 16, '+' ≠ d.digitChar.toUpper := by decide
  have hunsigned : '+' ∉ paddedHex width n := by
    intro hmem
    obtain ⟨d, hd, heq⟩ := mem_paddedHex hmem
    exact hdigits d hd heq
  rw [readNat?_of_unsigned hunsigned, readDigits?_paddedHex, Option.filter_some,
    if_pos (by simpa using h)]

/-! ## Signed numbers of 64 bits -/

/-- Without a sign all characters are digits. -/
lemma readInt64?_of_unsigned (h : ∀ c, cs.head? = some c → c ≠ '-' ∧ c ≠ '+') :
    readInt64? base cs = (readDigits? base cs).bind fun n => int64? n := by
  unfold readInt64?
  split
  · exact absurd rfl (h _ rfl).1
  · exact absurd rfl (h _ rfl).2
  · rfl

/-- Every integer of 64 bits is in range. -/
lemma int64?_toInt (n) : int64? n.toInt = some n := by
  have hmin := Int64.le_toInt n
  have hmax := Int64.toInt_lt n
  unfold int64? minInt64 maxInt64
  rw [if_pos (by omega), Int64.ofInt_toInt]

/-- Characters of a class without signs do not begin with one. -/
lemma unsigned_of_class {p : Char → Bool} (hminus : p '-' = false) (hplus : p '+' = false)
    (h : ∀ c ∈ cs, p c) : ∀ c, cs.head? = some c → c ≠ '-' ∧ c ≠ '+' := by
  intro c hc
  have hp := h c (mem_of_head? hc)
  refine ⟨?_, ?_⟩
  · rintro rfl
    rw [hp] at hminus
    cases hminus
  · rintro rfl
    rw [hp] at hplus
    cases hplus

/-- A number in range is kept. -/
lemma int64?_eq_some {z n} (h : int64? z = some n) : n.toInt = z := by
  unfold int64? minInt64 maxInt64 at h
  split at h
  · next hz =>
      obtain rfl := Option.some.inj h
      exact Int64.toInt_ofInt_of_le (by omega) (by omega)
  · cases h

/-- A numeral without a sign is read as what its digits stand for. -/
lemma readInt64?_nonneg {n} (hcs : ∀ c, cs.head? = some c → c ≠ '-' ∧ c ≠ '+')
    (h : readInt64? base cs = some n) : 0 ≤ n.toInt := by
  rw [readInt64?_of_unsigned hcs] at h
  obtain ⟨k, -, hk⟩ := Option.bind_eq_some_iff.mp h
  rw [int64?_eq_some hk]
  exact Int.natCast_nonneg k

/-- An integer that is not negative is read back. -/
lemma readInt64?_toDigits {n : Int64} (h : 0 ≤ n.toInt) :
    readInt64? 10 (Nat.toDigits 10 n.toInt.toNat) = some n := by
  have hunsigned := unsigned_of_class (p := Char.isDigit) rfl rfl fun c
    (hc : c ∈ Nat.toDigits 10 n.toInt.toNat) =>
      Nat.isDigit_of_mem_toDigits (by decide) (by decide) hc
  rw [readInt64?_of_unsigned hunsigned, readDigits?_toDigits (by decide) (by decide),
    Option.bind_some, Int.toNat_of_nonneg h, int64?_toInt]

end CanScript.Number
