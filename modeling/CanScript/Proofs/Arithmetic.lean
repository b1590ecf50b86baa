import CanScript.Proofs.Numerals
import CanScript.Value.Convert
import CanScript.Value.Operator
import Mathlib.Data.Int.Bitwise
import Mathlib.Tactic.Ring

/-! # Arithmetic and texts of integers

    Arithmetic on integers gives the exact result or a fault, and never wraps.  The text that is
    written for an integer is read as that integer.  The hexadecimal text is, too, unless it has a
    sign: the mark is only looked for at the start. -/

namespace CanScript

open List Text

lemma Text.trim_of_unbroken {cs} (h : ∀ c ∈ cs, isBlank c = false) : trim cs = cs := by
  have hkept : ∀ cs : List Char, (∀ c ∈ cs, isBlank c = false) → cs.dropWhile isBlank = cs := by
    intro cs hcs
    cases cs with
    | nil => rfl
    | cons c cs => rw [dropWhile_cons, hcs c mem_cons_self]; rfl
  rw [trim, trimLeft, trimRight, hkept cs h, hkept _ (by simpa using h), reverse_reverse]

namespace Value

open Number

/-! ## Operators -/

/-- What an operation on integers gives that never wraps: the exact result, or an overflow where
    that does not fit. -/
def Exactly (r : Result Value) (op : String) (z : Int) : Prop :=
  (∃ n : Int64, n.toInt = z ∧ r = .ok (int n)) ∨
  ((z < -2 ^ 63 ∨ 2 ^ 63 ≤ z) ∧ r = .error (.overflow op))

lemma checked_exactly (op : String) (z) : Exactly (checked op z) op z := by
  unfold checked Exactly
  split
  · next n hn => exact .inl ⟨n, Number.int64?_eq_some hn, rfl⟩
  · next hnone =>
      refine .inr ⟨?_, rfl⟩
      unfold Number.int64? Number.minInt64 Number.maxInt64 at hnone
      split at hnone
      · cases hnone
      · omega

lemma Exactly.ok {r op z} (h : Exactly r op z)
    (hfits : -2 ^ 63 ≤ z ∧ z < 2 ^ 63) : ∃ n, n.toInt = z ∧ r = .ok (int n) := by
  rcases h with hexact | ⟨hout, -⟩
  · exact hexact
  · omega

/-- The quotient of two integers fits, but for one pair. -/
lemma tdiv_fits (a b : Int64) (hpair : ¬ (a.toInt = -2 ^ 63 ∧ b.toInt = -1)) :
    -2 ^ 63 ≤ a.toInt.tdiv b.toInt ∧ a.toInt.tdiv b.toInt < 2 ^ 63 := by
  have hdiv : (a / b).toInt = a.toInt.tdiv b.toInt := by
    by_cases hminus : b = -1
    · exact Int64.toInt_div_of_ne_left a b fun h => hpair ⟨by rw [h]; rfl, by rw [hminus]; rfl⟩
    · exact Int64.toInt_div_of_ne_right a b hminus
  rw [← hdiv]
  exact ⟨Int64.le_toInt _, Int64.toInt_lt _⟩

lemma tmod_fits (a b : Int64) : -2 ^ 63 ≤ a.toInt.tmod b.toInt ∧ a.toInt.tmod b.toInt < 2 ^ 63 := by
  rw [← Int64.toInt_mod]
  exact ⟨Int64.le_toInt _, Int64.toInt_lt _⟩

/-- A rest is smaller than the divisor, and has the sign of the dividend. -/
lemma tmod_bounds (a : Int) {b} (hb : b ≠ 0) :
    |a.tmod b| < |b| ∧ (a.tmod b = 0 ∨ (a.tmod b).sign = a.sign) := by
  constructor
  · have hlt := Nat.mod_lt a.natAbs (Int.natAbs_pos.mpr hb)
    rw [← Int.natAbs_tmod] at hlt
    rw [Int.abs_eq_natAbs, Int.abs_eq_natAbs]
    exact Int.ofNat_lt.mpr hlt
  · have hsign := Int.sign_tmod a b
    split at hsign
    · exact .inl (Int.sign_eq_zero_iff_zero.mp hsign)
    · exact .inr hsign

lemma shift_amount {b : Int64} (h : 0 ≤ b.toInt ∧ b.toInt < 64) :
    (b.toBitVec.smod 64).toNat = b.toInt.toNat := by
  have hsame : (b.toBitVec.smod 64).toInt = b.toInt := by
    rw [BitVec.toInt_smod, Int64.toInt_toBitVec]
    exact Int.fmod_eq_of_lt h.1 h.2
  have hnat := BitVec.toInt_eq_toNat_cond (b.toBitVec.smod 64)
  have hlt := (b.toBitVec.smod 64).isLt
  split at hnat <;> omega

lemma toInt_shiftRight (a : Int64) {b} (h : 0 ≤ b.toInt ∧ b.toInt < 64) :
    (a >>> b).toInt = a.toInt / 2 ^ b.toInt.toNat := by
  rw [← Int64.toInt_toBitVec, Int64.toBitVec_shiftRight, BitVec.sshiftRight_eq', shift_amount h,
    BitVec.toInt_sshiftRight, Int.shiftRight_eq_div_pow, Int64.toInt_toBitVec]
  norm_cast

lemma toInt_shiftLeft (a : Int64) {b} (h : 0 ≤ b.toInt ∧ b.toInt < 64) :
    (a <<< b).toInt = (a.toInt * 2 ^ b.toInt.toNat).bmod (2 ^ 64) := by
  have hnat : a.toInt = (a.toBitVec.toNat : Int).bmod (2 ^ 64) := BitVec.toInt_eq_toNat_bmod _
  rw [← Int64.toInt_toBitVec, Int64.toBitVec_shiftLeft, BitVec.shiftLeft_eq', shift_amount h,
    BitVec.toInt_shiftLeft, Nat.shiftLeft_eq, hnat, Int.bmod_mul_bmod]
  norm_cast

lemma testBit_toInt (n : Int64) {i} (hi : i < 64) : n.toInt.testBit i = n.toBitVec.getLsbD i := by
  have hcases := BitVec.toInt_eq_toNat_cond n.toBitVec
  have hlt := n.toBitVec.isLt
  rw [Int64.toInt_toBitVec] at hcases
  rw [BitVec.getLsbD]
  split at hcases
  · rw [hcases]
    rfl
  · -- a negative number is one less than the negated complement of its bits
    have hneg : n.toInt = Int.negSucc (2 ^ 64 - (n.toBitVec.toNat + 1)) := by omega
    rw [hneg, Int.testBit, Nat.testBit_two_pow_sub_succ hlt, decide_eq_true hi]
    simp

lemma toInt_complement (a : Int64) : (~~~a).toInt = -a.toInt - 1 := by
  have hmin := Int64.le_toInt a
  have hmax := Int64.toInt_lt a
  rw [Int64.toInt_not]
  exact Int.bmod_eq_of_le (by omega) (by omega)

/-- **Operators on integers never wrap silently.**  Sums, differences, products and negations are
    exact or overflow.  Division truncates, and the rest has the sign of the dividend; by zero it is
    a fault, and the one quotient that does not fit overflows for both.  Shifts are by less than the
    width, and the right one keeps the sign.  The operators on bits work on each bit. -/
theorem integer_operators_exact (a b : Int64) :
    Exactly (binary .add (int a) (int b)) "+" (a.toInt + b.toInt) ∧
    Exactly (binary .sub (int a) (int b)) "-" (a.toInt - b.toInt) ∧
    Exactly (binary .mul (int a) (int b)) "*" (a.toInt * b.toInt) ∧
    Exactly (unary .neg (int a)) "-" (-a.toInt) ∧
    (if b.toInt = 0 then
      binary .div (int a) (int b) = .error .divisionByZero ∧
        binary .rem (int a) (int b) = .error .divisionByZero
    else if a.toInt = -2 ^ 63 ∧ b.toInt = -1 then
      binary .div (int a) (int b) = .error (.overflow "/") ∧
        binary .rem (int a) (int b) = .error (.overflow "%")
    else ∃ q r : Int64,
      binary .div (int a) (int b) = .ok (int q) ∧ binary .rem (int a) (int b) = .ok (int r) ∧
      a.toInt = q.toInt * b.toInt + r.toInt ∧ |r.toInt| < |b.toInt| ∧
      (r.toInt = 0 ∨ r.toInt.sign = a.toInt.sign)) ∧
    (if 0 ≤ b.toInt ∧ b.toInt < 64 then ∃ left right : Int64,
      binary .shl (int a) (int b) = .ok (int left) ∧
      left.toInt = (a.toInt * 2 ^ b.toInt.toNat).bmod (2 ^ 64) ∧
      binary .shr (int a) (int b) = .ok (int right) ∧
      right.toInt = a.toInt / 2 ^ b.toInt.toNat
    else
      binary .shl (int a) (int b) = .error (.shiftOutOfRange b) ∧
      binary .shr (int a) (int b) = .error (.shiftOutOfRange b) ∧
      (ValueFault.shiftOutOfRange b).kind = .overflow) ∧
    (∃ n : Int64, unary .bitNot (int a) = .ok (int n) ∧ n.toInt = -a.toInt - 1) ∧
    ∃ both either one : Int64, binary .bitAnd (int a) (int b) = .ok (int both) ∧
      binary .bitOr (int a) (int b) = .ok (int either) ∧
      binary .bitXor (int a) (int b) = .ok (int one) ∧
      ∀ i < 64, both.toInt.testBit i = (a.toInt.testBit i && b.toInt.testBit i) ∧
        either.toInt.testBit i = (a.toInt.testBit i || b.toInt.testBit i) ∧
        one.toInt.testBit i = (a.toInt.testBit i ^^ b.toInt.testBit i) := by
  refine ⟨checked_exactly _ _, checked_exactly _ _, checked_exactly _ _, checked_exactly _ _,
    ?division, ?shifts, ⟨_, rfl, toInt_complement a⟩, _, _, _, rfl, rfl, rfl, ?bits⟩
  case division =>
    split_ifs with hb hpair
    · obtain rfl : b = 0 := Int64.toInt_inj.mp hb
      exact ⟨rfl, rfl⟩
    · obtain rfl : a = Int64.minValue := Int64.toInt_inj.mp hpair.1
      obtain rfl : b = -1 := Int64.toInt_inj.mp hpair.2
      exact ⟨rfl, rfl⟩
    · have hzero : (b == 0) = false := beq_eq_false_iff_ne.mpr (by rintro rfl; exact hb rfl)
      have hmin : (a.toInt == Number.minInt64 && b.toInt == -1) = false := by
        rw [Bool.eq_false_iff]
        simpa [Number.minInt64] using hpair
      obtain ⟨q, hq, hdiv⟩ := (checked_exactly "/" _).ok (tdiv_fits a b hpair)
      obtain ⟨r, hr, hrem⟩ := (checked_exactly "%" _).ok (tmod_fits a b)
      refine ⟨q, r, ?_, ?_, ?_, hr ▸ tmod_bounds a.toInt hb⟩
      · rw [← hdiv, binary, arithmetic, intArithmetic, hzero]
        rfl
      · rw [← hrem, binary, arithmetic, intArithmetic, hzero, hmin]
        rfl
      · rw [hq, hr, Int.mul_comm, Int.mul_tdiv_add_tmod]
  case shifts =>
    split_ifs with hb
    · exact ⟨a <<< b, a >>> b, if_pos hb, toInt_shiftLeft a hb, if_pos hb, toInt_shiftRight a hb⟩
    · exact ⟨if_neg hb, if_neg hb, rfl⟩
  case bits =>
    intro i hi
    simp [testBit_toInt _ hi]

/-! ## Texts -/

lemma display_int (n : Int64) : (display (int n)).toList =
    (if n.toInt < 0 then ['-'] else []) ++ Nat.toDigits 10 n.toInt.natAbs := by
  show (toString n.toInt).toList = _
  cases n.toInt with
  | ofNat k =>
    rw [if_neg (Int.not_lt.mpr (Int.natCast_nonneg k) : ¬ Int.ofNat k < 0)]
    exact String.toList_ofList
  | negSucc k =>
    rw [if_pos (Int.negSucc_lt_zero k)]
    exact (String.toList_append ..).trans (congrArg ('-' :: ·) String.toList_ofList)

lemma hexText_toList (n : Int64) : (hexText n).toList =
    (if n.toInt < 0 then ['-', '0', 'x'] else ['0', 'x']) ++ hexDigits n.toInt.natAbs := by
  rw [hexText]
  split <;> simp [String.toList_append]

lemma hexDigits_eq (k : Nat) : hexDigits k = paddedHex 0 k := by
  simp [paddedHex]

lemma unbroken_append {mark ds : List Char} {base} {digit : Nat → Char}
    (hmark : mark.all (!isBlank ·)) (hds : ∀ c ∈ ds, ∃ d < base, c = digit d)
    (hdigit : ∀ d < base, isBlank (digit d) = false) :
    ∀ c ∈ mark ++ ds, isBlank c = false := by
  intro c hc
  rcases mem_append.mp hc with hc | hc
  · simpa using all_eq_true.mp hmark c hc
  · obtain ⟨d, hd, rfl⟩ := hds c hc
    exact hdigit d hd

lemma toInt_text {s : String} (h : ∀ c ∈ s.toList, isBlank c = false) :
    toInt (text s) = (readInt? s.toList).elim (.error (.textNotInt s)) (.ok ∘ int) := by
  rw [toInt, trim_of_unbroken h, String.ofList_toList]
  cases readInt? s.toList <;> rfl

lemma readInt?_of_unmarked {cs} (h : ∀ c ∈ cs, c ≠ 'x' ∧ c ≠ 'X') :
    readInt? cs = readInt64? 10 cs := by
  unfold readInt?
  split
  · exact absurd rfl (h 'x' (mem_cons_of_mem _ mem_cons_self)).1
  · exact absurd rfl (h 'X' (mem_cons_of_mem _ mem_cons_self)).2
  · rfl

lemma readInt?_display (n : Int64) : readInt? (display (int n)).toList = some n := by
  have hdigit : ∀ c ∈ Nat.toDigits 10 n.toInt.natAbs, c.isDigit := fun c hc =>
    Nat.isDigit_of_mem_toDigits (by decide) (by decide) hc
  rw [display_int, readInt?_of_unmarked]
  · split
    · next hneg =>
        show (readDigits? 10 (Nat.toDigits 10 n.toInt.natAbs)).bind _ = _
        rw [readDigits?_toDigits (by decide) (by decide), Option.bind_some,
          show -(n.toInt.natAbs : Int) = n.toInt by omega, int64?_toInt]
    · next hpos =>
        rw [nil_append, show n.toInt.natAbs = n.toInt.toNat by omega,
          readInt64?_toDigits (Int.not_lt.mp hpos)]
  · intro c hc
    rcases mem_append.mp hc with hc | hc
    · split at hc <;> simp_all
    · constructor <;> (rintro rfl; exact absurd (hdigit _ hc) (by decide))

lemma readInt?_hexText (n : Int64) :
    readInt? (hexText n).toList = if n.toInt < 0 then none else some n := by
  rw [hexText_toList]
  split
  · rfl
  · next hpos =>
      have hsign : ∀ d < 16, d.digitChar.toUpper ≠ '-' ∧ d.digitChar.toUpper ≠ '+' := by decide
      show readInt64? 16 (hexDigits n.toInt.natAbs) = _
      rw [hexDigits_eq, readInt64?_of_unsigned, readDigits?_paddedHex, Option.bind_some,
        show (n.toInt.natAbs : Int) = n.toInt by omega, int64?_toInt]
      intro c hc
      obtain ⟨d, hd, rfl⟩ := mem_paddedHex (mem_of_head? hc)
      exact hsign d hd

/-- **The text of an integer is read as that integer**, in decimal always, and in hexadecimal unless
    it is negative: a mark behind a sign is not read. -/
theorem integer_text_read (n : Int64) : toInt (text (display (int n))) = .ok (int n) ∧
    ∃ s, toHex (int n) = .ok (text s) ∧
      toInt (text s) = if n.toInt < 0 then .error (.textNotInt s) else .ok (int n) := by
  have hdecimal : ∀ c ∈ (display (int n)).toList, Text.isBlank c = false := by
    rw [display_int]
    exact unbroken_append (by split <;> decide) (fun _ => mem_toDigits (by decide)) (by decide)
  have hhex : ∀ c ∈ (hexText n).toList, Text.isBlank c = false := by
    rw [hexText_toList, hexDigits_eq]
    exact unbroken_append (by split <;> decide) (fun _ => mem_paddedHex) (by decide)
  refine ⟨?_, hexText n, rfl, ?_⟩
  · rw [toInt_text hdecimal, readInt?_display]
    rfl
  · rw [toInt_text hhex, readInt?_hexText]
    split <;> rfl

/-- What is written for minus one in hexadecimal is not read. -/
theorem negative_hex_unread :
    toHex (int (-1)) = .ok (text "-0x1") ∧ toInt (text "-0x1") = .error (.textNotInt "-0x1") :=
  ⟨rfl, rfl⟩

end Value

end CanScript
