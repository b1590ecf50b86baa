import CanScript.Proofs.Comparison
import CanScript.Task.Builtin
import Mathlib

/-! # Bounds of random integers

    Between two integers in order, a random integer lies between them, and each one between them may
    come.  Bounds in the wrong order are compared as floating-point numbers.  Rounding keeps the
    order, so they are refused, unless both are rounded to the same number: then that comes out.
    What is known of the bits of a floating-point number comes with no part of the library but the
    whole. -/

namespace CanScript

namespace Number.Exact

/-! ## Bits -/

open Float.Model

lemma toBits_ofBits {n} (hn : n < pow2 64) (h : n / pow2 52 % pow2 11 ≠ pow2 11 - 1) :
    (Float.ofBits (UInt64.ofNat n)).toBits.toNat = n := by
  have hbits : (UInt64.ofNat n).toBitVec.toNat = n := Nat.mod_eq_of_lt hn
  have hnan : @UnpackedFloat.isNaNBits .binary64 (UInt64.ofNat n).toBitVec = false := by
    rw [UnpackedFloat.isNaNBits, decide_eq_false_iff_not]
    rintro ⟨hexponent, -⟩
    have hfield := congrArg BitVec.toNat hexponent
    simp only [UnpackedFloat.unpackExponent_def, BitVec.extractLsb'_toNat, hbits,
      Nat.shiftRight_eq_div_pow] at hfield
    exact h hfield
  show (UnpackedFloat.pack .binary64 (.unpack .binary64 (UInt64.ofNat n).toBitVec)).toNat = n
  rw [UnpackedFloat.pack_unpack, hnan]
  exact hbits

/-- The bits of a sign, an exponent and a fraction are read back. -/
lemma ofFloat_fields (s) {field fraction} (hfield : 0 < field ∧ field < pow2 11 - 1)
    (hfraction : fraction < pow2 52) :
    (ofFloat (.ofBits (.ofNat ((if s then pow2 63 else 0) + field * pow2 52 + fraction))))
      = finite s (fraction + pow2 52) ((field : Int) - 1075) := by
  have h52 : pow2 52 = 4503599627370496 := rfl
  have h11 : pow2 11 = 2048 := rfl
  have h63 : pow2 63 = 9223372036854775808 := rfl
  have h64 : pow2 64 = 18446744073709551616 := rfl
  rw [ofFloat, toBits_ofBits, ofBits]
  · simp only [h52, h11, h63] at *
    rw [if_neg (by split <;> omega), if_neg (by split <;> omega)]
    cases s <;> simp <;> omega
  · simp only [h52, h63, h64] at *
    split <;> omega
  · simp only [h52, h11, h63] at *
    split <;> omega

/-- A mantissa is shifted until its first bit is the one that is left out. -/
lemma shifted_mantissa {m} (hpos : 0 < m) (hm : m ≤ pow2 53) :
    m.log2 ≤ 53 ∧ m * pow2 52 / pow2 m.log2 * pow2 m.log2 = m * pow2 52 ∧
    pow2 52 ≤ m * pow2 52 / pow2 m.log2 ∧ m * pow2 52 / pow2 m.log2 < 2 * pow2 52 := by
  have hpower : 0 < pow2 m.log2 := Nat.two_pow_pos _
  have hlow : pow2 m.log2 ≤ m := Nat.log2_self_le hpos.ne'
  have hhigh : m < pow2 m.log2 * 2 := Nat.lt_log2_self
  have hlog : m.log2 ≤ 53 := (Nat.pow_le_pow_iff_right (by decide)).mp (hlow.trans hm)
  refine ⟨hlog, Nat.div_mul_cancel ?_, ?_, ?_⟩
  · rcases hlog.lt_or_eq with hlt | heq
    · exact Dvd.dvd.mul_left (pow_dvd_pow 2 (Nat.lt_succ_iff.mp hlt)) m
    · rw [heq] at hlow ⊢
      exact Dvd.dvd.mul_right (dvd_of_eq (le_antisymm hlow hm)) _
  · rw [Nat.le_div_iff_mul_le hpower, Nat.mul_comm m]
    exact Nat.mul_le_mul_left _ hlow
  · rw [Nat.div_lt_iff_lt_mul hpower, Nat.mul_comm 2, Nat.mul_assoc, Nat.mul_comm m, Nat.mul_comm 2]
    exact Nat.mul_lt_mul_of_pos_left hhigh (Nat.two_pow_pos 52)

/-- The shift of a mantissa is made up for by the exponent. -/
lemma shifted_value {q m k} (h : q * pow2 k = m * pow2 52) (d) :
    (q : ℚ) * 2 ^ (((k + d + 1023 : Nat) : Int) - 1075) = m * 2 ^ (d : Int) := by
  have hcast : (q : ℚ) * pow2 k = m * pow2 52 := by exact_mod_cast h
  have hscale : ((k + d + 1023 : Nat) : Int) - 1075 = k + d - (52 : Nat) := by omega
  have hne : (pow2 52 : ℚ) ≠ 0 := by norm_num [pow2]
  have hpowers : (2 : ℚ) ^ ((k : Int) + d - (52 : Nat)) = pow2 k * 2 ^ (d : Int) / pow2 52 := by
    rw [zpow_sub₀ two_ne_zero, zpow_add₀ two_ne_zero]
    norm_num [pow2]
  rw [hscale, hpowers, ← mul_div_assoc, ← mul_assoc, hcast, mul_right_comm,
    mul_div_cancel_right₀ _ hne]

lemma toFloat_number (s) {m d : Nat} (hm : m ≤ pow2 53) (hd : d ≤ 11) :
    (ofFloat (finite s m d).toFloat).number? = some (ofRat (rational s m d)) := by
  rcases Nat.eq_zero_or_pos m with rfl | hpos
  · have hbits : finiteBits s 0 d = if s then pow2 63 else 0 := by
      unfold finiteBits
      exact if_pos rfl
    have hzero : ofFloat (finite s 0 d).toFloat = finite s 0 (-1074) := by
      rw [toFloat, hbits]
      cases s <;> decide +kernel
    have hsigned : signed s 0 = 0 := by cases s <;> rfl
    rw [hzero, number?, rational, rational, hsigned, Int.cast_zero, zero_mul, zero_mul]
  · obtain ⟨hlog, hexact, hmin, hmax⟩ := shifted_mantissa hpos hm
    have hbits : finiteBits s m d = (if s then pow2 63 else 0) + (m.log2 + d + 1023) * pow2 52
        + (m * pow2 52 / pow2 m.log2 - pow2 52) := by
      have hfield : ((m.log2 : Int) + d + 1023).toNat = m.log2 + d + 1023 := by omega
      unfold finiteBits
      rw [if_neg hpos.ne', if_neg (by omega), hfield]
    have hfields : 0 < m.log2 + d + 1023 ∧ m.log2 + d + 1023 < pow2 11 - 1 :=
      ⟨by omega, lt_of_lt_of_le (by omega : _ < 1088) (by decide)⟩
    rw [toFloat, hbits, ofFloat_fields s hfields (by omega), number?, Nat.sub_add_cancel hmin]
    have hsize := shifted_value hexact d
    cases s with
    | false => rw [rational_false, rational_false, hsize]
    | true => rw [rational_true, rational_true, hsize]

lemma roundedMantissa_le (n : Nat) : roundedMantissa n ≤ pow2 53 := by
  have hbits : n < pow2 53 * pow2 (n.log2 - 52) := by
    calc n < 2 ^ (n.log2 + 1) := Nat.lt_log2_self
      _ ≤ 2 ^ (53 + (n.log2 - 52)) := Nat.pow_le_pow_right two_pos (by omega)
      _ = pow2 53 * pow2 (n.log2 - 52) := pow_add 2 _ _
  have hquotient : n / pow2 (n.log2 - 52) < pow2 53 :=
    (Nat.div_lt_iff_lt_mul (Nat.two_pow_pos _)).mpr hbits
  rw [roundedMantissa]
  split <;> omega

/-- The floating-point number of an integer stands for the integer as it is rounded. -/
lemma floatOfInt_number (n) :
    (ofFloat (floatOfInt n)).number? = some (ofRat (roundedRat n.toInt)) := by
  have hmin := Int64.le_toInt n
  have hmax := Int64.toInt_lt n
  have hlog : n.toInt.natAbs.log2 - 52 ≤ 11 := by
    rcases Nat.eq_zero_or_pos n.toInt.natAbs with hzero | hpos
    · rw [hzero]
      decide
    · have hlt : n.toInt.natAbs.log2 < 64 := (Nat.log2_lt hpos.ne').mpr (by omega)
      omega
  exact toFloat_number _ (roundedMantissa_le _) hlog

lemma isFinite_of_number {v : Exact} {q} (h : v.number? = some (ofRat q)) : v.isFinite := by
  cases v with
  | nan => cases h
  | infinite s => cases s <;> simp [number?, ofRat] at h
  | finite => rfl

/-! ## Rounding keeps the order -/

lemma rounded_mono {m n} (h : m ≤ n) :
    roundedMantissa m * pow2 (m.log2 - 52) ≤ roundedMantissa n * pow2 (n.log2 - 52) := by
  rcases Nat.eq_zero_or_pos m with rfl | hpos
  · exact Nat.zero_le _
  have hlow := Nat.log2_self_le (n := n) (by omega)
  rcases Nat.lt_or_ge m (2 ^ n.log2) with hbelow | hsame
  · -- a power of two lies between the two
    have hone : 1 < pow2 53 := by decide
    have hpower : ((1 : Nat) : ℚ) * 2 ^ (n.log2 : Int) = (2 ^ n.log2 : Nat) := by simp
    have hleft := rounded_le (n := m) (e := n.log2) hone (by rw [hpower]; exact_mod_cast hbelow.le)
    have hright := le_rounded (n := n) (e := n.log2) hone (by rw [hpower]; exact_mod_cast hlow)
    exact_mod_cast hleft.trans hright
  · -- both are rounded to multiples of the same unit
    have hlog : m.log2 = n.log2 :=
      (Nat.log2_eq_iff hpos.ne').mpr ⟨hsame, h.trans_lt Nat.lt_log2_self⟩
    have hsum := Nat.div_add_mod' m (pow2 (n.log2 - 52))
    have hsum' := Nat.div_add_mod' n (pow2 (n.log2 - 52))
    rw [hlog]
    refine Nat.mul_le_mul_right _ ?_
    simp only [roundedMantissa, hlog, Bool.or_eq_true, Bool.and_eq_true, decide_eq_true_eq,
      beq_iff_eq]
    rcases (Nat.div_le_div_right (c := pow2 (n.log2 - 52)) h).lt_or_eq with hlt | heq
    · split_ifs <;> omega
    · rw [heq] at hsum ⊢
      split_ifs <;> omega

lemma roundedRat_mono {m n} (h : m ≤ n) : roundedRat m ≤ roundedRat n := by
  have hcast : (m : ℚ) ≤ n := Int.cast_le.mpr h
  have hmono : ∀ {a b : Nat}, (a : ℚ) ≤ b → (roundedMantissa a * pow2 (a.log2 - 52) : ℚ)
      ≤ roundedMantissa b * pow2 (b.log2 - 52) := by
    intro a b hab
    exact_mod_cast rounded_mono (Nat.cast_le.mp hab)
  have hpos : (0 : ℚ) ≤ m.natAbs := Nat.cast_nonneg _
  have hpos' : (0 : ℚ) ≤ n.natAbs := Nat.cast_nonneg _
  rcases roundedRat_cases m with ⟨hm, hrm⟩ | ⟨hm, hrm⟩ <;>
    rcases roundedRat_cases n with ⟨hn, hrn⟩ | ⟨hn, hrn⟩
  · rw [hrm, hrn]
    exact neg_le_neg (hmono (by linarith))
  · rw [hrm, hrn]
    exact (neg_nonpos.mpr (by positivity)).trans (by positivity)
  · -- both are zero
    rw [Int.cast_inj.mp (by linarith : (m : ℚ) = n)]
  · rw [hrm, hrn]
    exact hmono (by linarith)

end Number.Exact

/-! ## Picking -/

namespace Eval

open Number (Exact floatOfInt)

lemma pickInt_range {low high} (h : low ≤ high) :
    (∀ n, low ≤ pickInt low high n ∧ pickInt low high n ≤ high) ∧
    ∀ k, (∃ n < 2 ^ 64, pickInt low high n = k) ↔ low ≤ k ∧ k ≤ high := by
  have hle : low.toInt ≤ high.toInt := Int64.le_iff_toInt_le.mp h
  have hmin := Int64.le_toInt low
  have hmax := Int64.toInt_lt high
  have hrest : ∀ n, n % ((high.toInt - low.toInt).toNat + 1) < (high.toInt - low.toInt).toNat + 1 :=
    fun n => Nat.mod_lt n (Nat.succ_pos _)
  have hpick : ∀ n, (pickInt low high n).toInt
      = low.toInt + (n % ((high.toInt - low.toInt).toNat + 1) : Nat) := by
    intro n
    have hn := hrest n
    exact Int64.toInt_ofInt_of_le (by omega) (by omega)
  have hrange : ∀ n, low ≤ pickInt low high n ∧ pickInt low high n ≤ high := by
    intro n
    have hn := hrest n
    rw [Int64.le_iff_toInt_le, Int64.le_iff_toInt_le, hpick]
    omega
  refine ⟨hrange, fun k => ⟨?_, fun ⟨hlow, hhigh⟩ => ?_⟩⟩
  · rintro ⟨n, -, rfl⟩
    exact hrange n
  · rw [Int64.le_iff_toInt_le] at hlow hhigh
    refine ⟨(k.toInt - low.toInt).toNat, by omega, Int64.toInt_inj.mp ?_⟩
    rw [hpick, Nat.mod_eq_of_lt (by omega)]
    omega

lemma randomFloat_reversed (pos) {low high} (h : high < low) :
    randomFloat pos (.int low) (.int high) (floatOfInt low) (floatOfInt high)
      = if Exact.roundedRat high.toInt = Exact.roundedRat low.toInt then
          pure (.float (floatOfInt low))
        else fail pos (.badRange (Value.int low).display (Value.int high).display) := by
  have hfinite : ∀ n, (Exact.ofFloat (floatOfInt n)).isFinite := fun n =>
    Exact.isFinite_of_number (Exact.floatOfInt_number n)
  have hcompare := Exact.compare?_eq (Exact.floatOfInt_number low) (Exact.floatOfInt_number high)
  rw [← Exact.compare_ofRat] at hcompare
  unfold randomFloat
  rcases (Exact.roundedRat_mono (Int64.le_iff_toInt_le.mp (Int64.le_of_lt h))).lt_or_eq with
    hlt | heq
  · rw [compare_gt_iff_gt.mpr hlt] at hcompare
    simp [hfinite, hcompare, hlt.ne]
  · rw [compare_eq_iff_eq.mpr heq.symm] at hcompare
    simp [hfinite, hcompare, heq]

/-- **Bounds of random integers.**  A random integer between bounds in order lies between them, and
    may be each one that does.  Bounds in the wrong order are a fault without a result if they
    differ as floating-point numbers; otherwise that number comes out. -/
theorem random_integers_bounded (pos : Pos) (low high : Int64) (l : Local) :
    if low ≤ high then ∃ pick : Nat → Int64,
      (random pos (.int low) (.int high)).start l
        = .act .entropy (fun n => .pure (.ok (.int (pick n)), l)) ∧
      (∀ n, low ≤ pick n ∧ pick n ≤ high) ∧ ∀ k, (∃ n < 2 ^ 64, pick n = k) ↔ low ≤ k ∧ k ≤ high
    else if Exact.roundedRat high.toInt = Exact.roundedRat low.toInt then
      (random pos (.int low) (.int high)).start l = .pure (.ok (.float (floatOfInt low)), l)
    else ∃ d : Diagnostic, d.kind = .typeMismatch ∧ d.pos = pos ∧
      (random pos (.int low) (.int high)).start l = .pure (.error (.error d), l) := by
  have hrandom : random pos (.int low) (.int high) = if low ≤ high then
      (do let n ← ask .entropy; return .int (pickInt low high n))
      else randomFloat pos (.int low) (.int high) (floatOfInt low) (floatOfInt high) := rfl
  rw [hrandom]
  split_ifs with hle hround
  · exact ⟨pickInt low high, rfl, pickInt_range hle⟩
  · rw [randomFloat_reversed pos (Int64.not_le.mp hle), if_pos hround]
    rfl
  · rw [randomFloat_reversed pos (Int64.not_le.mp hle), if_neg hround]
    exact ⟨_, rfl, rfl, rfl⟩

/-- Two bounds in the wrong order that are rounded to the same number give that number. -/
theorem reversed_bounds_accepted : (9007199254740992 : Int64) < 9007199254740993 ∧
    (random .start (.int 9007199254740993) (.int 9007199254740992)).start {}
      = .pure (.ok (.float (floatOfInt 9007199254740993)), {}) := by
  have hsame : Exact.nearest 9007199254740992 = Exact.nearest 9007199254740993 := by decide +kernel
  refine ⟨by decide, ?_⟩
  rw [random, if_neg (by decide), randomFloat_reversed _ (by decide), if_pos ?_]
  · rfl
  · have h := congrArg Exact.number? hsame
    rw [Exact.nearest_number, Exact.nearest_number] at h
    simpa using h

end Eval

end CanScript
