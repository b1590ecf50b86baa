import CanScript.Value.Operator
import Mathlib.Algebra.Order.Field.Power
import Mathlib.Data.Rat.Cast.Order
import Mathlib.Order.WithBot
import Mathlib.Tactic.Linarith
import Mathlib.Tactic.Ring

/-! # The order of numbers

    Every number of a script stands for an exact one: an integer for itself, a floating-point number
    for a rational number or an infinity.  Equality compares these.  Order rounds an integer to
    floating point before it is compared with a floating-point number.  Rounding passes no
    floating-point number, so an order that is found is right; but an integer that is rounded to the
    number it is compared with is neither less nor greater nor equal. -/

namespace CanScript

/-- The rational numbers with an infinity on either side. -/
abbrev Extended := WithBot (WithTop ℚ)

namespace Number.Exact

/-- A rational number among the extended ones. -/
abbrev ofRat (q : ℚ) : Extended := ((q : WithTop ℚ) : Extended)

def rational (negative : Bool) (mantissa : Nat) (exponent : Int) : ℚ :=
  (signed negative mantissa : ℚ) * 2 ^ exponent

/-- The number that an exact value stands for. -/
def number? : Exact → Option Extended
  | nan => none
  | infinite true => some ⊥
  | infinite false => some ⊤
  | finite s m e => some (ofRat (rational s m e))

lemma compare_congr {α β : Type} [LinearOrder α] [LinearOrder β] {a b : α} {c d : β}
    (hlt : a < b ↔ c < d) (hgt : b < a ↔ d < c) : compare a b = compare c d := by
  rcases lt_trichotomy a b with h | h | h
  · rw [compare_lt_iff_lt.mpr h, compare_lt_iff_lt.mpr (hlt.mp h)]
  · have heq : c = d := le_antisymm (not_lt.mp (mt hgt.mpr (h ▸ lt_irrefl _)))
      (not_lt.mp (mt hlt.mpr (h ▸ lt_irrefl _)))
    rw [compare_eq_iff_eq.mpr h, compare_eq_iff_eq.mpr heq]
  · rw [compare_gt_iff_gt.mpr h, compare_gt_iff_gt.mpr (hgt.mp h)]

lemma rescale (m e : Int) {low : Int} (h : low ≤ e) :
    (m : ℚ) * 2 ^ e = ((m * pow2 (e - low).toNat : Int) : ℚ) * 2 ^ low := by
  obtain ⟨k, hk⟩ := Int.eq_ofNat_of_zero_le (sub_nonneg.mpr h)
  have he : e = k + low := by omega
  rw [hk, Int.toNat_natCast, he, zpow_add₀ two_ne_zero, zpow_natCast]
  push_cast [pow2, Nat.pow_eq]
  ring

lemma compareScaled_eq (m e n f : Int) :
    compareScaled m e n f = compare ((m : ℚ) * 2 ^ e) ((n : ℚ) * 2 ^ f) := by
  have hpos : (0 : ℚ) < 2 ^ min e f := zpow_pos two_pos _
  rw [rescale m e (min_le_left e f), rescale n f (min_le_right e f)]
  refine compare_congr ?_ ?_
  · rw [mul_lt_mul_iff_left₀ hpos, Int.cast_lt]
  · rw [mul_lt_mul_iff_left₀ hpos, Int.cast_lt]

lemma compare_ofRat (q r : ℚ) : compare q r = compare (ofRat q) (ofRat r) :=
  compare_congr (by simp) (by simp)

/-- Exact values are in the order of the numbers that they stand for. -/
lemma compare?_eq {v w : Exact} {x y} (hv : v.number? = some x)
    (hw : w.number? = some y) : v.compare? w = some (compare x y) := by
  cases v with
  | nan => cases hv
  | infinite s =>
    cases w with
    | nan => cases hw
    | infinite t => cases s <;> cases t <;> cases hv <;> cases hw <;> rfl
    | finite t n f =>
      cases hw
      cases s with
      | true =>
        cases hv
        exact congrArg some (compare_lt_iff_lt.mpr (WithBot.bot_lt_coe _)).symm
      | false =>
        cases hv
        exact congrArg some (compare_gt_iff_gt.mpr
          (WithBot.coe_lt_coe.mpr (WithTop.coe_lt_top _))).symm
  | finite s m e =>
    cases hv
    cases w with
    | nan => cases hw
    | infinite t =>
      cases t with
      | true =>
        cases hw
        exact congrArg some (compare_gt_iff_gt.mpr (WithBot.bot_lt_coe _)).symm
      | false =>
        cases hw
        exact congrArg some (compare_lt_iff_lt.mpr
          (WithBot.coe_lt_coe.mpr (WithTop.coe_lt_top _))).symm
    | finite t n f =>
      cases hw
      rw [compare?, compareScaled_eq, rational, rational, compare_ofRat]

lemma ofInt_number (n : Int) : (ofInt n).number? = some (ofRat n) := by
  have hsigned : signed (decide (n < 0)) n.natAbs = n := by
    unfold signed
    split
    · next h => have := of_decide_eq_true h; omega
    · next h => have := mt decide_eq_true h; omega
  rw [ofInt, number?, rational, hsigned, zpow_zero, mul_one]

/-! ## Rounding -/

/-- The first 53 bits, rounded to the nearest, ties to even. -/
def roundedMantissa (n : Nat) : Nat :=
  let unit := pow2 (n.log2 - 52)
  if unit < 2 * (n % unit) || (unit == 2 * (n % unit) && n / unit % 2 == 1) then n / unit + 1
  else n / unit

/-- A whole number is a multiple of the last place that is kept, or it has more than 53 bits and
    lies between two multiples, to one of which it is rounded. -/
lemma rounded_cases (n : Nat) : roundedMantissa n * pow2 (n.log2 - 52) = n ∨
    ∃ k, 0 < n.log2 - 52 ∧ pow2 52 ≤ k ∧ k * pow2 (n.log2 - 52) < n ∧
      n < (k + 1) * pow2 (n.log2 - 52) ∧ k ≤ roundedMantissa n ∧ roundedMantissa n ≤ k + 1 := by
  have hpos : 0 < pow2 (n.log2 - 52) := Nat.two_pow_pos _
  have hsum := Nat.div_add_mod' n (pow2 (n.log2 - 52))
  have hrest := Nat.mod_lt n hpos
  have hmantissa : roundedMantissa n = n / pow2 (n.log2 - 52) ∨
      roundedMantissa n = n / pow2 (n.log2 - 52) + 1 ∧ 0 < n % pow2 (n.log2 - 52) := by
    rw [roundedMantissa]
    split
    · next hup =>
        simp only [Bool.or_eq_true, Bool.and_eq_true, beq_iff_eq, decide_eq_true_eq] at hup
        exact .inr ⟨rfl, by omega⟩
    · exact .inl rfl
  rcases Nat.eq_zero_or_pos (n % pow2 (n.log2 - 52)) with hzero | hbetween
  · left
    rcases hmantissa with heq | ⟨-, hne⟩
    · rw [heq]
      omega
    · omega
  · right
    have hlong : 52 < n.log2 := by
      by_contra hshort
      rw [Nat.sub_eq_zero_of_le (not_lt.mp hshort)] at hbetween
      exact absurd hbetween (by simp [pow2, Nat.mod_one])
    refine ⟨n / pow2 (n.log2 - 52), by omega, ?_, by omega, ?_, by omega, by omega⟩
    · refine (Nat.le_div_iff_mul_le hpos).mpr ?_
      calc pow2 52 * pow2 (n.log2 - 52) = 2 ^ (52 + (n.log2 - 52)) := (pow_add 2 _ _).symm
        _ = 2 ^ n.log2 := by rw [Nat.add_sub_cancel' hlong.le]
        _ ≤ n := Nat.log2_self_le (by rintro rfl; simp at hlong)
    · rw [Nat.add_mul, Nat.one_mul]
      omega

section Rounding

variable {n m : Nat} {e : Int} (hm : m < pow2 53)

include hm

lemma multiple_of_le {d} (h : (pow2 52 * pow2 d : ℚ) ≤ m * 2 ^ e) :
    ∃ j : Nat, (m * 2 ^ e : ℚ) = j * pow2 d := by
  have he : (d : Int) ≤ e := by
    by_contra hlt
    have hpower : (2 : ℚ) ^ e ≤ 2 ^ ((d : Int) - 1) := zpow_le_zpow_right₀ one_le_two (by omega)
    have hsmall : (m : ℚ) + 1 ≤ pow2 53 := by exact_mod_cast hm
    have hhalf : (2 : ℚ) ^ ((d : Int) - 1) * 2 = pow2 d := by
      rw [zpow_sub_one₀ two_ne_zero, zpow_natCast, pow2, Nat.pow_eq]
      push_cast
      ring
    have hposd : (0 : ℚ) < 2 ^ ((d : Int) - 1) := zpow_pos two_pos _
    have hbits : (pow2 53 : ℚ) = 2 * pow2 52 := by norm_num [pow2]
    nlinarith [mul_le_mul_of_nonneg_left hpower (Nat.cast_nonneg (α := ℚ) m)]
  refine ⟨m * pow2 (e - d).toNat, ?_⟩
  have hscale := rescale (m : Int) e he
  rw [zpow_natCast] at hscale
  push_cast [pow2, Nat.pow_eq] at hscale ⊢
  exact hscale

lemma rounded_le (h : (n : ℚ) ≤ m * 2 ^ e) :
    (roundedMantissa n * pow2 (n.log2 - 52) : ℚ) ≤ m * 2 ^ e := by
  rcases rounded_cases n with heq | ⟨k, -, hk, hbelow, -, -, hup⟩
  · rw [← Nat.cast_mul, heq]
    exact h
  · have hlarge : (pow2 52 * pow2 (n.log2 - 52) : ℚ) ≤ m * 2 ^ e := by
      refine le_trans ?_ h
      exact_mod_cast (Nat.mul_le_mul_right _ hk).trans hbelow.le
    obtain ⟨j, hj⟩ := multiple_of_le hm hlarge
    rw [hj] at h ⊢
    have hnj : n ≤ j * pow2 (n.log2 - 52) := by exact_mod_cast h
    have hkj : k < j := lt_of_mul_lt_mul_right (hbelow.trans_le hnj) (Nat.zero_le _)
    exact_mod_cast Nat.mul_le_mul_right _ (hup.trans hkj)

lemma le_rounded (h : (m * 2 ^ e : ℚ) ≤ n) :
    (m * 2 ^ e : ℚ) ≤ roundedMantissa n * pow2 (n.log2 - 52) := by
  rcases rounded_cases n with heq | ⟨k, -, hk, -, habove, hdown, -⟩
  · rw [← Nat.cast_mul, heq]
    exact h
  · rcases le_or_gt (pow2 52 * pow2 (n.log2 - 52) : ℚ) (m * 2 ^ e) with hlarge | hsmall
    · obtain ⟨j, hj⟩ := multiple_of_le hm hlarge
      rw [hj] at h ⊢
      have hjn : j * pow2 (n.log2 - 52) ≤ n := by exact_mod_cast h
      have hjk : j < k + 1 := lt_of_mul_lt_mul_right (hjn.trans_lt habove) (Nat.zero_le _)
      exact_mod_cast Nat.mul_le_mul_right _ ((Nat.lt_succ_iff.mp hjk).trans hdown)
    · refine hsmall.le.trans ?_
      exact_mod_cast Nat.mul_le_mul_right _ (hk.trans hdown)

end Rounding

/-- What a number is rounded to as a floating-point number. -/
def roundedRat (n : Int) : ℚ :=
  rational (n < 0) (roundedMantissa n.natAbs) ((n.natAbs.log2 - 52 : Nat) : Int)

lemma nearest_number (n : Int) : (nearest n).number? = some (ofRat (roundedRat n)) := rfl

lemma ofFloat_cases {x y} (h : (ofFloat x).number? = some y) :
    y = ⊥ ∨ y = ⊤ ∨ ∃ s m e, m < pow2 53 ∧ y = ofRat (rational s m e) := by
  have hfraction : x.toBits.toNat % pow2 52 < pow2 52 := Nat.mod_lt _ (by decide)
  rw [ofFloat, ofBits] at h
  split at h
  · split at h
    · cases hs : x.toBits.toNat / pow2 63 % 2 == 1 with
      | true =>
        rw [hs] at h
        cases h
        exact .inl rfl
      | false =>
        rw [hs] at h
        cases h
        exact .inr (.inl rfl)
    · cases h
  · split at h
    · cases h
      exact .inr (.inr ⟨_, _, _, hfraction.trans (by decide), rfl⟩)
    · cases h
      refine .inr (.inr ⟨_, _, _, ?_, rfl⟩)
      have hbits : pow2 53 = pow2 52 + pow2 52 := by decide
      omega

lemma rational_true (m e) : rational true m e = -(m * 2 ^ e) := by
  simp [rational, signed]

lemma rational_false (m e) : rational false m e = m * 2 ^ e := by
  simp [rational, signed]

lemma roundedRat_cases (n : Int) : (n : ℚ) = -n.natAbs ∧
      roundedRat n = -(roundedMantissa n.natAbs * pow2 (n.natAbs.log2 - 52)) ∨
    (n : ℚ) = n.natAbs ∧
      roundedRat n = roundedMantissa n.natAbs * pow2 (n.natAbs.log2 - 52) := by
  have hpower : (2 : ℚ) ^ ((n.natAbs.log2 - 52 : Nat) : Int) = pow2 (n.natAbs.log2 - 52) := by
    rw [zpow_natCast, pow2, Nat.pow_eq]
    push_cast
    rfl
  rcases lt_or_ge n 0 with hneg | hnonneg
  · refine .inl ⟨?_, ?_⟩
    · rw [Nat.cast_natAbs, abs_of_neg hneg]
      push_cast
      ring
    · rw [roundedRat, decide_eq_true hneg, rational_true, hpower]
  · refine .inr ⟨?_, ?_⟩
    · rw [Nat.cast_natAbs, abs_of_nonneg hnonneg]
    · rw [roundedRat, decide_eq_false hnonneg.not_gt, rational_false, hpower]

/-- An integer and what it is rounded to lie on the same side of a floating-point number. -/
lemma rounded_side (n : Int) (s) {m e} (hm : m < pow2 53) :
    ((n : ℚ) ≤ rational s m e → roundedRat n ≤ rational s m e) ∧
    (rational s m e ≤ n → rational s m e ≤ roundedRat n) := by
  have hup := rounded_le (n := n.natAbs) (e := e) hm
  have hdown := le_rounded (n := n.natAbs) (e := e) hm
  have hfloat : (0 : ℚ) ≤ m * 2 ^ e := by positivity
  have hsize : (0 : ℚ) ≤ n.natAbs := Nat.cast_nonneg _
  have hrounded : (0 : ℚ) ≤ roundedMantissa n.natAbs * pow2 (n.natAbs.log2 - 52) := by positivity
  rcases roundedRat_cases n with ⟨hn, hr⟩ | ⟨hn, hr⟩
  · rw [hn, hr]
    cases s with
    | true =>
      rw [rational_true, neg_le_neg_iff, neg_le_neg_iff, neg_le_neg_iff, neg_le_neg_iff]
      exact ⟨hdown, hup⟩
    | false =>
      rw [rational_false]
      exact ⟨fun _ => by linarith, fun h => by linarith [hup (by linarith)]⟩
  · rw [hn, hr]
    cases s with
    | true =>
      rw [rational_true]
      exact ⟨fun h => by linarith [hup (by linarith)], fun _ => by linarith⟩
    | false =>
      rw [rational_false]
      exact ⟨hup, hdown⟩

lemma roundedRat_of_le {n : Int} (h : n.natAbs ≤ pow2 53) : roundedRat n = n := by
  have hexact : (roundedMantissa n.natAbs * pow2 (n.natAbs.log2 - 52) : ℚ) = n.natAbs := by
    rcases rounded_cases n.natAbs with heq | ⟨k, hd, hk, hbelow, -⟩
    · exact_mod_cast heq
    · have htwo : pow2 1 ≤ pow2 (n.natAbs.log2 - 52) := Nat.pow_le_pow_right two_pos hd
      have hlarge := (Nat.mul_le_mul hk htwo).trans_lt hbelow
      exact absurd h (not_le.mpr ((by decide : pow2 53 = pow2 52 * pow2 1) ▸ hlarge))
  rcases roundedRat_cases n with ⟨hn, hr⟩ | ⟨hn, hr⟩
  · rw [hr, hn, hexact]
  · rw [hr, hn, hexact]

lemma number?_eq_none {v : Exact} : v.number? = none ↔ v = .nan := by
  cases v with
  | infinite s => cases s <;> simp [number?]
  | _ => simp [number?]

lemma compare?_eq_iff {v w : Exact} :
    v.compare? w == some .eq ↔ ∃ x, v.number? = some x ∧ w.number? = some x := by
  cases hv : v.number? with
  | none =>
    obtain rfl := number?_eq_none.mp hv
    simp [compare?]
  | some x =>
    cases hw : w.number? with
    | none =>
      obtain rfl := number?_eq_none.mp hw
      cases v <;> simp [compare?]
    | some y =>
      rw [compare?_eq hv hw]
      simpa using eq_comm

/-! ## Whole numbers -/

lemma isWithin_iff {v : Exact} {q : ℚ} (hv : v.number? = some (ofRat q)) (low high : Int) :
    v.isWithin low high ↔ (low : ℚ) ≤ q ∧ q < high := by
  rw [isWithin, compare?_eq hv (ofInt_number low), compare?_eq hv (ofInt_number high)]
  simp [compare_lt_iff_lt]

lemma signed_cast (s m) : (signed s m : ℚ) = (if s then -1 else 1) * m := by
  cases s <;> simp [signed]

/-- A whole value is what is left when it is cut. -/
lemma rational_of_isWhole {s m e} (h : (finite s m e).isWhole) :
    rational s m e = signed s (wholePart m e) := by
  rw [rational, signed_cast, signed_cast, mul_assoc]
  congr 1
  rw [wholePart]
  split
  · next he =>
      obtain ⟨k, rfl⟩ := Int.eq_ofNat_of_zero_le he
      simp [pow2]
  · next he =>
      obtain ⟨k, hk⟩ := Int.eq_ofNat_of_zero_le (a := -e) (by omega)
      obtain rfl : e = -k := by omega
      simp only [isWhole, he, decide_false, Bool.false_or, beq_iff_eq, neg_neg,
        Int.toNat_natCast] at h ⊢
      have hm := Nat.div_mul_cancel (Nat.dvd_of_mod_eq_zero h)
      have hcast : (m : ℚ) = (m / pow2 k : Nat) * 2 ^ k := by
        conv_lhs => rw [← hm]
        simp [pow2]
      rw [hcast, zpow_neg, zpow_natCast, mul_assoc, mul_inv_cancel₀ (by positivity), mul_one]

lemma isWhole_of_rational {s m e} {n : Int} (h : rational s m e = n) : (finite s m e).isWhole := by
  rw [isWhole, Bool.or_eq_true, decide_eq_true_eq, beq_iff_eq]
  refine or_iff_not_imp_left.mpr fun he => ?_
  obtain ⟨k, hk⟩ := Int.eq_ofNat_of_zero_le (a := -e) (by omega)
  obtain rfl : e = -k := by omega
  have hscaled : signed s m = n * 2 ^ k := by
    rw [rational, zpow_neg, zpow_natCast, ← div_eq_mul_inv, div_eq_iff (by positivity)] at h
    exact_mod_cast h
  have hdvd : (2 : Int) ^ k ∣ signed s m := Dvd.intro_left _ hscaled.symm
  rw [neg_neg, Int.toNat_natCast]
  refine Nat.mod_eq_zero_of_dvd (Int.natCast_dvd_natCast.mp ?_)
  cases s with
  | true => exact (Int.dvd_neg.mp hdvd)
  | false => exact hdvd

/-- A value that passes the three tests for an integer is just this number. -/
lemma equalsInt_iff {v : Exact} (n : Int64) :
    v.equalsInt n.toInt ↔ v.number? = some (ofRat n.toInt) := by
  have hlow : minInt64 ≤ n.toInt := n.le_toInt
  have hhigh : n.toInt < maxInt64 + 1 := n.toInt_lt
  rw [equalsInt, Bool.and_eq_true, Bool.and_eq_true, beq_iff_eq]
  cases v with
  | nan => simp [isWhole, number?]
  | infinite s => cases s <;> simp [isWhole, number?]
  | finite s m e =>
    rw [isWithin_iff rfl, number?, truncate, clamp]
    constructor
    · rintro ⟨⟨hwhole, hwithin⟩, htruncate⟩
      rw [rational_of_isWhole hwhole] at hwithin ⊢
      have hrange : minInt64 ≤ signed s (wholePart m e) ∧
          signed s (wholePart m e) < maxInt64 + 1 := by exact_mod_cast hwithin
      rw [show signed s (wholePart m e) = n.toInt by omega]
    · intro h
      have hq : rational s m e = n.toInt := by simpa using h
      have hwhole := isWhole_of_rational hq
      have hcut : signed s (wholePart m e) = n.toInt := by
        exact_mod_cast (rational_of_isWhole hwhole).symm.trans hq
      rw [hq]
      exact ⟨⟨hwhole, by exact_mod_cast hlow, by exact_mod_cast hhigh⟩, by omega⟩

end Number.Exact

/-! ## Operators -/

namespace Value

open Number (Exact pow2)

/-- The number that a value stands for. -/
def number? : Value → Option Extended
  | int n => (Exact.ofInt n.toInt).number?
  | float x => (Exact.ofFloat x).number?
  | _ => none

/-- Whether a comparison is true. -/
def Holds (op : BinaryOp) (a b : Value) : Prop :=
  binary op a b = .ok (bool true)

/-- An integer that is compared with a floating-point number has 53 bits at most. -/
def Fits : Value → Value → Prop
  | int n, float _ => n.toInt.natAbs ≤ pow2 53
  | float _, int n => n.toInt.natAbs ≤ pow2 53
  | _, _ => True

variable {a b : Value} {x y : Extended}

/-- What equality goes by: the number that a value stands for, or else the value itself. -/
def key? : Value → Option (Extended ⊕ Value)
  | int n => (int n).number?.map .inl
  | float x => (float x).number?.map .inl
  | v => some (.inr v)

def isNan : Value → Bool
  | float x => Exact.ofFloat x == .nan
  | _ => false

lemma key?_isSome (a : Value) : a.key?.isSome = !a.isNan := by
  cases a with
  | int n => simp [key?, isNan, number?, Exact.ofInt_number]
  | float x =>
    cases h : Exact.ofFloat x with
    | infinite s => cases s <;> simp [key?, isNan, number?, h, Exact.number?]
    | _ => simp [key?, isNan, number?, h, Exact.number?]
  | _ => rfl

/-- Values are equal if they have the same key. -/
lemma looseEq_iff_key {a b} : looseEq a b ↔ ∃ k, a.key? = some k ∧ b.key? = some k := by
  cases a with
  | int n =>
    cases b with
    | int m =>
      simpa [looseEq, key?, number?, Exact.ofInt_number, Exact.ofRat, Int64.toInt_inj] using eq_comm
    | float y => simp [looseEq, key?, number?, Exact.equalsInt_iff, Exact.ofInt_number]
    | _ => simp [looseEq, key?]
  | float x =>
    cases b with
    | int m => simp [looseEq, key?, number?, Exact.equalsInt_iff, Exact.ofInt_number]
    | float y => simp [looseEq, key?, number?, -beq_iff_eq, Exact.compare?_eq_iff]
    | _ => simp [looseEq, key?]
  | _ => cases b <;> simp [looseEq, key?] <;> exact eq_comm

lemma key?_of_number (ha : a.number? = some x) : a.key? = some (.inl x) := by
  cases a with
  | int n | float z =>
    rw [key?, ha]
    rfl
  | _ => cases ha

lemma holds_eq (ha : a.number? = some x) (hb : b.number? = some y) : Holds .eq a b ↔ x = y := by
  have hloose : Holds .eq a b ↔ looseEq a b := by simp [Holds, binary]
  rw [hloose, looseEq_iff_key, key?_of_number ha, key?_of_number hb]
  simpa using eq_comm

/-- The order that is found is the order of numbers on the same sides of each other, and of the same
    ones if no integer is too long. -/
lemma order?_sides (ha : a.number? = some x) (hb : b.number? = some y) :
    ∃ u v : Extended, order? a b = some (some (compare u v)) ∧ (x ≤ y → u ≤ v) ∧
      (y ≤ x → v ≤ u) ∧ (Fits a b → u = x ∧ v = y) := by
  -- an integer on either side is rounded next to a floating-point number
  have hside : ∀ {n : Int64} {z : Float} {w : Extended}, (Exact.ofFloat z).number? = some w →
      (Exact.ofRat n.toInt ≤ w → Exact.ofRat (Exact.roundedRat n.toInt) ≤ w) ∧
      (w ≤ Exact.ofRat n.toInt → w ≤ Exact.ofRat (Exact.roundedRat n.toInt)) := by
    intro n z w hw
    rcases Exact.ofFloat_cases hw with rfl | rfl | ⟨s, m, e, hm, rfl⟩
    · simp
    · simp
    · obtain ⟨hle, hge⟩ := Exact.rounded_side n.toInt s (e := e) hm
      simpa using ⟨hle, hge⟩
  cases a with
  | int n =>
    rw [number?, Exact.ofInt_number] at ha
    cases ha
    cases b with
    | int m =>
      rw [number?, Exact.ofInt_number] at hb
      cases hb
      refine ⟨_, _, ?_, id, id, fun _ => ⟨rfl, rfl⟩⟩
      rw [order?]
      exact congrArg (some ∘ some) (Exact.compare_congr (by simp) (by simp))
    | float z =>
      refine ⟨_, y, ?_, (hside hb).1, (hside hb).2, fun hfits => ⟨?_, rfl⟩⟩
      · exact congrArg some (Exact.compare?_eq (Exact.nearest_number _) hb)
      · rw [Exact.roundedRat_of_le hfits]
    | _ => cases hb
  | float z =>
    cases b with
    | int m =>
      rw [number?, Exact.ofInt_number] at hb
      cases hb
      refine ⟨x, _, ?_, (hside ha).2, (hside ha).1, fun hfits => ⟨rfl, ?_⟩⟩
      · exact congrArg some (Exact.compare?_eq ha (Exact.nearest_number _))
      · rw [Exact.roundedRat_of_le hfits]
    | float w =>
      exact ⟨x, y, congrArg some (Exact.compare?_eq ha hb), id, id, fun _ => ⟨rfl, rfl⟩⟩
    | _ => cases hb
  | _ => cases ha

lemma holds_order {u v : Extended} (h : order? a b = some (some (compare u v))) :
    (Holds .lt a b ↔ u < v) ∧ (Holds .le a b ↔ u ≤ v) ∧ (Holds .gt a b ↔ v < u) ∧
      (Holds .ge a b ↔ v ≤ u) := by
  have hop : ∀ op, compareBy op a b = .ok (bool (admits op (compare u v))) := by
    intro op
    rw [compareBy, h]
  simp only [Holds, binary, hop, admits, Except.ok.injEq, bool.injEq, beq_iff_eq, bne_iff_ne, ne_eq,
    compare_lt_iff_lt, compare_gt_iff_gt, not_lt, and_self]

/-- **Order and equality of numbers.**  Equality is that of the exact numbers, and an order that is
    found is theirs.  As long as no integer of more than 53 bits is compared with a floating-point
    number, exactly one of `<`, `==` and `>` holds, and `<=` and `>=` hold where one of the two
    does; beyond that `<=` and `>=` still hold where `>` and `<` do not. -/
theorem numbers_ordered (ha : a.number? = some x) (hb : b.number? = some y) :
    (Holds .eq a b ↔ x = y) ∧ (Holds .lt a b → x < y) ∧ (Holds .gt a b → y < x) ∧
    (Holds .le a b ↔ ¬ Holds .gt a b) ∧ (Holds .ge a b ↔ ¬ Holds .lt a b) ∧
    (Fits a b →
      (Holds .lt a b ∧ ¬ Holds .eq a b ∧ ¬ Holds .gt a b ∨
        ¬ Holds .lt a b ∧ Holds .eq a b ∧ ¬ Holds .gt a b ∨
        ¬ Holds .lt a b ∧ ¬ Holds .eq a b ∧ Holds .gt a b) ∧
      (Holds .le a b ↔ Holds .lt a b ∨ Holds .eq a b) ∧
      (Holds .ge a b ↔ Holds .gt a b ∨ Holds .eq a b) ∧
      (Holds .lt a b ↔ x < y) ∧ (Holds .gt a b ↔ y < x)) := by
  obtain ⟨u, v, horder, hle, hge, hfits⟩ := order?_sides ha hb
  obtain ⟨hlt, hle', hgt, hge'⟩ := holds_order horder
  rw [holds_eq ha hb, hlt, hgt, hle', hge']
  refine ⟨Iff.rfl, fun h => not_le.mp (mt hge h.not_ge), fun h => not_le.mp (mt hle h.not_ge),
    not_lt.symm, not_lt.symm, fun h => ?_⟩
  obtain ⟨rfl, rfl⟩ := hfits h
  refine ⟨?_, le_iff_lt_or_eq, by rw [le_iff_lt_or_eq, eq_comm], Iff.rfl, Iff.rfl⟩
  rcases lt_trichotomy u v with h | h | h
  · exact .inl ⟨h, h.ne, h.not_gt⟩
  · exact .inr (.inl ⟨h ▸ lt_irrefl _, h, h ▸ lt_irrefl _⟩)
  · exact .inr (.inr ⟨h.not_gt, h.ne', h⟩)

/-- An integer that is rounded up is less than the second floating-point number above it. -/
theorem numbers_ordered_rounded :
    (int 9007199254740993).number? = some (Exact.ofRat 9007199254740993) ∧
    (float (.ofBits 0x4340000000000002)).number? = some (Exact.ofRat 9007199254740996) ∧
    Holds .lt (int 9007199254740993) (float (.ofBits 0x4340000000000002)) ∧
    Exact.ofRat 9007199254740993 < Exact.ofRat 9007199254740996 := by
  have ha : (int 9007199254740993).number? = some (Exact.ofRat 9007199254740993) :=
    Exact.ofInt_number 9007199254740993
  have hb : (float (.ofBits 0x4340000000000002)).number?
      = some (Exact.ofRat 9007199254740996) := by
    have hbits : Exact.ofFloat (.ofBits 0x4340000000000002)
        = .finite false 4503599627370498 1 := by decide +kernel
    rw [number?, hbits, Exact.number?, Exact.rational_false]
    norm_num
  have horder : order? (int 9007199254740993) (float (.ofBits 0x4340000000000002))
      = some (some .lt) := by decide +kernel
  have hlt : Holds .lt (int 9007199254740993) (float (.ofBits 0x4340000000000002)) := by
    simp [Holds, binary, compareBy, horder, admits]
  exact ⟨ha, hb, hlt, (numbers_ordered ha hb).2.1 hlt⟩

/-- An integer of more than 53 bits is neither less nor greater than the floating-point number that
    it is rounded to, nor equal to it. -/
theorem rounded_integer_unordered :
    (int 9007199254740993).number?.isSome = true ∧
    (float (.ofBits 0x4340000000000000)).number?.isSome = true ∧
    ¬ (Holds .lt (int 9007199254740993) (float (.ofBits 0x4340000000000000)) ∨
      Holds .eq (int 9007199254740993) (float (.ofBits 0x4340000000000000)) ∨
      Holds .gt (int 9007199254740993) (float (.ofBits 0x4340000000000000))) := by
  have horder : order? (int 9007199254740993) (float (.ofBits 0x4340000000000000))
      = some (some .eq) := by decide +kernel
  have heq : looseEq (int 9007199254740993) (float (.ofBits 0x4340000000000000)) = false := by
    decide +kernel
  refine ⟨rfl, ?_, ?_⟩
  · have hbits : Exact.ofFloat (.ofBits 0x4340000000000000)
        = .finite false 4503599627370496 1 := by decide +kernel
    rw [number?, hbits]
    rfl
  · simp [Holds, binary, compareBy, horder, heq, admits]

/-- **Equality is an equivalence** of all values but those that are not a number, and an integer is
    equal to a floating-point number only if that stands for it exactly. -/
theorem looseEq_equivalence : (∀ a b, looseEq a b = looseEq b a) ∧
    (∀ a b c, looseEq a b → looseEq b c → looseEq a c) ∧
    (∀ a, looseEq a a ↔ a.isNan = false) ∧
    (∀ (n : Int64) (x : Float),
      looseEq (int n) (float x) ↔ (Exact.ofFloat x).number? = some (Exact.ofRat n.toInt)) ∧
    ∀ (m n : Int64) (x : Float), looseEq (int m) (float x) → looseEq (int n) (float x) → m = n := by
  have hsymm : ∀ a b, looseEq a b = looseEq b a := by
    intro a b
    rw [Bool.eq_iff_iff, looseEq_iff_key, looseEq_iff_key]
    exact exists_congr fun _ => and_comm
  have htrans : ∀ a b c, looseEq a b → looseEq b c → looseEq a c := by
    intro a b c hab hbc
    obtain ⟨k, ha, hb⟩ := looseEq_iff_key.mp hab
    obtain ⟨k', hb', hc⟩ := looseEq_iff_key.mp hbc
    obtain rfl := Option.some.inj (hb.symm.trans hb')
    exact looseEq_iff_key.mpr ⟨k, ha, hc⟩
  refine ⟨hsymm, htrans, fun a => ?_, fun n x => ?_, fun m n x hm hn => ?_⟩
  · rw [looseEq_iff_key, ← Bool.not_eq_true', ← key?_isSome, Option.isSome_iff_exists]
    exact exists_congr fun _ => and_self_iff
  · simp [looseEq_iff_key, key?, number?, Exact.ofInt_number]
  · have h := htrans _ _ _ hm ((hsymm _ _).trans hn)
    simpa [looseEq] using h

theorem looseEq_equivalence_three : looseEq (int 3) (float (.ofBits 0x4008000000000000)) = true ∧
    looseEq (float (.ofBits 0x4008000000000000)) (int 3) = true ∧
    looseEq (int 3) (int 3) = true := by
  have h : looseEq (int 3) (float (.ofBits 0x4008000000000000)) := by decide +kernel
  have h' := (looseEq_equivalence.1 _ _).trans h
  exact ⟨h, h', looseEq_equivalence.2.1 _ _ _ h h'⟩

end Value

end CanScript
