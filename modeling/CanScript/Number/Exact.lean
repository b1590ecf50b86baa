import CanScript.Number.Power

/-! # The exact value of a floating-point number

    A 64-bit floating-point number is not-a-number, an infinity, or a whole number times a power of
    two.  Comparison, rounding to whole numbers and the remainder are computed here on that exact
    value, so they involve no rounding of their own. -/

namespace CanScript.Number

/-- The value a floating-point number stands for.  A finite one is `mantissa * 2 ^ exponent` with a
    sign; zero keeps its sign. -/
inductive Exact where
  | nan
  | infinite (negative : Bool)
  | finite (negative : Bool) (mantissa : Nat) (exponent : Int)
  deriving DecidableEq, Repr

namespace Exact

def ofBits (bits : Nat) : Exact :=
  let negative := bits / pow2 63 % 2 == 1
  let exponent : Nat := bits / pow2 52 % pow2 11
  let fraction := bits % pow2 52
  if exponent = pow2 11 - 1 then
    if fraction = 0 then infinite negative else nan
  else if exponent = 0 then finite negative fraction (-1074)
  else finite negative (fraction + pow2 52) ((exponent : Int) - 1075)

def ofFloat (x : Float) : Exact :=
  ofBits x.toBits.toNat

def finiteBits (negative : Bool) (mantissa : Nat) (exponent : Int) : Nat :=
  let sign := if negative then pow2 63 else 0
  let top : Int := mantissa.log2 + exponent
  if mantissa = 0 then sign
  else if top < -1022 then sign + mantissa * pow2 (exponent + 1074).toNat
  else sign + (top + 1023).toNat * pow2 52 + (mantissa * pow2 52 / pow2 mantissa.log2 - pow2 52)

def toFloat : Exact → Float
  | nan => Float.ofBits 0x7FF8000000000000
  | infinite s => Float.ofBits (if s then 0xFFF0000000000000 else 0x7FF0000000000000)
  | finite s m e => Float.ofBits (UInt64.ofNat (finiteBits s m e))

def signed (negative : Bool) (mantissa : Nat) : Int :=
  if negative then -(mantissa : Int) else mantissa

def compareScaled (m : Int) (e : Int) (n : Int) (f : Int) : Ordering :=
  let low := min e f
  compare (m * pow2 (e - low).toNat) (n * pow2 (f - low).toNat)

def compare? : Exact → Exact → Option Ordering
  | nan, _ => none
  | _, nan => none
  | infinite s, infinite t => some (if s == t then .eq else if s then .lt else .gt)
  | infinite s, finite .. => some (if s then .lt else .gt)
  | finite .., infinite t => some (if t then .gt else .lt)
  | finite s m e, finite t n f => some (compareScaled (signed s m) e (signed t n) f)

def ofInt (n : Int) : Exact :=
  finite (n < 0) n.natAbs 0

def nearest (n : Int) : Exact :=
  let dropped := n.natAbs.log2 - 52
  let unit := pow2 dropped
  let kept := n.natAbs / unit
  let rest := n.natAbs % unit
  let up := unit < 2 * rest || (unit == 2 * rest && kept % 2 == 1)
  finite (n < 0) (if up then kept + 1 else kept) dropped

def isFinite : Exact → Bool
  | finite .. => true
  | _ => false

def isZero : Exact → Bool
  | finite _ m _ => m == 0
  | _ => false

def wholePart (mantissa : Nat) (exponent : Int) : Nat :=
  if 0 ≤ exponent then mantissa * pow2 exponent.toNat else mantissa / pow2 (-exponent).toNat

def isWhole : Exact → Bool
  | finite _ m e => 0 ≤ e || m % pow2 (-e).toNat == 0
  | _ => false

def nearestWhole (mantissa : Nat) (exponent : Int) : Nat :=
  if 0 ≤ exponent then mantissa * pow2 exponent.toNat
  else (2 * mantissa + pow2 (-exponent).toNat) / pow2 ((-exponent).toNat + 1)

def clamp (low high n : Int) : Int :=
  max low (min high n)

def truncate (low high : Int) : Exact → Int
  | nan => 0
  | infinite s => if s then low else high
  | finite s m e => clamp low high (signed s (wholePart m e))

/-- Whether a value lies in a range without its upper end. -/
def isWithin (low high : Int) (v : Exact) : Bool :=
  (v.compare? (ofInt low)).any (· != .lt) && v.compare? (ofInt high) == some .lt

/-- Whether a value is whole, lies in the range of integers, and becomes this one. -/
def equalsInt (v : Exact) (n : Int) : Bool :=
  v.isWhole && v.isWithin minInt64 (maxInt64 + 1) && v.truncate minInt64 maxInt64 == n

def round (low high : Int) : Exact → Int
  | nan => 0
  | infinite s => if s then low else high
  | finite s m e => clamp low high (signed s (nearestWhole m e))

end Exact

def remainder (x y : Float) : Float :=
  match Exact.ofFloat x, Exact.ofFloat y with
  | .finite s m e, .finite _ n f =>
    if n = 0 then Exact.nan.toFloat
    else
      let low := min e f
      let rest := m * pow2 (e - low).toNat % (n * pow2 (f - low).toNat)
      (Exact.finite s rest low).toFloat
  | .finite .., .infinite _ => x
  | _, _ => Exact.nan.toFloat

def floatOfInt (n : Int64) : Float :=
  (Exact.nearest n.toInt).toFloat

end CanScript.Number
