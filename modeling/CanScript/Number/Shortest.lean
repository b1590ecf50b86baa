import CanScript.Number.Exact

/-! # The shortest text of a floating-point number

    A finite number is written with the fewest digits that read back as the same number, and among
    those with the digits nearest to its exact value. Digits are found by trying ever finer decimal
    grids in exact arithmetic; they are always written out in full, without an exponent. -/

namespace CanScript.Number

/-- A rational interval around a number, on a common denominator: the texts that read back as the
    number are those whose value lies in it. -/
structure Basin where
  low : Nat
  value : Nat
  high : Nat
  denominator : Nat
  ends : Bool
  deriving Repr

def Basin.of (mantissa : Nat) (exponent : Int) : Basin :=
  let narrow := mantissa = pow2 52 ∧ -1074 < exponent
  let up := pow2 (exponent - 2).toNat
  let down := pow2 (2 - exponent).toNat
  { low := (4 * mantissa - (if narrow then 1 else 2)) * up
    value := 4 * mantissa * up
    high := (4 * mantissa + 2) * up
    denominator := down
    ends := mantissa % 2 == 0 }

def Basin.holds (b : Basin) (n : Nat) (scale : Int) : Bool :=
  let x := n * pow10 scale.toNat * b.denominator
  let d := pow10 (-scale).toNat
  if b.ends then b.low * d ≤ x && x ≤ b.high * d else b.low * d < x && x < b.high * d

def Basin.onGrid? (b : Basin) (scale : Int) : Option Nat :=
  let num := b.value * pow10 (-scale).toNat
  let den := b.denominator * pow10 scale.toNat
  let below := num / den
  let above := below + 1
  let nearer := if 2 * (num % den) < den then [below, above] else [above, below]
  nearer.find? fun n => b.holds n scale

def Basin.search (b : Basin) (scale : Int) : Nat → Nat × Int
  | 0 => (0, 0)
  | tries + 1 =>
    match b.onGrid? scale with
    | some n => if n = 0 then b.search (scale - 1) tries else (n, scale)
    | none => b.search (scale - 1) tries

def shortestDigits (mantissa : Nat) (exponent : Int) : Nat × Int :=
  let top : Int := (mantissa.log2 + exponent + 1) * 30103 / 100000 + 1
  (Basin.of mantissa exponent).search top 24

def positional (n : Nat) (scale : Int) : List Char :=
  let digits := Nat.toDigits 10 n
  if 0 ≤ scale then digits ++ List.replicate scale.toNat '0'
  else
    let places := (-scale).toNat
    let padded := List.replicate (places + 1 - digits.length) '0' ++ digits
    let whole := padded.length - places
    padded.take whole ++ '.' :: padded.drop whole

def floatText (x : Float) : List Char :=
  match Exact.ofFloat x with
  | .nan => ['N', 'a', 'N']
  | .infinite s => if s then ['-', 'i', 'n', 'f'] else ['i', 'n', 'f']
  | .finite s m e =>
    let (n, scale) := if m = 0 then (0, 0) else shortestDigits m e
    if s then '-' :: positional n scale else positional n scale

end CanScript.Number
