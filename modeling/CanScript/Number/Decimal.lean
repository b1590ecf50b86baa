import CanScript.Number.Digits

/-! # Floating-point numbers from text

    A number is written with an optional sign, digits with an optional point on either side or
    inside, and an optional exponent; `inf`, `infinity` and `nan` in any case are read too.  The
    result is the nearest floating-point number. -/

namespace CanScript.Number

/-- The parts of a written number: its digits without the point, and the power of ten that scales
    them. -/
structure Scientific where
  digits : Nat
  digitCount : Nat
  exponent : Int
  deriving Repr

def readExponent? : List Char → Option Int
  | '+' :: cs => (readDigits? 10 cs).map Int.ofNat
  | '-' :: cs => (readDigits? 10 cs).map fun n => -(n : Int)
  | cs => (readDigits? 10 cs).map Int.ofNat

def readScale? : List Char → Option Int
  | [] => some 0
  | c :: cs => if c == 'e' || c == 'E' then readExponent? cs else none

/-- Reads digits, an optional point with more digits, and the scale. -/
def readScientific? (cs : List Char) : Option Scientific := do
  let whole := cs.takeWhile Char.isDigit
  let rest := cs.dropWhile Char.isDigit
  let (fraction, rest) :=
    match rest with
    | '.' :: more => (more.takeWhile Char.isDigit, more.dropWhile Char.isDigit)
    | _ => ([], rest)
  let all := whole ++ fraction
  let digits ← readDigits? 10 all
  let scale ← readScale? rest
  some ⟨digits, all.length, scale - fraction.length⟩

def Scientific.toFloat (s : Scientific) : Float :=
  if s.digits = 0 then 0.0
  else if s.exponent + s.digitCount < -400 then 0.0
  else if 400 < s.exponent then Float.ofBits 0x7FF0000000000000
  else if s.exponent < 0 then Float.ofScientific s.digits true s.exponent.natAbs
  else Float.ofScientific s.digits false s.exponent.natAbs

def readMagnitude? (cs : List Char) : Option Float :=
  let word := cs.map Char.toLower
  if word == ['i', 'n', 'f'] || word == ['i', 'n', 'f', 'i', 'n', 'i', 't', 'y'] then
    some (Float.ofBits 0x7FF0000000000000)
  else if word == ['n', 'a', 'n'] then some (Float.ofBits 0x7FF8000000000000)
  else (readScientific? cs).map Scientific.toFloat

def readFloat? : List Char → Option Float
  | '-' :: cs => (readMagnitude? cs).map fun x => -x
  | '+' :: cs => readMagnitude? cs
  | cs => readMagnitude? cs

end CanScript.Number
