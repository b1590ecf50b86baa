import CanScript.Number.Power

/-! # Whole numbers as text

    Readers and writers for whole numbers in a base up to sixteen.  A reader takes an optional sign
    and at least one digit and nothing else, and refuses a number outside the range it is asked for.
    -/

namespace CanScript.Number

def digitValue? (base : Nat) (c : Char) : Option Nat :=
  let value? :=
    if c.isDigit then some (c.toNat - '0'.toNat)
    else if 'a' ≤ c && c ≤ 'f' then some (c.toNat - 'a'.toNat + 10)
    else if 'A' ≤ c && c ≤ 'F' then some (c.toNat - 'A'.toNat + 10)
    else none
  value?.filter (· < base)

def readDigitsFrom? (base value : Nat) : List Char → Option Nat
  | [] => some value
  | c :: cs =>
    match digitValue? base c with
    | some d => readDigitsFrom? base (value * base + d) cs
    | none => none

def readDigits? (base : Nat) : List Char → Option Nat
  | [] => none
  | cs => readDigitsFrom? base 0 cs

def readNat? (base limit : Nat) (cs : List Char) : Option Nat :=
  let digits :=
    match cs with
    | '+' :: rest => rest
    | _ => cs
  (readDigits? base digits).filter (· ≤ limit)

def int64? (n : Int) : Option Int64 :=
  if minInt64 ≤ n ∧ n ≤ maxInt64 then some (Int64.ofInt n) else none

def readInt64? (base : Nat) : List Char → Option Int64
  | '-' :: digits => (readDigits? base digits).bind fun n => int64? (-(n : Int))
  | '+' :: digits => (readDigits? base digits).bind fun n => int64? n
  | digits => (readDigits? base digits).bind fun n => int64? n

def hexDigits (n : Nat) : List Char :=
  (Nat.toDigits 16 n).map Char.toUpper

def paddedHex (width n : Nat) : List Char :=
  let digits := hexDigits n
  List.replicate (width - digits.length) '0' ++ digits

def hexByte (b : UInt8) : List Char :=
  paddedHex 2 b.toNat

def hexBytes (bytes : List UInt8) : String :=
  " ".intercalate (bytes.map fun b => String.ofList (hexByte b))

end CanScript.Number
