import CanScript.Number.Decimal
import CanScript.Text.Blank
import CanScript.Value.Operator

/-! # Conversions between values

    The functions `len`, `int`, `float`, `hex` and `str` that a script may call on a value. -/

namespace CanScript.Value

open Number (Exact)

def len (v : Value) : Result Nat :=
  match v.length? with
  | some n => .ok n
  | none => .error (.noLength v.typeName)

def readInt? (cs : List Char) : Option Int64 :=
  match cs with
  | '0' :: 'x' :: digits => Number.readInt64? 16 digits
  | '0' :: 'X' :: digits => Number.readInt64? 16 digits
  | digits => Number.readInt64? 10 digits

/-- The integer of a value.  A fraction is dropped, and a number beyond the range goes to its end.
    -/
def toInt (v : Value) : Result Value :=
  match v with
  | int n => .ok (int n)
  | float x =>
    let exact := Exact.ofFloat x
    if exact.isFinite then
      .ok (int (Int64.ofInt (exact.truncate Number.minInt64 Number.maxInt64)))
    else .error (.neverInt v.typeName)
  | bool b => .ok (int (if b then 1 else 0))
  | text s =>
    let cs := Text.trim s.toList
    match readInt? cs with
    | some n => .ok (int n)
    | none => .error (.textNotInt (String.ofList cs))
  | _ => .error (.neverInt v.typeName)

def toFloat (v : Value) : Result Value :=
  match v with
  | int n => .ok (float (Number.floatOfInt n))
  | float x => .ok (float x)
  | text s =>
    match Number.readFloat? (Text.trim s.toList) with
    | some x => .ok (float x)
    | none => .error (.textNotFloat s)
  | _ => .error (.neverFloat v.typeName)

def hexText (n : Int64) : String :=
  let digits := String.ofList (Number.hexDigits n.toInt.natAbs)
  if n.toInt < 0 then "-0x" ++ digits else "0x" ++ digits

def toHex (v : Value) : Result Value :=
  match v with
  | int n => .ok (text (hexText n))
  | bytes bs => .ok (text (Number.hexBytes bs))
  | _ => .error (.noHex v.typeName)

end CanScript.Value
