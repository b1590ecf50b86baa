import CanScript.Number.Shortest
import CanScript.Number.Digits
import CanScript.Program

/-! # Values

    What an expression yields: 64-bit integers, floating-point numbers, truth values, texts, byte
    strings, or nothing.  Nothing is converted silently; an operation that is not defined for a
    value says why. -/

namespace CanScript

/-- A value of a running script. -/
inductive Value where
  | int (n : Int64)
  | float (x : Float)
  | bool (b : Bool)
  | text (s : String)
  | bytes (bs : List UInt8)
  | void
  deriving Repr, Inhabited

/-- Why an operation has no result. -/
inductive ValueFault where
  | notInt (got : String)
  | notDuration (got : String)
  | negativeDuration (shown : String)
  | byteOutOfRange (n : Int64)
  | notPayload (got : String)
  | badOperands (op left right : String)
  | badOperand (op operand : String)
  | overflow (op : String)
  | shiftOutOfRange (n : Int64)
  | divisionByZero
  | indexOutOfRange (index : Int64) (length : Nat)
  | notIndexable (got : String)
  | noMember (got field : String)
  | noLength (got : String)
  | noHex (got : String)
  | textNotInt (text : String)
  | neverInt (got : String)
  | textNotFloat (text : String)
  | neverFloat (got : String)
  deriving DecidableEq, Repr

namespace ValueFault

def kind : ValueFault → ErrorKind
  | byteOutOfRange _ => .invalidFrame
  | overflow _ => .overflow
  | shiftOutOfRange _ => .overflow
  | divisionByZero => .divisionByZero
  | indexOutOfRange .. => .indexOutOfRange
  | noMember .. => .undefinedIdentifier
  | _ => .typeMismatch

/-- A fault in words. -/
def message : ValueFault → String
  | notInt got => s!"Expected int, got {got}"
  | notDuration got => s!"Expected a duration in milliseconds, got {got}"
  | negativeDuration shown => s!"Negative duration: {shown}"
  | byteOutOfRange n => s!"Byte value out of range: {n.toInt}"
  | notPayload got => s!"Frame data must be int or bytes, got {got}"
  | badOperands op left right => s!"Operator '{op}' is not defined for {left} and {right}"
  | badOperand op operand => s!"Operator '{op}' is not defined for {operand}"
  | overflow op => s!"Integer overflow in '{op}'"
  | shiftOutOfRange n => s!"Shift amount out of range: {n.toInt}"
  | divisionByZero => "Division by zero"
  | indexOutOfRange index length => s!"Index {index.toInt} out of range for length {length}"
  | notIndexable got => s!"Cannot index into {got}"
  | noMember got field => s!"{got} has no member '{field}'"
  | noLength got => s!"len() is not defined for {got}"
  | noHex got => s!"hex() is not defined for {got}"
  | textNotInt text => s!"Cannot convert \"{text}\" to int"
  | neverInt got => s!"Cannot convert {got} to int"
  | textNotFloat text => s!"Cannot convert \"{text}\" to float"
  | neverFloat got => s!"Cannot convert {got} to float"

end ValueFault

namespace Value

open Number (Exact)

/-- The result of an operation on values. -/
abbrev Result (α : Type) := Except ValueFault α

def typeName : Value → String
  | int _ => "int"
  | float _ => "float"
  | bool _ => "bool"
  | text _ => "string"
  | bytes _ => "bytes"
  | void => "void"

def isTruthy : Value → Bool
  | int n => n != 0
  | float x => !(Exact.ofFloat x).isZero
  | bool b => b
  | text s => !s.isEmpty
  | bytes bs => !bs.isEmpty
  | void => false

def wholeLimit : Nat :=
  1000000000000000

def floatText (x : Float) : String :=
  match Exact.ofFloat x with
  | .finite s m e =>
    if (Exact.finite s m e).isWhole && Exact.wholePart m e < wholeLimit then
      (if s then "-" else "") ++ toString (Exact.wholePart m e) ++ ".0"
    else String.ofList (Number.floatText x)
  | _ => String.ofList (Number.floatText x)

def display : Value → String
  | int n => toString n.toInt
  | float x => floatText x
  | bool b => if b then "true" else "false"
  | text s => s
  | bytes bs => "[" ++ Number.hexBytes bs ++ "]"
  | void => "void"

def asInt : Value → Result Int64
  | int n => .ok n
  | v => .error (.notInt v.typeName)

def asFloat? : Value → Option Float
  | int n => some (Number.floatOfInt n)
  | float x => some x
  | _ => none

def maxMillis : Int :=
  Number.maxWord64

def millisOf (shown : String) (exact : Exact) : Result Nat :=
  if exact.compare? (.ofInt 0) == some .lt then .error (.negativeDuration shown)
  else .ok (exact.truncate 0 maxMillis).toNat

def asMillis (v : Value) : Result Nat :=
  match v with
  | int n => millisOf v.display (.nearest n.toInt)
  | float x =>
    if (Exact.ofFloat x).isFinite then millisOf v.display (.ofFloat x)
    else .error (.notDuration v.typeName)
  | _ => .error (.notDuration v.typeName)

def payload : Value → Result (List UInt8)
  | int n =>
    if 0 ≤ n.toInt ∧ n.toInt < 256 then .ok [UInt8.ofNat n.toInt.toNat]
    else .error (.byteOutOfRange n)
  | bytes bs => .ok bs
  | v => .error (.notPayload v.typeName)

end Value

end CanScript
