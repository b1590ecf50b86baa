import CanScript.Value

/-! # Operators on values

    Arithmetic on two integers is exact or fails; with a floating-point number on either side it is
    floating-point arithmetic.  Bitwise operators and shifts take integers only.  Equality is
    defined for all values and compares numbers by their exact values; order compares integers with
    integers, texts with texts, and other numbers as floating point. -/

namespace CanScript.Value

open Number (Exact)

def looseEq : Value → Value → Bool
  | int a, int b => a == b
  | int a, float y => (Exact.ofFloat y).equalsInt a.toInt
  | float x, int b => (Exact.ofFloat x).equalsInt b.toInt
  | float x, float y => (Exact.ofFloat x).compare? (.ofFloat y) == some .eq
  | bool a, bool b => a == b
  | text s, text t => s == t
  | bytes bs, bytes cs => bs == cs
  | void, void => true
  | _, _ => false

def mismatch (op : BinaryOp) (left right : Value) : ValueFault :=
  .badOperands op.symbol left.typeName right.typeName

def compareText (s t : String) : Ordering :=
  if s < t then .lt else if s == t then .eq else .gt

def rounded? : Value → Option Exact
  | int n => some (.nearest n.toInt)
  | float x => some (.ofFloat x)
  | _ => none

def order? (left right : Value) : Option (Option Ordering) :=
  match left, right with
  | int a, int b => some (some (compare a.toInt b.toInt))
  | text s, text t => some (some (compareText s t))
  | _, _ =>
    match left.rounded?, right.rounded? with
    | some x, some y => some (x.compare? y)
    | _, _ => none

def admits (op : BinaryOp) (o : Ordering) : Bool :=
  match op with
  | .lt => o == .lt
  | .le => o != .gt
  | .gt => o == .gt
  | _ => o != .lt

def compareBy (op : BinaryOp) (left right : Value) : Result Value :=
  match order? left right with
  | none => .error (mismatch op left right)
  | some none => .ok (bool false)
  | some (some o) => .ok (bool (admits op o))

def checked (op : String) (n : Int) : Result Value :=
  match Number.int64? n with
  | some m => .ok (int m)
  | none => .error (.overflow op)

def shift (f : Int64 → Int64 → Int64) (a b : Int64) : Result Value :=
  if 0 ≤ b.toInt ∧ b.toInt < 64 then .ok (int (f a b)) else .error (.shiftOutOfRange b)

def bitwise (op : BinaryOp) (left right : Value) : Result Value :=
  match left, right with
  | int a, int b =>
    match op with
    | .bitOr => .ok (int (a ||| b))
    | .bitXor => .ok (int (a ^^^ b))
    | .bitAnd => .ok (int (a &&& b))
    | .shl => shift (· <<< ·) a b
    | _ => shift (· >>> ·) a b
  | _, _ => .error (mismatch op left right)

/-- Arithmetic on two integers.  Division cuts towards zero, and the remainder has the sign of the
    dividend. -/
def intArithmetic (op : BinaryOp) (a b : Int64) : Result Value :=
  match op with
  | .add => checked op.symbol (a.toInt + b.toInt)
  | .sub => checked op.symbol (a.toInt - b.toInt)
  | .mul => checked op.symbol (a.toInt * b.toInt)
  | .div =>
    if b == 0 then .error .divisionByZero else checked op.symbol (Int.tdiv a.toInt b.toInt)
  | .rem =>
    if b == 0 then .error .divisionByZero
    else if a.toInt == Number.minInt64 && b.toInt == -1 then .error (.overflow op.symbol)
    else checked op.symbol (Int.tmod a.toInt b.toInt)
  | _ => .error (mismatch op (int a) (int b))

def floatArithmetic (op : BinaryOp) (x y : Float) : Result Value :=
  let divide (f : Float → Float → Float) : Result Value :=
    if (Exact.ofFloat y).isZero then .error .divisionByZero else .ok (float (f x y))
  match op with
  | .add => .ok (float (x + y))
  | .sub => .ok (float (x - y))
  | .mul => .ok (float (x * y))
  | .div => divide (· / ·)
  | .rem => divide Number.remainder
  | _ => .error (mismatch op (float x) (float y))

def arithmetic (op : BinaryOp) (left right : Value) : Result Value :=
  match left, right with
  | int a, int b => intArithmetic op a b
  | _, _ =>
    match left.asFloat?, right.asFloat? with
    | some x, some y => floatArithmetic op x y
    | _, _ => .error (mismatch op left right)

def sum (left right : Value) : Result Value :=
  match left, right with
  | text s, text t => .ok (text (s ++ t))
  | bytes bs, bytes cs => .ok (bytes (bs ++ cs))
  | _, _ => arithmetic .add left right

def binary (op : BinaryOp) (left right : Value) : Result Value :=
  match op with
  | .or => .ok (bool (left.isTruthy || right.isTruthy))
  | .and => .ok (bool (left.isTruthy && right.isTruthy))
  | .eq => .ok (bool (looseEq left right))
  | .ne => .ok (bool (!looseEq left right))
  | .lt | .le | .gt | .ge => compareBy op left right
  | .bitOr | .bitXor | .bitAnd | .shl | .shr => bitwise op left right
  | .add => sum left right
  | .sub | .mul | .div | .rem => arithmetic op left right

def unary (op : UnaryOp) (v : Value) : Result Value :=
  match op, v with
  | .not, v => .ok (bool !v.isTruthy)
  | .neg, int n => checked "-" (-n.toInt)
  | .neg, float x => .ok (float (-x))
  | .bitNot, int n => .ok (int (~~~n))
  | op, v => .error (.badOperand op.symbol v.typeName)

def element? {α : Type} (xs : List α) (i : Int64) : Option α :=
  if 0 ≤ i.toInt then xs[i.toInt.toNat]? else none

/-- The byte or the character at an index. -/
def index (v i : Value) : Result Value :=
  match i.asInt with
  | .error f => .error f
  | .ok i =>
    match v with
    | bytes bs =>
      match element? bs i with
      | some b => .ok (int (Int64.ofNat b.toNat))
      | none => .error (.indexOutOfRange i bs.length)
    | text s =>
      match element? s.toList i with
      | some c => .ok (text (String.ofList [c]))
      | none => .error (.indexOutOfRange i s.length)
    | v => .error (.notIndexable v.typeName)

def length? : Value → Option Nat
  | bytes bs => some bs.length
  | text s => some s.length
  | _ => none

def member (v : Value) (field : String) : Result Value :=
  match v.length? with
  | some n =>
    if field == "length" || field == "len" then .ok (int (Int64.ofNat n))
    else .error (.noMember v.typeName field)
  | none => .error (.noMember v.typeName field)

end CanScript.Value
