import CanScript.Task.Eval
import CanScript.Value.Convert

/-! # Built-in functions

    Random values and the functions that every script knows.  A function of the script takes the
    place of a built-in one of the same name. -/

namespace CanScript.Eval

def pickInt (low high : Int64) (n : Nat) : Int64 :=
  let span := (high.toInt - low.toInt).toNat + 1
  Int64.ofInt (low.toInt + (n % span : Nat))

def pickFloat (low high : Float) (n : Nat) : Float :=
  low + (high - low) * (Float.ofNat (n / Number.pow2 11) / Float.ofNat (Number.pow2 53))

/-- A random number between two numbers. -/
def randomFloat (pos : Pos) (low high : Value) (x y : Float) : Eval Value :=
  let failure := fail pos (.badRange low.display high.display)
  let (a, b) := (Number.Exact.ofFloat x, Number.Exact.ofFloat y)
  if !a.isFinite || !b.isFinite then failure
  else
    match a.compare? b with
    | some .lt => do
      let n ← ask .entropy
      return .float (pickFloat x y n)
    | some .eq => pure (.float x)
    | _ => failure

/-- A random value between two values. -/
def random (pos : Pos) (low high : Value) : Eval Value :=
  match low, high with
  | .int a, .int b =>
    if a ≤ b then do
      let n ← ask .entropy
      return .int (pickInt a b n)
    else randomFloat pos low high (Number.floatOfInt a) (Number.floatOfInt b)
  | _, _ =>
    match low.asFloat?, high.asFloat? with
    | some x, some y => randomFloat pos low high x y
    | _, _ => fail pos (.notNumbers low.typeName high.typeName)

def randomBytes : Nat → Eval (List UInt8)
  | 0 => pure []
  | n + 1 => do
    let b ← ask .entropy
    let rest ← randomBytes n
    return UInt8.ofNat b :: rest

/-- The functions that every script knows. -/
inductive Builtin where
  | stop
  | len
  | hex
  | str
  | int
  | float
  | now
  deriving DecidableEq, Repr

def Builtin.name : Builtin → String
  | stop => "stop"
  | len => "len"
  | hex => "hex"
  | str => "str"
  | int => "int"
  | float => "float"
  | now => "now"

def Builtin.all : List Builtin :=
  [stop, len, hex, str, int, float, now]

def Builtin.ofName? (name : String) : Option Builtin :=
  Builtin.all.find? fun b => b.name == name

def Builtin.arity : Builtin → Nat
  | stop => 0
  | now => 0
  | _ => 1

/-- Applies a built-in function to its argument. -/
def applyBuiltin (pos : Pos) (b : Builtin) (arg : Value) : Eval Value :=
  match b with
  | .stop => do
    ask .finish
    throw .stopped
  | .now => do
    let millis ← ask .elapsed
    return .int (Int64.ofNat millis)
  | .len => (fun n => .int (Int64.ofNat n)) <$> ofResult pos arg.len
  | .hex => ofResult pos arg.toHex
  | .str => pure (.text arg.display)
  | .int => ofResult pos arg.toInt
  | .float => ofResult pos arg.toFloat

def callBuiltin (pos : Pos) (b : Builtin) (args : List Value) : Eval Value :=
  if args.length = b.arity then applyBuiltin pos b (args.headD .void)
  else fail pos (.builtinArity b.name b.arity args.length)

/-- What a called name stands for. -/
inductive Callee where
  | function (f : Function)
  | builtin (b : Builtin)

def callee (s : Setting) (scope : Option ScopeId) (pos : Pos) (name : String) : Eval Callee :=
  match s.program.function? name, Builtin.ofName? name with
  | some f, _ => pure (.function f)
  | none, some b => pure (.builtin b)
  | none, none => do
    match ← lookup? scope name with
    | some v => fail pos (.notFunction name v.typeName)
    | none => fail pos (.unknownFunction name)

end CanScript.Eval
