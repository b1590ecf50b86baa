import CanScript.Value

/-! # Faults of a running script

    What can go wrong while a statement is executed, with its kind and its words. -/

namespace CanScript

/-- What went wrong while a script was running. -/
inductive Fault where
  | value (fault : ValueFault)
  | undefinedVariable (name : String)
  | notCallable
  | notFunction (name typeName : String)
  | unknownFunction (name : String)
  | functionArity (name : String) (expected got : Nat)
  | builtinArity (name : String) (expected got : Nat)
  | callDepth (limit : Nat) (name : String)
  | idOutOfRange (id : Int64)
  | payloadTooLong (bytes : Nat)
  | writeFailed (id : Nat) (port : String)
  | waitTimedOut (millis : Nat)
  | badRange (low high : String)
  | notNumbers (low high : String)
  | randomLength (n : Int64)
  | periodNotPositive
  deriving DecidableEq, Repr

namespace Fault

/-- The kind of a fault. -/
def kind : Fault → ErrorKind
  | value fault => fault.kind
  | undefinedVariable _ => .undefinedIdentifier
  | notCallable => .notCallable
  | notFunction .. => .notCallable
  | unknownFunction _ => .notCallable
  | functionArity .. => .arityMismatch
  | builtinArity .. => .arityMismatch
  | callDepth .. => .callDepthExceeded
  | idOutOfRange _ => .invalidFrame
  | payloadTooLong _ => .invalidFrame
  | writeFailed .. => .writeFailed
  | waitTimedOut _ => .timeout
  | badRange .. => .typeMismatch
  | notNumbers .. => .typeMismatch
  | randomLength _ => .invalidFrame
  | periodNotPositive => .typeMismatch

/-- A fault in words. -/
def message : Fault → String
  | value fault => fault.message
  | undefinedVariable name => s!"Undefined variable '{name}'"
  | notCallable => "Expression is not callable"
  | notFunction name typeName => s!"'{name}' is a {typeName}, not a function"
  | unknownFunction name => s!"Unknown function '{name}'"
  | functionArity name expected got =>
    s!"Function '{name}' expects {expected} argument(s), got {got}"
  | builtinArity name expected got => s!"{name}() expects {expected} argument(s), got {got}"
  | callDepth limit name => s!"Maximum call depth of {limit} exceeded in '{name}'"
  | idOutOfRange id => s!"CAN id {id.toInt} is out of range"
  | payloadTooLong bytes => s!"Payload of {bytes} bytes exceeds 64 bytes"
  | writeFailed id port =>
    let digits := String.ofList (Number.hexDigits id)
    s!"Write of id 0x{digits} to port {port} failed"
  | waitTimedOut millis => s!"wait_for timed out after {millis} ms"
  | badRange low high => s!"random({low}, {high}): min exceeds max"
  | notNumbers low high => s!"random() expects numbers, got {low} and {high}"
  | randomLength n => s!"random_bytes length {n.toInt} must be 0..=64"
  | periodNotPositive => "on_interval period must be positive"

def toDiagnostic (f : Fault) (pos : Pos) : Diagnostic :=
  ⟨.runtime, f.kind, pos, f.message⟩

end Fault

end CanScript
