import CanScript.Json
import CanScript.Number.Digits

/-! # Frames

    A frame is one message on a port of the bus: an identifier of 11 or 29 bits, up to 64 bytes, and
    the time on the bus clock. -/

namespace CanScript

/-- One message on the bus. -/
structure Frame where
  id : Nat
  data : List UInt8
  extended : Bool
  port : String
  /-- Milliseconds on the bus clock. -/
  timestamp : Nat
  deriving DecidableEq, Repr

namespace Frame

def maxStandardId : Nat :=
  0x7FF

def maxExtendedId : Nat :=
  0x1FFFFFFF

def maxPayload : Nat :=
  64

def make (port : String) (id : Nat) (data : List UInt8) : Frame :=
  ⟨id, data, maxStandardId < id, port, 0⟩

def dlc (f : Frame) : Nat :=
  f.data.length

def idText (f : Frame) : String :=
  String.ofList (Number.paddedHex (if f.extended then 8 else 3) f.id)

def text (f : Frame) : String :=
  s!"{f.port} {f.idText} [{f.dlc}] {Number.hexBytes f.data}"

def toJson (f : Frame) : Json :=
  .object [
    ("id", .nat f.id),
    ("data", .array (f.data.map fun b => .nat b.toNat)),
    ("extended", .bool f.extended),
    ("port", .string f.port),
    ("timestamp", .nat f.timestamp)]

end Frame

end CanScript
