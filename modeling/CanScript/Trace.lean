import CanScript.Frame
import CanScript.Number.Decimal
import CanScript.Number.Exact
import CanScript.Text.Blank

/-! # Recorded traffic

    A trace is a text with one frame a line, either compact (`(12.5) can0 7E8#0641`, or `7E8##10641`
    with a flag digit) or in columns (`can0 7E8 [2] 06 41`).  A time in seconds may stand in front.
    Blank lines and lines that start with `#` or `//` carry no frame.  Times are counted in
    milliseconds from the first frame that has one. -/

namespace CanScript.Trace

open Number Text

/-- Why a line is not a frame. -/
inductive Cause where
  | badTimestamp (text : String)
  | noPort
  | noFrame
  | noLength
  | badLength (text : String)
  | badByte (text : String)
  | tooFewBytes (expected found : Nat)
  | oddDigits (text : String)
  | badData (text : String)
  | badId (text : String)
  | idOutOfRange (id : Nat)
  | payloadTooLong (bytes : Nat)
  deriving DecidableEq, Repr

/-- A cause in words. -/
def Cause.message : Cause → String
  | badTimestamp text => s!"invalid timestamp '{text}'"
  | noPort => "missing interface name"
  | noFrame => "missing frame"
  | noLength => "missing length field"
  | badLength text => s!"invalid length field '{text}'"
  | badByte text => s!"invalid data byte '{text}'"
  | tooFewBytes expected found => s!"expected {expected} data bytes, found {found}"
  | oddDigits text => s!"odd number of hex digits in '{text}'"
  | badData text => s!"invalid data in '{text}'"
  | badId text => s!"invalid id '{text}'"
  | idOutOfRange id =>
    let digits := String.ofList (hexDigits id)
    s!"id 0x{digits} out of range"
  | payloadTooLong bytes => s!"payload of {bytes} bytes is too long"

/-- A line of a trace that cannot be read. -/
structure Error where
  line : Nat
  cause : Cause
  deriving DecidableEq, Repr

def Error.message (e : Error) : String :=
  s!"line {e.line}: {e.cause.message}"

def isComment (line : List Char) : Bool :=
  match line with
  | [] => true
  | '#' :: _ => true
  | '/' :: '/' :: _ => true
  | _ => false

def byteSize (cs : List Char) : Nat :=
  cs.foldr (fun c n => c.utf8Size + n) 0

def readPairs? : List Char → Option (List UInt8)
  | [] => some []
  | a :: b :: rest => do
    let n ← readNat? 16 255 [a, b]
    let bytes ← readPairs? rest
    some (UInt8.ofNat n :: bytes)
  | [_] => none

def readPayload (cs : List Char) : Except Cause (List UInt8) :=
  let digits := cs.filter (· != '.')
  if byteSize digits % 2 ≠ 0 then .error (.oddDigits (String.ofList digits))
  else
    match readPairs? digits with
    | some bytes => .ok bytes
    | none => .error (.badData (String.ofList digits))

def readByte (cs : List Char) : Except Cause UInt8 :=
  match readNat? 16 255 cs with
  | some n => .ok (UInt8.ofNat n)
  | none => .error (.badByte (String.ofList cs))

def readLength? (cs : List Char) : Option Nat := do
  let inner ← dropStart? ['['] cs
  let digits ← dropEnd? [']'] inner
  readNat? 10 maxWord64 digits

def readColumns : List (List Char) → Except Cause (List UInt8)
  | [] => .error .noLength
  | field :: rest =>
    match readLength? field with
    | none => .error (.badLength (String.ofList field))
    | some n => do
      let bytes ← (rest.take n).mapM readByte
      if bytes.length = n then .ok bytes else .error (.tooFewBytes n bytes.length)

def afterFlag : List Char → List Char
  | [] => []
  | c :: rest => if c.utf8Size = 1 then rest else []

/-- Takes the frame field of a line apart into identifier and data; `rest` are the fields after it.
    -/
def readBody (body : List Char) (rest : List (List Char)) :
    Except Cause (List Char × List UInt8) :=
  match splitAt? ['#', '#'] body with
  | some (id, more) => do
    let data ← readPayload (afterFlag more)
    .ok (id, data)
  | none =>
    match splitAt? ['#'] body with
    | some (id, 'R' :: _) => .ok (id, [])
    | some (id, more) => do
      let data ← readPayload more
      .ok (id, data)
    | none => do
      let data ← readColumns rest
      .ok (body, data)

def makeFrame (port idText : List Char) (data : List UInt8) : Except Cause Frame :=
  match readNat? 16 maxWord32 idText with
  | none => .error (.badId (String.ofList idText))
  | some id =>
    if Frame.maxExtendedId < id then .error (.idOutOfRange id)
    else if Frame.maxPayload < data.length then .error (.payloadTooLong data.length)
    else
      .ok { Frame.make (String.ofList port) id data with
        extended := 3 < idText.length || Frame.maxStandardId < id }

def timeField? (cs : List Char) : Option (List Char) :=
  (dropStart? ['('] cs).bind (dropEnd? [')'])

def readMicros (cs : List Char) : Except Cause Nat :=
  match readFloat? cs with
  | some seconds => .ok ((Exact.ofFloat (seconds * 1000000.0)).round 0 maxWord64).toNat
  | none => .error (.badTimestamp (String.ofList cs))

def readTime : List (List Char) → Except Cause (Option Nat × List (List Char))
  | [] => .ok (none, [])
  | first :: rest =>
    match timeField? first with
    | none => .ok (none, first :: rest)
    | some inner => (readMicros inner).map fun micros => (some micros, rest)

def readFields (fields : List (List Char)) : Except Cause (Frame × Option Nat) := do
  let (micros, fields) ← readTime fields
  match fields with
  | [] => .error .noPort
  | [_] => .error .noFrame
  | port :: body :: rest =>
    let (id, data) ← readBody body rest
    let frame ← makeFrame port id data
    .ok (frame, micros)

def readLine (line : List Char) : Except Cause (Option (Frame × Option Nat)) :=
  let line := trim line
  if isComment line then .ok none else (readFields (fields line)).map some

/-- Where the times of a trace stand: the first one in microseconds, and the last one in
    milliseconds from there. -/
structure Clock where
  base : Option Nat := none
  last : Nat := 0

def Clock.tick (c : Clock) : Option Nat → Clock
  | none => c
  | some micros =>
    let base := c.base.getD micros
    ⟨some base, (micros - base) / 1000⟩

def readLines (number : Nat) (clock : Clock) : List (List Char) → Except Error (List Frame)
  | [] => .ok []
  | line :: rest =>
    match readLine line with
    | .error cause => .error ⟨number, cause⟩
    | .ok none => readLines (number + 1) clock rest
    | .ok (some (frame, micros)) =>
      let clock := clock.tick micros
      (readLines (number + 1) clock rest).map fun frames =>
        { frame with timestamp := clock.last } :: frames

def read (text : String) : Except Error (List Frame) :=
  readLines 1 {} (lines text.toList)

end CanScript.Trace
