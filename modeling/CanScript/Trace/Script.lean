import CanScript.Trace

/-! # A trace as a script

    Traffic that was recorded can be sent again by a script: each frame becomes a `send`, and the
    time between two frames a `delay`. -/

namespace CanScript.Trace

def hexLiteral (width n : Nat) : String :=
  "0x" ++ String.ofList (Number.paddedHex width n)

def sendArguments (f : Frame) : List String :=
  hexLiteral (if f.extended then 8 else 3) f.id
    :: f.data.map (fun b => hexLiteral 2 b.toNat)
    ++ (if f.extended && f.id ≤ Frame.maxStandardId then ["ext"] else [])

def sendLine (f : Frame) : String :=
  "send(" ++ ", ".intercalate (sendArguments f) ++ ")"

def scriptLinesAfter (time : Nat) (port : String) : List Frame → List String
  | [] => []
  | f :: rest =>
    let gap := f.timestamp - time
    (if 0 < gap then [s!"delay({gap})"] else [])
      ++ (if f.port == port then [] else ["// " ++ f.port])
      ++ sendLine f :: scriptLinesAfter f.timestamp f.port rest

def scriptLines : List Frame → List String
  | [] => []
  | f :: rest => ("// " ++ f.port) :: sendLine f :: scriptLinesAfter f.timestamp f.port rest

def toScript (frames : List Frame) : String :=
  "\n".intercalate (s!"// Replay of {frames.length} frame(s)" :: scriptLines frames) ++ "\n"

def convert (text : String) : Except Error String :=
  (read text).map toScript

end CanScript.Trace
