import CanScript.CommandLine

/-! # Rehearsals

    A console in memory.  Files stand in one directory, time passes at once, and all that is written
    is kept. -/

namespace CanScript.CommandLine

/-- What a rehearsed command finds and leaves. -/
structure Rehearsal where
  files : List (String × String) := []
  input : String := ""
  configuration? : Option String := none
  output : List String := []
  complaints : List String := []
  scripts : List (String × String) := []

namespace Rehearsal

def localName (path : String) : String :=
  match Text.dropStart? ['.', '/'] path.toList with
  | some rest => String.ofList (rest.dropWhile (· == '/'))
  | none => path

def isDirectory (r : Rehearsal) (path : String) : Bool :=
  path == "." || path == ".."
    || r.files.any fun p => (Text.dropStart? (path.toList ++ ['/']) p.1.toList).isSome

def crossesFile (r : Rehearsal) (path : String) : Bool :=
  r.files.any fun p => (Text.dropStart? (p.1.toList ++ ['/']) path.toList).isSome

def pathError (r : Rehearsal) (path : String) : FileError :=
  if r.isDirectory path then .isDirectory
  else if r.crossesFile path then .notDirectory
  else .notFound

def readFile (r : Rehearsal) (path : String) : Except FileError String :=
  let name := localName path
  match r.files.lookup name with
  | some text => .ok text
  | none => .error (r.pathError name)

def setFile (r : Rehearsal) (name text : String) : Rehearsal :=
  { r with files := (name, text) :: r.files.filter fun p => p.1 != name }

def hasRoom (r : Rehearsal) (path : String) : Bool :=
  match (path.splitOn "/").reverse with
  | [] => false
  | last :: parents =>
    last != "" && (parents.isEmpty || r.isDirectory ("/".intercalate parents.reverse))

def openLog (r : Rehearsal) (path : String) : Except FileError Rehearsal :=
  let name := localName path
  if (r.files.lookup name).isSome then .ok r
  else if r.isDirectory name || !r.hasRoom name then .error (r.pathError name)
  else .ok (r.setFile name "")

def addLine (r : Rehearsal) (path line : String) : Rehearsal :=
  let name := localName path
  r.setFile name ((r.files.lookup name).getD "" ++ line ++ "\n")

def saveScript (r : Rehearsal) (name text : String) : Except FileError Rehearsal :=
  let file := name ++ ".txs"
  if file.toList.contains '/' then .error .notFound
  else .ok { r with scripts := (file, text) :: r.scripts.filter fun p => p.1 != file }

end Rehearsal

/-- The console of a rehearsal, given how home is named, how runs are named, and what time it is. -/
def rehearse (home : String) (runName : RunId → String) (time : String) :
    Console (StateM Rehearsal) where
  readFile path := fun r => (r.readFile path, r)
  readInput := fun r => (.ok r.input, r)
  configuration := fun r => (r.configuration?, r)
  openLog path := fun r =>
    match r.openLog path with
    | .ok r => (.ok (), r)
    | .error e => (.error e, r)
  addLine path line := modify (·.addLine path line)
  saveScript name text := fun r =>
    match r.saveScript name text with
    | .ok r => (.ok (home ++ "/.txscript/scripts/" ++ name ++ ".txs"), r)
    | .error e => (.error e, r)
  write text := modify fun r => { r with output := text :: r.output }
  complain line := modify fun r => { r with complaints := (line ++ "\n") :: r.complaints }
  waitUntil _ := pure ()
  waitForever := pure ()
  runName := runName
  timestamp := pure time

def Rehearsal.outputText (r : Rehearsal) : String :=
  String.join r.output.reverse

def Rehearsal.complaintText (r : Rehearsal) : String :=
  String.join r.complaints.reverse

end CanScript.CommandLine
