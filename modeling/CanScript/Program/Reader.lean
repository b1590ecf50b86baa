import CanScript.Program.Fault

/-! # Readers of tokens

    A reader moves over tokens and gives what they stand for, or gives up with a fault.  A statement
    that cannot be read is reported and skipped, and reading goes on at the next boundary: a token
    on a later line, a semicolon, or a closing brace.  Whole groups in braces are skipped with it,
    so that one bad header does not unbalance the rest. -/

namespace CanScript.Parse

/-- Where the reader stands.  `rest` starts with the current token; `last` is the token before it,
    or at the beginning the first one. -/
structure State where
  rest : List Token
  last : Token
  diagnostics : List Diagnostic := []
  loopDepth : Nat := 0
  inBody : Bool := false
  deriving Repr

/-- Why a reader gives up: a fault in the tokens, or a spent budget. -/
inductive Failure where
  | fault (report : Diagnostic)
  | exhausted
  deriving Repr

/-- A reader of something: it moves the state on, also when it gives up. -/
abbrev Reader := ExceptT Failure (StateM State)

def endToken : Token :=
  ⟨.eof, "", .start⟩

def State.current (s : State) : Token :=
  s.rest.headD endToken

def State.nextKind (s : State) : TokenKind :=
  match s.rest with
  | _ :: t :: _ => t.kind
  | _ => .eof

def State.advance (s : State) : State :=
  match s.rest with
  | [] => s
  | t :: rest => if t.kind == .eof then s else { s with rest := rest, last := t }

def peek : Reader Token := do
  return (← get).current

def peekKind : Reader TokenKind := do
  return (← get).current.kind

def advance : Reader Token := do
  let t ← peek
  modify State.advance
  return t

def failAt {α : Type} (pos : Pos) (f : ParseFault) : Reader α :=
  throw (.fault (f.toDiagnostic pos))

def failExpected {α : Type} (what : String) : Reader α := do
  let t ← peek
  failAt t.pos (.expected what t)

def eat (kind : TokenKind) : Reader Bool := do
  if (← peekKind) == kind then
    modify State.advance
    return true
  else return false

def expect (kind : TokenKind) (what : String) : Reader Token := do
  if (← peekKind) == kind then advance else failExpected what

def expectSymbol (s : Symbol) (what : String) : Reader Unit := do
  let _ ← expect (.symbol s) what

def report (d : Diagnostic) : Reader Unit :=
  modify fun s => { s with diagnostics := s.diagnostics ++ [d] }

/-! ## Recovery -/

/-- The tokens from the next boundary on, after an error in something that started on a line, with
    `depth` groups open.  The boundary is the end, a closing brace outside of groups, the place
    after a semicolon or after a skipped group, or another token on a later line. -/
def boundary (line : Nat) : Nat → Token → List Token → Token × List Token
  | _, last, [] => (last, [])
  | depth, last, t :: rest =>
    if t.kind == .eof then (last, t :: rest)
    else if t.kind == .symbol .leftBrace then boundary line (depth + 1) t rest
    else if t.kind == .symbol .rightBrace then
      match depth with
      | 0 => (last, t :: rest)
      | 1 => (t, rest)
      | depth + 2 => boundary line (depth + 1) t rest
    else if t.kind == .symbol .semicolon && depth == 0 then (t, rest)
    else if depth == 0 && line < t.pos.line then (last, t :: rest)
    else boundary line depth t rest

def synchronize (line : Nat) : Reader Unit :=
  modify fun s =>
    let (last, rest) := boundary line 0 s.last s.rest
    { s with rest := rest, last := last }

def recovering {α : Type} (read : Reader α) : Reader (Option α) := do
  let line := (← peek).pos.line
  try
    return some (← read)
  catch
  | .fault d =>
    report d
    synchronize line
    return none
  | .exhausted => throw .exhausted

end CanScript.Parse
