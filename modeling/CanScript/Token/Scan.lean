import CanScript.Token
import CanScript.Text.Letter

/-! # From source text to tokens

    The scanner looks at the front of the text, decides how many characters the next piece has and
    what it is, and goes on after it.  A piece is a gap between tokens, a token, or something that
    cannot be a token and is reported.  Scanning always reaches the end of the text. -/

namespace CanScript

/-- What can be wrong with a piece of source. -/
inductive LexFault where
  | unterminatedString
  | unterminatedComment
  | unexpectedCharacter (c : Char)
  | emptyHexNumber
  | unknownEscape (c : Char)
  deriving DecidableEq, Repr

namespace LexFault

def kind : LexFault → ErrorKind
  | unterminatedString => .unterminatedString
  | unterminatedComment => .unterminatedComment
  | unexpectedCharacter _ => .unexpectedCharacter
  | emptyHexNumber => .invalidNumber
  | unknownEscape _ => .invalidEscape

def message : LexFault → String
  | unterminatedString => "Unterminated string"
  | unterminatedComment => "Unterminated block comment"
  | unexpectedCharacter c => s!"Unexpected character: '{c}'"
  | emptyHexNumber => "Hex literal requires at least one hex digit"
  | unknownEscape c => s!"Unknown escape sequence '\\{c}'"

def toDiagnostic (f : LexFault) (pos : Pos) : Diagnostic :=
  ⟨.lex, f.kind, pos, f.message⟩

end LexFault

/-- The next piece of a text: how many characters it has beyond the first one, and what it is.
    Faults inside a string literal are given with their distance from the opening quote. -/
inductive Piece where
  | gap (extra : Nat)
  | token (extra : Nat) (kind : TokenKind)
  | string (extra : Nat) (text : List Char) (faults : List (Nat × LexFault))
  | bad (extra : Nat) (faults : List (Nat × LexFault)) (fault : LexFault)
  deriving Repr

def Piece.extra : Piece → Nat
  | gap n => n
  | token n _ => n
  | string n _ _ => n
  | bad n _ _ => n

namespace Scan

def isSpace (c : Char) : Bool :=
  c == ' ' || c == '\t' || c == '\r' || c == '\n'

def isHexDigit (c : Char) : Bool :=
  c.isDigit || ('a' ≤ c && c ≤ 'f') || ('A' ≤ c && c ≤ 'F')

def closeComment? : Nat → List Char → Option Nat
  | 0, _ => some 0
  | depth + 1, '/' :: '*' :: rest => (closeComment? (depth + 2) rest).map (· + 2)
  | depth + 1, '*' :: '/' :: rest => (closeComment? depth rest).map (· + 2)
  | depth + 1, _ :: rest => (closeComment? (depth + 1) rest).map (· + 1)
  | _ + 1, [] => none

/-- A string literal after its opening quote: its length, its contents, the unknown escapes with
    their distance from the opening quote, and whether it is closed. -/
structure Quoted where
  length : Nat
  contents : List Char
  faults : List (Nat × LexFault)
  closed : Bool
  deriving Repr

def escape? : Char → Option Char
  | 'n' => some '\n'
  | 't' => some '\t'
  | '"' => some '"'
  | '\\' => some '\\'
  | _ => none

/-- Reads a string literal from `offset` characters after its opening quote.  It ends at the closing
    quote, or unclosed at the end of the line or of the text. -/
def quoted (offset : Nat) : List Char → Quoted
  | [] => ⟨0, [], [], false⟩
  | '\n' :: _ => ⟨0, [], [], false⟩
  | '"' :: _ => ⟨1, [], [], true⟩
  | '\\' :: [] => ⟨1, [], [], false⟩
  | '\\' :: '\n' :: _ => ⟨1, [], [], false⟩
  | '\\' :: c :: rest =>
    let q := quoted (offset + 2) rest
    match escape? c with
    | some e => ⟨q.length + 2, e :: q.contents, q.faults, q.closed⟩
    | none => ⟨q.length + 2, c :: q.contents, (offset, .unknownEscape c) :: q.faults, q.closed⟩
  | c :: rest =>
    let q := quoted (offset + 1) rest
    ⟨q.length + 1, c :: q.contents, q.faults, q.closed⟩

def stringPiece (rest : List Char) : Piece :=
  let q := quoted 1 rest
  if q.closed then .string q.length q.contents q.faults
  else .bad q.length q.faults .unterminatedString

def hexPiece (rest : List Char) : Piece :=
  let digits := rest.takeWhile isHexDigit
  if digits.isEmpty then .bad 1 [] .emptyHexNumber
  else .token (digits.length + 1) .hexNumber

def nameGoesOn : List Char → Bool
  | c :: _ => Text.continuesName c
  | [] => false

/-- A piece that starts with a digit, given what follows: a whole number, a number with a fraction,
    or a number of seconds. -/
def decimalPiece (rest : List Char) : Piece :=
  let digits := rest.takeWhile Char.isDigit
  match rest.dropWhile Char.isDigit with
  | '.' :: d :: more =>
    if d.isDigit then
      .token (digits.length + 2 + (more.takeWhile Char.isDigit).length) .float
    else .token digits.length .number
  | 's' :: more =>
    if nameGoesOn more then .token digits.length .number
    else .token (digits.length + 1) .seconds
  | _ => .token digits.length .number

def numberPiece (c : Char) (rest : List Char) : Piece :=
  match c, rest with
  | '0', 'x' :: more => hexPiece more
  | '0', 'X' :: more => hexPiece more
  | _, _ => decimalPiece rest

def namePiece (c : Char) (rest : List Char) : Piece :=
  let tail := rest.takeWhile Text.continuesName
  match Keyword.ofWord? (String.ofList (c :: tail)) with
  | some k => .token tail.length (.keyword k)
  | none => .token tail.length .name

def symbolPiece (c : Char) (rest : List Char) : Piece :=
  match rest.head?.bind (Symbol.wide? c) with
  | some s => .token 1 (.symbol s)
  | none =>
    match Symbol.narrow? c with
    | some s => .token 0 (.symbol s)
    | none => .bad 0 [] (.unexpectedCharacter c)

def slashPiece (rest : List Char) : Piece :=
  match rest with
  | '/' :: _ => .gap (rest.takeWhile (· != '\n')).length
  | '*' :: more =>
    match closeComment? 1 more with
    | some n => .gap (n + 1)
    | none => .bad rest.length [] .unterminatedComment
  | _ => symbolPiece '/' rest

def piece (c : Char) (rest : List Char) : Piece :=
  if isSpace c then .gap 0
  else if c == '/' then slashPiece rest
  else if c == '"' then stringPiece rest
  else if c.isDigit then numberPiece c rest
  else if Text.startsName c then namePiece c rest
  else symbolPiece c rest

def reports (pos : Pos) (faults : List (Nat × LexFault)) : List Diagnostic :=
  faults.map fun (offset, fault) => fault.toDiagnostic ⟨pos.line, pos.column + offset⟩

def Piece.token? (p : Piece) (pos : Pos) (chars : List Char) : Option Token :=
  match p with
  | .gap _ => none
  | .token _ kind => some ⟨kind, String.ofList chars, pos⟩
  | .string _ contents _ => some ⟨.text, String.ofList contents, pos⟩
  | .bad .. => some ⟨.invalid, String.ofList chars, pos⟩

def Piece.diagnostics (p : Piece) (pos : Pos) : List Diagnostic :=
  match p with
  | .gap _ => []
  | .token .. => []
  | .string _ _ faults => reports pos faults
  | .bad _ faults fault => reports pos faults ++ [fault.toDiagnostic pos]

/-- The tokens and diagnostics of a text that starts at a place. -/
def scanFrom (pos : Pos) : List Char → List Token × List Diagnostic
  | [] => ([⟨.eof, "", pos⟩], [])
  | c :: rest =>
    let p := piece c rest
    let chars := c :: rest.take p.extra
    let (tokens, diagnostics) := scanFrom (pos.after chars) (rest.drop p.extra)
    ((Piece.token? p pos chars).toList ++ tokens, Piece.diagnostics p pos ++ diagnostics)
  termination_by cs => cs.length
  decreasing_by
    simp only [List.length_drop, List.length_cons]
    omega

end Scan

def tokenize (source : String) : List Token × List Diagnostic :=
  Scan.scanFrom .start source.toList

end CanScript
