import CanScript.Json

/-! # Diagnostics

    Reading and running a script never fails outright: each stage reports what it found wrong,
    where, and carries on.  A diagnostic has a position, the phase that raised it, a kind for
    programs and a message for people. -/

namespace CanScript

/-- A place in a source text; lines and columns count from one. -/
structure Pos where
  line : Nat
  column : Nat
  deriving DecidableEq, Repr, Inhabited

namespace Pos

def start : Pos :=
  ⟨1, 1⟩

def next (p : Pos) (c : Char) : Pos :=
  if c == '\n' then ⟨p.line + 1, 1⟩ else ⟨p.line, p.column + 1⟩

def after (p : Pos) (cs : List Char) : Pos :=
  cs.foldl next p

@[simp] theorem after_nil (p : Pos) : p.after [] = p := rfl

@[simp] theorem after_cons (p : Pos) (c : Char) (cs : List Char) :
    p.after (c :: cs) = (p.next c).after cs := rfl

theorem after_append (p : Pos) (cs ds : List Char) :
    p.after (cs ++ ds) = (p.after cs).after ds :=
  List.foldl_append

end Pos

/-- The stage that raised a diagnostic. -/
inductive Phase where
  | lex
  | parse
  | runtime
  deriving DecidableEq, Repr

def Phase.word : Phase → String
  | lex => "LEX"
  | parse => "PARSE"
  | runtime => "RUNTIME"

/-- What kind of thing went wrong. -/
inductive ErrorKind where
  | unterminatedString
  | unterminatedComment
  | unexpectedCharacter
  | invalidNumber
  | invalidEscape
  | unexpectedToken
  | missingTerminator
  | unbalancedBlock
  | misplacedDeclaration
  | misplacedJump
  | undefinedIdentifier
  | typeMismatch
  | arityMismatch
  | notCallable
  | divisionByZero
  | overflow
  | indexOutOfRange
  | invalidFrame
  | callDepthExceeded
  | timeout
  | writeFailed
  deriving DecidableEq, Repr

/-- The word for a kind. -/
def ErrorKind.word : ErrorKind → String
  | unterminatedString => "UnterminatedString"
  | unterminatedComment => "UnterminatedComment"
  | unexpectedCharacter => "UnexpectedCharacter"
  | invalidNumber => "InvalidNumber"
  | invalidEscape => "InvalidEscape"
  | unexpectedToken => "UnexpectedToken"
  | missingTerminator => "MissingTerminator"
  | unbalancedBlock => "UnbalancedBlock"
  | misplacedDeclaration => "MisplacedDeclaration"
  | misplacedJump => "MisplacedJump"
  | undefinedIdentifier => "UndefinedIdentifier"
  | typeMismatch => "TypeMismatch"
  | arityMismatch => "ArityMismatch"
  | notCallable => "NotCallable"
  | divisionByZero => "DivisionByZero"
  | overflow => "Overflow"
  | indexOutOfRange => "IndexOutOfRange"
  | invalidFrame => "InvalidFrame"
  | callDepthExceeded => "CallDepthExceeded"
  | timeout => "Timeout"
  | writeFailed => "WriteFailed"

def ErrorKind.all : List ErrorKind :=
  [unterminatedString, unterminatedComment, unexpectedCharacter, invalidNumber, invalidEscape,
    unexpectedToken, missingTerminator, unbalancedBlock, misplacedDeclaration, misplacedJump,
    undefinedIdentifier, typeMismatch, arityMismatch, notCallable, divisionByZero, overflow,
    indexOutOfRange, invalidFrame, callDepthExceeded, timeout, writeFailed]

/-- Something wrong with a script or with its run. -/
structure Diagnostic where
  phase : Phase
  kind : ErrorKind
  pos : Pos
  message : String
  deriving DecidableEq, Repr

namespace Diagnostic

def isBlocking (d : Diagnostic) : Bool :=
  d.phase == .lex || d.phase == .parse

def text (d : Diagnostic) : String :=
  s!"{d.phase.word} error at {d.pos.line}:{d.pos.column}: {d.message}"

def toJson (d : Diagnostic) : Json :=
  .object [
    ("line", .nat d.pos.line),
    ("column", .nat d.pos.column),
    ("message", .string d.message),
    ("phase", .string d.phase.word),
    ("kind", .string d.kind.word)]

end Diagnostic

end CanScript
