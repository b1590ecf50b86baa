import CanScript.Token

/-! # Faults in a sequence of tokens

    What can be wrong with the way the tokens of a script are put together, with its kind and its
    words. -/

namespace CanScript

/-- What can be wrong with a sequence of tokens. -/
inductive ParseFault where
  | expected (what : String) (found : Token)
  | noTimeout (found : Token)
  | unmatchedBrace
  | unclosedBlock
  | functionTwice (name : String)
  | nestedFunction (name : String)
  | nestedHandler (word : String)
  | jumpOutsideLoop (word : String)
  | returnOutsideBody
  | parameterTwice (name : String)
  | integerOutOfRange (text : String)
  | secondsOutOfRange
  | notAFloat (text : String)
  deriving Repr

namespace ParseFault

/-- The kind of a fault. -/
def kind : ParseFault → ErrorKind
  | expected _ found => if found.kind == .eof then .missingTerminator else .unexpectedToken
  | noTimeout _ => .missingTerminator
  | unmatchedBrace => .unbalancedBlock
  | unclosedBlock => .unbalancedBlock
  | functionTwice _ => .misplacedDeclaration
  | nestedFunction _ => .misplacedDeclaration
  | nestedHandler _ => .misplacedDeclaration
  | jumpOutsideLoop _ => .misplacedJump
  | returnOutsideBody => .misplacedJump
  | parameterTwice _ => .unexpectedToken
  | integerOutOfRange _ => .invalidNumber
  | secondsOutOfRange => .invalidNumber
  | notAFloat _ => .invalidNumber

def expectation (what : String) (found : Token) : String :=
  if found.kind == .eof then s!"Expected {what}, found end of input"
  else s!"Expected {what}, found '{found.text}'"

/-- A fault in words. -/
def message : ParseFault → String
  | expected what found => expectation what found
  | noTimeout found => expectation "'timeout(<ms>)' clause after wait_for" found
  | unmatchedBrace => "Unmatched '\x7d'"
  | unclosedBlock => "Unclosed block, expected '\x7d'"
  | functionTwice name => s!"Function '{name}' is already defined"
  | nestedFunction name => s!"Function '{name}' must be declared at top level"
  | nestedHandler word => s!"'{word}' handlers must be declared at top level"
  | jumpOutsideLoop word => s!"'{word}' outside of a loop"
  | returnOutsideBody => "'return' outside of a function or handler"
  | parameterTwice name => s!"Duplicate parameter '{name}'"
  | integerOutOfRange text => s!"Integer literal out of range: {text}"
  | secondsOutOfRange => "Time literal out of range"
  | notAFloat text => s!"Invalid float: {text}"

def toDiagnostic (f : ParseFault) (pos : Pos) : Diagnostic :=
  ⟨.parse, f.kind, pos, f.message⟩

end ParseFault

end CanScript
