import CanScript.Diagnostic

/-! # Tokens

    The words of a script: literals, names, keywords and symbols, each with its text and the place
    where it starts.  A part of the source that is no word at all becomes an invalid token, so that
    nothing is lost. -/

namespace CanScript

/-- The words with a fixed meaning. -/
inductive Keyword where
  | var
  | send
  | delay
  | times
  | forever
  | when
  | otherwise
  | waitFor
  | random
  | randomBytes
  | function
  | giveBack
  | onReceive
  | onInterval
  | leave
  | again
  | print
  | ext
  | timeout
  | data
  | yes
  | no
  deriving DecidableEq, Repr

namespace Keyword

/-- How a keyword is spelled. -/
def word : Keyword → String
  | var => "var"
  | send => "send"
  | delay => "delay"
  | times => "repeat"
  | forever => "loop"
  | when => "if"
  | otherwise => "else"
  | waitFor => "wait_for"
  | random => "random"
  | randomBytes => "random_bytes"
  | function => "function"
  | giveBack => "return"
  | onReceive => "on_receive"
  | onInterval => "on_interval"
  | leave => "break"
  | again => "continue"
  | print => "print"
  | ext => "ext"
  | timeout => "timeout"
  | data => "data"
  | yes => "true"
  | no => "false"

def all : List Keyword :=
  [var, send, delay, times, forever, when, otherwise, waitFor, random, randomBytes, function,
    giveBack, onReceive, onInterval, leave, again, print, ext, timeout, data, yes, no]

def ofWord? (word : String) : Option Keyword :=
  all.find? fun k => k.word == word

/-- Every keyword is found by its spelling. -/
theorem ofWord?_word (k : Keyword) : ofWord? k.word = some k := by
  cases k <;> decide

end Keyword

/-- Operators and punctuation. -/
inductive Symbol where
  | plus
  | minus
  | star
  | slash
  | percent
  | amp
  | pipe
  | caret
  | tilde
  | bang
  | ampAmp
  | pipePipe
  | shiftLeft
  | shiftRight
  | less
  | lessEq
  | greater
  | greaterEq
  | eqEq
  | notEq
  | assign
  | plusAssign
  | minusAssign
  | starAssign
  | slashAssign
  | question
  | colon
  | leftParen
  | rightParen
  | leftBrace
  | rightBrace
  | leftBracket
  | rightBracket
  | comma
  | semicolon
  | dot
  deriving DecidableEq, Repr

namespace Symbol

/-- How a symbol is spelled. -/
def spelling : Symbol → String
  | plus => "+"
  | minus => "-"
  | star => "*"
  | slash => "/"
  | percent => "%"
  | amp => "&"
  | pipe => "|"
  | caret => "^"
  | tilde => "~"
  | bang => "!"
  | ampAmp => "&&"
  | pipePipe => "||"
  | shiftLeft => "<<"
  | shiftRight => ">>"
  | less => "<"
  | lessEq => "<="
  | greater => ">"
  | greaterEq => ">="
  | eqEq => "=="
  | notEq => "!="
  | assign => "="
  | plusAssign => "+="
  | minusAssign => "-="
  | starAssign => "*="
  | slashAssign => "/="
  | question => "?"
  | colon => ":"
  | leftParen => "("
  | rightParen => ")"
  | leftBrace => "\x7b"
  | rightBrace => "\x7d"
  | leftBracket => "["
  | rightBracket => "]"
  | comma => ","
  | semicolon => ";"
  | dot => "."

/-- The symbol made of two characters, if they make one. -/
def wide? : Char → Char → Option Symbol
  | '&', '&' => some ampAmp
  | '|', '|' => some pipePipe
  | '<', '<' => some shiftLeft
  | '>', '>' => some shiftRight
  | '<', '=' => some lessEq
  | '>', '=' => some greaterEq
  | '=', '=' => some eqEq
  | '!', '=' => some notEq
  | '+', '=' => some plusAssign
  | '-', '=' => some minusAssign
  | '*', '=' => some starAssign
  | '/', '=' => some slashAssign
  | _, _ => none

/-- The symbol made of one character, if it makes one. -/
def narrow? : Char → Option Symbol
  | '+' => some plus
  | '-' => some minus
  | '*' => some star
  | '/' => some slash
  | '%' => some percent
  | '&' => some amp
  | '|' => some pipe
  | '^' => some caret
  | '~' => some tilde
  | '!' => some bang
  | '<' => some less
  | '>' => some greater
  | '=' => some assign
  | '?' => some question
  | ':' => some colon
  | '(' => some leftParen
  | ')' => some rightParen
  | '\x7b' => some leftBrace
  | '\x7d' => some rightBrace
  | '[' => some leftBracket
  | ']' => some rightBracket
  | ',' => some comma
  | ';' => some semicolon
  | '.' => some dot
  | _ => none

end Symbol

/-- What a token is. -/
inductive TokenKind where
  | number
  | hexNumber
  | float
  | seconds
  | text
  | name
  | keyword (k : Keyword)
  | symbol (s : Symbol)
  | invalid
  | eof
  deriving DecidableEq, Repr

namespace TokenKind

/-- A kind of token in words. -/
def description : TokenKind → String
  | number => "number"
  | hexNumber => "hex number"
  | float => "float"
  | seconds => "time literal"
  | text => "string"
  | name => "identifier"
  | keyword k => s!"'{k.word}'"
  | symbol s => s!"'{s.spelling}'"
  | invalid => "invalid token"
  | eof => "end of input"

def isKeyword : TokenKind → Bool
  | keyword _ => true
  | _ => false

end TokenKind

/-- A word of a script.  The text of a string literal is its contents with the escapes resolved; any
    other token has the text of the source. -/
structure Token where
  kind : TokenKind
  text : String
  pos : Pos
  deriving DecidableEq, Repr

end CanScript
