import CanScript.Number.Decimal
import CanScript.Program
import CanScript.Program.Reader

/-! # Readers of expressions

    Binary operators bind by levels and to the left, conditions to the right. Readers nest as deep
    as the tokens do; each carries a budget of nested steps, taken from the number of tokens that
    are left, which it cannot use up. -/

namespace CanScript.Parse

/-! ## Literals -/

def integer (base : Nat) (digits : List Char) (t : Token) : Reader Int64 :=
  match Number.readInt64? base digits with
  | some n => return n
  | none => failAt t.pos (.integerOutOfRange t.text)

def afterMark : List Char → List Char
  | [] => []
  | c :: rest => if c.utf8Size = 2 then rest else rest.drop 1

def seconds (t : Token) : Reader Int64 := do
  let n ← integer 10 t.text.toList.dropLast t
  match Number.int64? (n.toInt * 1000) with
  | some ms => return ms
  | none => failAt t.pos .secondsOutOfRange

def float (t : Token) : Reader Float :=
  match Number.readFloat? t.text.toList with
  | some x => return x
  | none => failAt t.pos (.notAFloat t.text)

/-! ## Operators and operands -/

/-- The operators of one level of precedence, and the symbols for them. -/
def levels : List (List (Symbol × BinaryOp)) :=
  [[(.pipePipe, .or)],
   [(.ampAmp, .and)],
   [(.pipe, .bitOr)],
   [(.caret, .bitXor)],
   [(.amp, .bitAnd)],
   [(.eqEq, .eq), (.notEq, .ne)],
   [(.less, .lt), (.lessEq, .le), (.greater, .gt), (.greaterEq, .ge)],
   [(.shiftLeft, .shl), (.shiftRight, .shr)],
   [(.plus, .add), (.minus, .sub)],
   [(.star, .mul), (.slash, .div), (.percent, .rem)]]

def operatorAt? (operators : List (Symbol × BinaryOp)) : TokenKind → Option BinaryOp
  | .symbol s => operators.lookup s
  | _ => none

def unaryOperator? : TokenKind → Option UnaryOp
  | .symbol .bang => some .not
  | .symbol .minus => some .neg
  | .symbol .tilde => some .bitNot
  | _ => none

def onSameLine : Reader Bool := do
  let s ← get
  return s.current.pos.line == s.last.pos.line

def memberName : Reader String := do
  match ← peekKind with
  | .name | .keyword .data | .keyword .ext => return (← advance).text
  | _ => failExpected "member name after '.'"

mutual

/-- Reads an expression: a condition with two branches, or less. -/
def ternary : Nat → Reader Expr
  | 0 => throw .exhausted
  | fuel + 1 => do
    let condition ← binary fuel levels
    let t ← peek
    if t.kind == .symbol .question then
      let _ ← advance
      let yes ← ternary fuel
      expectSymbol .colon "':' in conditional expression"
      let no ← ternary fuel
      return .ternary t.pos condition yes no
    else return condition

def binary : Nat → List (List (Symbol × BinaryOp)) → Reader Expr
  | 0, _ => throw .exhausted
  | fuel + 1, [] => unary fuel
  | fuel + 1, operators :: tighter => do
    let left ← binary fuel tighter
    binaryRest fuel operators tighter left

/-- Reads the further operands of a level after the first. -/
def binaryRest : Nat → List (Symbol × BinaryOp) → List (List (Symbol × BinaryOp)) → Expr →
    Reader Expr
  | 0, _, _, _ => throw .exhausted
  | fuel + 1, operators, tighter, left => do
    let t ← peek
    match operatorAt? operators t.kind with
    | none => return left
    | some op =>
      let _ ← advance
      let right ← binary fuel tighter
      binaryRest fuel operators tighter (.binary t.pos op left right)

/-- Reads an operand with the operators before it. -/
def unary : Nat → Reader Expr
  | 0 => throw .exhausted
  | fuel + 1 => do
    let t ← peek
    match unaryOperator? t.kind with
    | none =>
      let target ← primary fuel
      postfixRest fuel target
    | some op =>
      let _ ← advance
      let operand ← unary fuel
      return .unary t.pos op operand

/-- Reads the calls, indices and members after an operand.  A call or an index must open on the line
    where the operand ends. -/
def postfixRest : Nat → Expr → Reader Expr
  | 0, _ => throw .exhausted
  | fuel + 1, target => do
    let sameLine ← onSameLine
    let t ← peek
    if t.kind == .symbol .leftParen && sameLine then
      let _ ← advance
      let args ← arguments fuel .rightParen "')' after arguments"
      postfixRest fuel (.call t.pos target args)
    else if t.kind == .symbol .leftBracket && sameLine then
      let _ ← advance
      let index ← ternary fuel
      expectSymbol .rightBracket "']' after index"
      postfixRest fuel (.index t.pos target index)
    else if t.kind == .symbol .dot then
      let _ ← advance
      let field ← memberName
      postfixRest fuel (.member t.pos target field)
    else return target

def arguments : Nat → Symbol → String → Reader (List Expr)
  | 0, _, _ => throw .exhausted
  | fuel + 1, close, what => do
    if (← peekKind) == .symbol close then
      let _ ← advance
      return []
    else
      let args ← commaSeparated fuel
      expectSymbol close what
      return args

def commaSeparated : Nat → Reader (List Expr)
  | 0 => throw .exhausted
  | fuel + 1 => do
    let first ← ternary fuel
    if ← eat (.symbol .comma) then
      return first :: (← commaSeparated fuel)
    else return [first]

/-- Reads a literal, a name, something in brackets, or a random form. -/
def primary : Nat → Reader Expr
  | 0 => throw .exhausted
  | fuel + 1 => do
    let t ← peek
    match t.kind with
    | .number =>
      let _ ← advance
      return .literal t.pos (.int (← integer 10 t.text.toList t))
    | .hexNumber =>
      let _ ← advance
      return .literal t.pos (.int (← integer 16 (afterMark t.text.toList) t))
    | .seconds =>
      let _ ← advance
      return .literal t.pos (.millis (← seconds t))
    | .float =>
      let _ ← advance
      return .literal t.pos (.float (← float t))
    | .text =>
      let _ ← advance
      return .literal t.pos (.text t.text)
    | .keyword .yes =>
      let _ ← advance
      return .literal t.pos (.bool true)
    | .keyword .no =>
      let _ ← advance
      return .literal t.pos (.bool false)
    | .name | .keyword .data | .keyword .ext =>
      let _ ← advance
      return .name t.pos t.text
    | .symbol .leftParen =>
      let _ ← advance
      let inner ← ternary fuel
      expectSymbol .rightParen "')'"
      return inner
    | .symbol .leftBracket =>
      let _ ← advance
      return .bytes t.pos (← arguments fuel .rightBracket "']' after byte list")
    | .keyword .random =>
      let _ ← advance
      expectSymbol .leftParen "'(' after 'random'"
      let low ← ternary fuel
      expectSymbol .comma "',' between random bounds"
      let high ← ternary fuel
      expectSymbol .rightParen "')' after random bounds"
      return .random t.pos low high
    | .keyword .randomBytes =>
      let _ ← advance
      expectSymbol .leftParen "'(' after 'random_bytes'"
      let length ← ternary fuel
      expectSymbol .rightParen "')' after random_bytes length"
      return .randomBytes t.pos length
    | _ => failExpected "expression"

end

def expression : Reader Expr := do
  ternary (20 * (← get).rest.length + 20)

end CanScript.Parse
