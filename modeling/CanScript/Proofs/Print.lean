import CanScript.Program
import CanScript.Proofs.Words

/-! # Programs as words

    How a program is written out: functions, then handlers, then the main sequence, every block in
    braces and every statement with its semicolon. Operands stand in brackets only where an operator
    would bind them otherwise.  Two things about the outcome are left open: how a floating-point
    number is spelled, as long as it is read back, and after which semicolons and braces a new line
    begins. -/

namespace CanScript

/-! ## Programs without places -/

mutual

/-- An expression with every place forgotten. -/
@[simp] def Expr.unplaced : Expr → Expr
  | .literal _ l => .literal .start l
  | .name _ n => .name .start n
  | .binary _ op l r => .binary .start op l.unplaced r.unplaced
  | .unary _ op e => .unary .start op e.unplaced
  | .ternary _ c y n => .ternary .start c.unplaced y.unplaced n.unplaced
  | .call _ f args => .call .start f.unplaced (Expr.allUnplaced args)
  | .random _ l h => .random .start l.unplaced h.unplaced
  | .randomBytes _ e => .randomBytes .start e.unplaced
  | .index _ e i => .index .start e.unplaced i.unplaced
  | .member _ e field => .member .start e.unplaced field
  | .bytes _ es => .bytes .start (Expr.allUnplaced es)

def Expr.allUnplaced : List Expr → List Expr
  | [] => []
  | e :: es => e.unplaced :: Expr.allUnplaced es

end

mutual

/-- A statement with every place forgotten. -/
@[simp] def Stmt.unplaced : Stmt → Stmt
  | .declare _ n v => .declare .start n (v.map Expr.unplaced)
  | .assign _ n op v => .assign .start n op v.unplaced
  | .send _ id data x => .send .start id.unplaced (Expr.allUnplaced data) (x.map fun _ => .start)
  | .delay _ e => .delay .start e.unplaced
  | .times _ e body => .times .start e.unplaced (Stmt.allUnplaced body)
  | .forever _ body => .forever .start (Stmt.allUnplaced body)
  | .when _ e yes no => .when .start e.unplaced (Stmt.allUnplaced yes) (Stmt.optionUnplaced no)
  | .waitFor _ p t fallback =>
    .waitFor .start p.unplaced t.unplaced (Stmt.optionUnplaced fallback)
  | .giveBack _ v => .giveBack .start (v.map Expr.unplaced)
  | .leave _ => .leave .start
  | .again _ => .again .start
  | .print _ e => .print .start e.unplaced
  | .eval _ e => .eval .start e.unplaced

def Stmt.allUnplaced : List Stmt → List Stmt
  | [] => []
  | s :: ss => s.unplaced :: Stmt.allUnplaced ss

def Stmt.optionUnplaced : Option (List Stmt) → Option (List Stmt)
  | none => none
  | some ss => some (Stmt.allUnplaced ss)

end

/-- A function with every place forgotten. -/
def Function.unplaced (f : Function) : Function :=
  ⟨.start, f.name, f.params, Stmt.allUnplaced f.body⟩

/-- A receive handler with every place forgotten. -/
def ReceiveHandler.unplaced (h : ReceiveHandler) : ReceiveHandler :=
  ⟨.start, h.predicate.unplaced, Stmt.allUnplaced h.body⟩

/-- An interval handler with every place forgotten. -/
def IntervalHandler.unplaced (h : IntervalHandler) : IntervalHandler :=
  ⟨.start, h.period.unplaced, Stmt.allUnplaced h.body⟩

/-- A program with every place forgotten. -/
def Program.unplaced (p : Program) : Program where
  functions := p.functions.map Function.unplaced
  receiveHandlers := p.receiveHandlers.map ReceiveHandler.unplaced
  intervalHandlers := p.intervalHandlers.map IntervalHandler.unplaced
  statements := p.statements.map Stmt.unplaced

/-! ## Words -/

/-- A keyword as a word. -/
def Keyword.lexeme (k : Keyword) : Lexeme :=
  ⟨.keyword k, k.word⟩

/-- A symbol as a word. -/
def Symbol.lexeme (s : Symbol) : Lexeme :=
  ⟨.symbol s, s.spelling⟩

/-- The symbol of an operator. -/
def BinaryOp.sign : BinaryOp → Symbol
  | or => .pipePipe
  | and => .ampAmp
  | bitOr => .pipe
  | bitXor => .caret
  | bitAnd => .amp
  | eq => .eqEq
  | ne => .notEq
  | lt => .less
  | le => .lessEq
  | gt => .greater
  | ge => .greaterEq
  | shl => .shiftLeft
  | shr => .shiftRight
  | add => .plus
  | sub => .minus
  | mul => .star
  | div => .slash
  | rem => .percent

/-- The level of an operator, from the one that binds least. -/
def BinaryOp.level : BinaryOp → Nat
  | or => 0
  | and => 1
  | bitOr => 2
  | bitXor => 3
  | bitAnd => 4
  | eq | ne => 5
  | lt | le | gt | ge => 6
  | shl | shr => 7
  | add | sub => 8
  | mul | div | rem => 9

def UnaryOp.sign : UnaryOp → Symbol
  | not => .bang
  | neg => .minus
  | bitNot => .tilde

def AssignOp.sign : AssignOp → Symbol
  | set => .assign
  | add => .plusAssign
  | sub => .minusAssign
  | mul => .starAssign
  | div => .slashAssign

namespace Print

def nameWord (name : String) : Lexeme :=
  if name = Keyword.data.word then Keyword.data.lexeme
  else if name = Keyword.ext.word then Keyword.ext.lexeme
  else ⟨.name, name⟩

/-- The word for a literal, given how floating-point numbers are spelled. -/
def literalWord (spell : Float → String) : Literal → Lexeme
  | .int n => ⟨.number, String.ofList (Nat.toDigits 10 n.toInt.toNat)⟩
  | .millis n => ⟨.seconds, String.ofList (Nat.toDigits 10 (n.toInt.toNat / 1000) ++ ['s'])⟩
  | .float x => ⟨.float, spell x⟩
  | .bool true => Keyword.yes.lexeme
  | .bool false => Keyword.no.lexeme
  | .text t => ⟨.text, t⟩

def rank : Expr → Nat
  | .ternary .. => 0
  | .binary _ op _ _ => op.level + 1
  | .unary .. => 11
  | _ => 12

def enclose (inside : Bool) (ws : List Lexeme) : List Lexeme :=
  if inside then Symbol.leftParen.lexeme :: (ws ++ [Symbol.rightParen.lexeme]) else ws

section Words

variable (spell : Float → String)

mutual

/-- The words of an expression. -/
@[simp] def exprWords : Expr → List Lexeme
  | .literal _ l => [literalWord spell l]
  | .name _ n => [nameWord n]
  | .binary _ op l r =>
    enclose (rank l < op.level + 1) (exprWords l)
      ++ op.sign.lexeme :: enclose (rank r < op.level + 2) (exprWords r)
  | .unary _ op e => op.sign.lexeme :: enclose (rank e < 11) (exprWords e)
  | .ternary _ c y n =>
    enclose (rank c < 1) (exprWords c) ++ Symbol.question.lexeme :: (exprWords y
      ++ Symbol.colon.lexeme :: exprWords n)
  | .call _ f args =>
    enclose (rank f < 12) (exprWords f)
      ++ Symbol.leftParen.lexeme :: (itemWords args ++ [Symbol.rightParen.lexeme])
  | .random _ l h =>
    Keyword.random.lexeme :: Symbol.leftParen.lexeme :: (exprWords l
      ++ Symbol.comma.lexeme :: (exprWords h ++ [Symbol.rightParen.lexeme]))
  | .randomBytes _ e =>
    Keyword.randomBytes.lexeme :: Symbol.leftParen.lexeme :: (exprWords e
      ++ [Symbol.rightParen.lexeme])
  | .index _ e i =>
    enclose (rank e < 12) (exprWords e)
      ++ Symbol.leftBracket.lexeme :: (exprWords i ++ [Symbol.rightBracket.lexeme])
  | .member _ e field =>
    enclose (rank e < 12) (exprWords e) ++ [Symbol.dot.lexeme, nameWord field]
  | .bytes _ es =>
    Symbol.leftBracket.lexeme :: (itemWords es ++ [Symbol.rightBracket.lexeme])

def itemWords : List Expr → List Lexeme
  | [] => []
  | e :: es => exprWords e ++ moreWords es

def moreWords : List Expr → List Lexeme
  | [] => []
  | e :: es => Symbol.comma.lexeme :: (exprWords e ++ moreWords es)

end

def isExt : Expr → Bool
  | .name _ n => n == Keyword.ext.word
  | _ => false

def dataWords : List Expr → Bool → List Lexeme
  | [], false => []
  | [], true => [Symbol.comma.lexeme, Keyword.ext.lexeme]
  | e :: es, x =>
    Symbol.comma.lexeme :: (enclose (isExt e && es.isEmpty && !x) (exprWords spell e)
      ++ dataWords es x)

mutual

/-- The words of a statement without its semicolon. -/
@[simp] def stmtWords : Stmt → List Lexeme
  | .declare _ n none => [Keyword.var.lexeme, ⟨.name, n⟩]
  | .declare _ n (some e) =>
    Keyword.var.lexeme :: ⟨.name, n⟩ :: Symbol.assign.lexeme :: exprWords spell e
  | .assign _ n op e => ⟨.name, n⟩ :: op.sign.lexeme :: exprWords spell e
  | .send _ id data x =>
    Keyword.send.lexeme :: Symbol.leftParen.lexeme :: (exprWords spell id
      ++ (dataWords spell data x.isSome ++ [Symbol.rightParen.lexeme]))
  | .delay _ e => Keyword.delay.lexeme :: exprWords spell e
  | .times _ e body =>
    Keyword.times.lexeme :: (exprWords spell e ++ Symbol.leftBrace.lexeme :: restWords body)
  | .forever _ body => Keyword.forever.lexeme :: Symbol.leftBrace.lexeme :: restWords body
  | .when _ e yes no =>
    Keyword.when.lexeme :: (exprWords spell e
      ++ Symbol.leftBrace.lexeme :: (restWords yes ++ otherwiseWords no))
  | .waitFor _ p t fallback =>
    Keyword.waitFor.lexeme :: Symbol.leftParen.lexeme :: (exprWords spell p
      ++ Symbol.rightParen.lexeme :: Keyword.timeout.lexeme :: Symbol.leftParen.lexeme
        :: (exprWords spell t ++ Symbol.rightParen.lexeme :: fallbackWords fallback))
  | .giveBack _ none => [Keyword.giveBack.lexeme]
  | .giveBack _ (some e) => Keyword.giveBack.lexeme :: exprWords spell e
  | .leave _ => [Keyword.leave.lexeme]
  | .again _ => [Keyword.again.lexeme]
  | .print _ e => Keyword.print.lexeme :: exprWords spell e
  | .eval _ e => exprWords spell e

def restWords : List Stmt → List Lexeme
  | [] => [Symbol.rightBrace.lexeme]
  | s :: ss => stmtWords s ++ Symbol.semicolon.lexeme :: restWords ss

def otherwiseWords : Option (List Stmt) → List Lexeme
  | none => []
  | some ss => Keyword.otherwise.lexeme :: Symbol.leftBrace.lexeme :: restWords ss

def fallbackWords : Option (List Stmt) → List Lexeme
  | none => []
  | some ss => Symbol.leftBrace.lexeme :: restWords ss

end

def blockWords (ss : List Stmt) : List Lexeme :=
  Symbol.leftBrace.lexeme :: restWords spell ss

def paramWords : List String → List Lexeme
  | [] => []
  | [n] => [⟨.name, n⟩]
  | n :: m :: ns => ⟨.name, n⟩ :: Symbol.comma.lexeme :: paramWords (m :: ns)

def functionWords (f : Function) : List Lexeme :=
  Keyword.function.lexeme :: ⟨.name, f.name⟩ :: Symbol.leftParen.lexeme
    :: (paramWords f.params ++ Symbol.rightParen.lexeme :: blockWords spell f.body)

def receiveWords (h : ReceiveHandler) : List Lexeme :=
  Keyword.onReceive.lexeme :: Symbol.leftParen.lexeme :: (exprWords spell h.predicate
    ++ Symbol.rightParen.lexeme :: blockWords spell h.body)

def intervalWords (h : IntervalHandler) : List Lexeme :=
  Keyword.onInterval.lexeme :: Symbol.leftParen.lexeme :: (exprWords spell h.period
    ++ Symbol.rightParen.lexeme :: blockWords spell h.body)

def sequenceWords (s : Stmt) : List Lexeme :=
  stmtWords spell s ++ [Symbol.semicolon.lexeme]

def programWords (p : Program) : List Lexeme :=
  p.functions.flatMap (functionWords spell)
    ++ (p.receiveHandlers.flatMap (receiveWords spell)
      ++ (p.intervalHandlers.flatMap (intervalWords spell)
        ++ p.statements.flatMap (sequenceWords spell)))

end Words

end Print

end CanScript
