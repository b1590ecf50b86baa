import CanScript.Diagnostic

/-! # Programs

    A script as a tree: functions, receive handlers, interval handlers, and the statements of the
    main sequence.  Every node carries the place that a diagnostic about it names. -/

namespace CanScript

/-- Operators between two operands. -/
inductive BinaryOp where
  | or
  | and
  | bitOr
  | bitXor
  | bitAnd
  | eq
  | ne
  | lt
  | le
  | gt
  | ge
  | shl
  | shr
  | add
  | sub
  | mul
  | div
  | rem
  deriving DecidableEq, Repr

/-- How an operator is spelled. -/
def BinaryOp.symbol : BinaryOp → String
  | or => "||"
  | and => "&&"
  | bitOr => "|"
  | bitXor => "^"
  | bitAnd => "&"
  | eq => "=="
  | ne => "!="
  | lt => "<"
  | le => "<="
  | gt => ">"
  | ge => ">="
  | shl => "<<"
  | shr => ">>"
  | add => "+"
  | sub => "-"
  | mul => "*"
  | div => "/"
  | rem => "%"

def BinaryOp.all : List BinaryOp :=
  [or, and, bitOr, bitXor, bitAnd, eq, ne, lt, le, gt, ge, shl, shr, add, sub, mul, div, rem]

/-- Operators before one operand. -/
inductive UnaryOp where
  | not
  | neg
  | bitNot
  deriving DecidableEq, Repr

def UnaryOp.symbol : UnaryOp → String
  | not => "!"
  | neg => "-"
  | bitNot => "~"

def UnaryOp.all : List UnaryOp :=
  [not, neg, bitNot]

/-- The forms of assignment. -/
inductive AssignOp where
  | set
  | add
  | sub
  | mul
  | div
  deriving DecidableEq, Repr

def AssignOp.symbol : AssignOp → String
  | set => "="
  | add => "+="
  | sub => "-="
  | mul => "*="
  | div => "/="

def AssignOp.binary? : AssignOp → Option BinaryOp
  | set => none
  | add => some .add
  | sub => some .sub
  | mul => some .mul
  | div => some .div

/-- Values that are written out.  A number of seconds is held in milliseconds. -/
inductive Literal where
  | int (n : Int64)
  | millis (n : Int64)
  | float (x : Float)
  | bool (b : Bool)
  | text (s : String)
  deriving Repr

/-- Expressions. -/
inductive Expr where
  | literal (pos : Pos) (value : Literal)
  | name (pos : Pos) (name : String)
  | binary (pos : Pos) (op : BinaryOp) (left right : Expr)
  | unary (pos : Pos) (op : UnaryOp) (operand : Expr)
  | ternary (pos : Pos) (condition yes no : Expr)
  | call (pos : Pos) (callee : Expr) (args : List Expr)
  | random (pos : Pos) (low high : Expr)
  | randomBytes (pos : Pos) (length : Expr)
  | index (pos : Pos) (target index : Expr)
  | member (pos : Pos) (target : Expr) (field : String)
  | bytes (pos : Pos) (items : List Expr)
  deriving Repr

/-- The place of an expression. -/
def Expr.pos : Expr → Pos
  | literal p _ => p
  | name p _ => p
  | binary p _ _ _ => p
  | unary p _ _ => p
  | ternary p _ _ _ => p
  | call p _ _ => p
  | random p _ _ => p
  | randomBytes p _ => p
  | index p _ _ => p
  | member p _ _ => p
  | bytes p _ => p

/-- Statements.  The flag of a `send` that asks for an extended frame is held as its place: nothing
    but the word itself is read as that flag, and it always holds.  A function is never a statement:
    what declares one inside a block is reported and left out. -/
inductive Stmt where
  | declare (pos : Pos) (name : String) (value : Option Expr)
  | assign (pos : Pos) (name : String) (op : AssignOp) (value : Expr)
  | send (pos : Pos) (id : Expr) (data : List Expr) (extended : Option Pos)
  | delay (pos : Pos) (duration : Expr)
  | times (pos : Pos) (count : Expr) (body : List Stmt)
  | forever (pos : Pos) (body : List Stmt)
  | when (pos : Pos) (condition : Expr) (yes : List Stmt) (no : Option (List Stmt))
  | waitFor (pos : Pos) (predicate timeout : Expr) (fallback : Option (List Stmt))
  | giveBack (pos : Pos) (value : Option Expr)
  | leave (pos : Pos)
  | again (pos : Pos)
  | print (pos : Pos) (value : Expr)
  | eval (pos : Pos) (value : Expr)
  deriving Repr

/-- The place of a statement. -/
def Stmt.pos : Stmt → Pos
  | declare p _ _ => p
  | assign p _ _ _ => p
  | send p _ _ _ => p
  | delay p _ => p
  | times p _ _ => p
  | forever p _ => p
  | when p _ _ _ => p
  | waitFor p _ _ _ => p
  | giveBack p _ => p
  | leave p => p
  | again p => p
  | print p _ => p
  | eval p _ => p

/-- A function of the script. -/
structure Function where
  pos : Pos
  name : String
  params : List String
  body : List Stmt
  deriving Repr

/-- What to do with an inbound frame that satisfies a predicate. -/
structure ReceiveHandler where
  pos : Pos
  predicate : Expr
  body : List Stmt
  deriving Repr

/-- What to do again and again after a period. -/
structure IntervalHandler where
  pos : Pos
  period : Expr
  body : List Stmt
  deriving Repr

/-- A script. -/
structure Program where
  functions : List Function := []
  receiveHandlers : List ReceiveHandler := []
  intervalHandlers : List IntervalHandler := []
  statements : List Stmt := []
  deriving Repr, Inhabited

namespace Program

def function? (p : Program) (name : String) : Option Function :=
  p.functions.find? fun f => f.name == name

def hasHandlers (p : Program) : Bool :=
  !p.receiveHandlers.isEmpty || !p.intervalHandlers.isEmpty

end Program

end CanScript
