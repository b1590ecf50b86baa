import CanScript.Program.Parse
import Mathlib.Tactic.Lemma

/-! # Where a program comes from

    A program that was read has its names and literals from tokens, its jumps stand where they may
    stand, and no function of it has a parameter twice.

    The predicate `τ` on tokens is a parameter: with the trivial one this is a statement about
    jumps, with the tokens of a scanner one about names and literals too. -/

namespace CanScript.Parse

/-! ## Programs made of tokens -/

variable (τ : Token → Prop)

/-- A literal that a token stands for. -/
inductive LiteralFrom : Literal → Prop where
  | decimal {t n} : τ t → t.kind = .number →
      Number.readInt64? 10 t.text.toList = some n → LiteralFrom (.int n)
  | hexadecimal {t n} : τ t → t.kind = .hexNumber →
      Number.readInt64? 16 (afterMark t.text.toList) = some n → LiteralFrom (.int n)
  | seconds {t n ms} : τ t → t.kind = .seconds →
      Number.readInt64? 10 t.text.toList.dropLast = some n →
      Number.int64? (n.toInt * 1000) = some ms → LiteralFrom (.millis ms)
  | float {t x} : τ t → t.kind = .float →
      Number.readFloat? t.text.toList = some x → LiteralFrom (.float x)
  | text {t} : τ t → t.kind = .text → LiteralFrom (.text t.text)
  | bool {b} : LiteralFrom (.bool b)

def NameFrom (name : String) : Prop :=
  ∃ t, τ t ∧ t.kind = .name ∧ t.text = name

def isOperandName (kind : TokenKind) : Prop :=
  kind = .name ∨ kind = .keyword .data ∨ kind = .keyword .ext

def WordFrom (name : String) : Prop :=
  ∃ t, τ t ∧ isOperandName t.kind ∧ t.text = name

/-- An expression with names and literals from tokens. -/
inductive ExprFrom : Expr → Prop where
  | literal {pos l} : LiteralFrom τ l → ExprFrom (.literal pos l)
  | name {pos name} : WordFrom τ name → ExprFrom (.name pos name)
  | binary {pos op left right} :
      ExprFrom left → ExprFrom right → ExprFrom (.binary pos op left right)
  | unary {pos op operand} : ExprFrom operand → ExprFrom (.unary pos op operand)
  | ternary {pos condition yes no} : ExprFrom condition → ExprFrom yes →
      ExprFrom no → ExprFrom (.ternary pos condition yes no)
  | call {pos callee args} : ExprFrom callee →
      (∀ e ∈ args, ExprFrom e) → ExprFrom (.call pos callee args)
  | random {pos low high} : ExprFrom low → ExprFrom high → ExprFrom (.random pos low high)
  | randomBytes {pos length} : ExprFrom length → ExprFrom (.randomBytes pos length)
  | index {pos target index} : ExprFrom target → ExprFrom index → ExprFrom (.index pos target index)
  | member {pos target field} :
      ExprFrom target → WordFrom τ field → ExprFrom (.member pos target field)
  | bytes {pos items} : (∀ e ∈ items, ExprFrom e) → ExprFrom (.bytes pos items)

/-- A statement with names and literals from tokens, in which every jump is placed rightly, given
    how many loops of the same body are around it and whether it stands in a body. -/
inductive StmtFrom : Nat → Bool → Stmt → Prop where
  | declare {depth body pos name value} : NameFrom τ name → (∀ e, value = some e → ExprFrom τ e) →
      StmtFrom depth body (.declare pos name value)
  | assign {depth body pos name op value} :
      NameFrom τ name → ExprFrom τ value → StmtFrom depth body (.assign pos name op value)
  | send {depth body pos id data extended} : ExprFrom τ id → (∀ e ∈ data, ExprFrom τ e) →
      StmtFrom depth body (.send pos id data extended)
  | delay {depth body pos duration} :
      ExprFrom τ duration → StmtFrom depth body (.delay pos duration)
  | times {depth body pos count block} :
      ExprFrom τ count → (∀ s ∈ block, StmtFrom (depth + 1) body s) →
      StmtFrom depth body (.times pos count block)
  | forever {depth body pos block} :
      (∀ s ∈ block, StmtFrom (depth + 1) body s) → StmtFrom depth body (.forever pos block)
  | when {depth body pos condition yes}
      {no} : ExprFrom τ condition → (∀ s ∈ yes, StmtFrom depth body s) →
      (∀ block, no = some block → ∀ s ∈ block, StmtFrom depth body s) →
      StmtFrom depth body (.when pos condition yes no)
  | waitFor {depth body pos predicate timeout}
      {fallback} : ExprFrom τ predicate → ExprFrom τ timeout →
      (∀ block, fallback = some block → ∀ s ∈ block, StmtFrom depth body s) →
      StmtFrom depth body (.waitFor pos predicate timeout fallback)
  | giveBack {depth pos value} :
      (∀ e, value = some e → ExprFrom τ e) → StmtFrom depth true (.giveBack pos value)
  | leave {depth body pos} : 0 < depth → StmtFrom depth body (.leave pos)
  | again {depth body pos} : 0 < depth → StmtFrom depth body (.again pos)
  | print {depth body pos value} : ExprFrom τ value → StmtFrom depth body (.print pos value)
  | eval {depth body pos value} : ExprFrom τ value → StmtFrom depth body (.eval pos value)

def BlockFrom (depth : Nat) (body : Bool) (block : List Stmt) : Prop :=
  ∀ s ∈ block, StmtFrom τ depth body s

/-- A function with names and literals from tokens. -/
structure FunctionFrom (f : Function) : Prop where
  name : NameFrom τ f.name
  params : ∀ p ∈ f.params, NameFrom τ p
  distinct : f.params.Nodup
  body : BlockFrom τ 0 true f.body

/-- A receive handler with names and literals from tokens. -/
structure ReceiveFrom (h : ReceiveHandler) : Prop where
  predicate : ExprFrom τ h.predicate
  body : BlockFrom τ 0 true h.body

/-- An interval handler with names and literals from tokens. -/
structure IntervalFrom (h : IntervalHandler) : Prop where
  period : ExprFrom τ h.period
  body : BlockFrom τ 0 true h.body

/-- A program with names and literals from tokens. -/
structure ProgramFrom (p : Program) : Prop where
  functions : ∀ f ∈ p.functions, FunctionFrom τ f
  receiveHandlers : ∀ h ∈ p.receiveHandlers, ReceiveFrom τ h
  intervalHandlers : ∀ h ∈ p.intervalHandlers, IntervalFrom τ h
  statements : BlockFrom τ 0 false p.statements

/-- What stands where a statement may stand, made of tokens. -/
inductive ItemFrom (depth : Nat) (body : Bool) : Item → Prop where
  | stmt {s} : StmtFrom τ depth body s → ItemFrom depth body (.stmt s)
  | function {f} : FunctionFrom τ f → ItemFrom depth body (.function f)

end CanScript.Parse
