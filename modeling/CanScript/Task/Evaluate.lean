import CanScript.Task.Builtin

/-! # Evaluation of expressions

    Expressions are evaluated by recursion on the script, from left to right. How functions of the
    script are called is a parameter. -/

namespace CanScript

def Eval.literal : Literal → Value
  | .int n => .int n
  | .millis n => .int n
  | .float x => .float x
  | .bool b => .bool b
  | .text t => .text t

/-- How a function of the script is called with values from a place. -/
abbrev Caller := Function → List Value → Pos → Eval Value

open Eval

mutual

/-- Evaluates an expression. -/
def evalExpr (s : Setting) (call : Caller) (scope : Option ScopeId) : Expr → Eval Value
  | .literal _ l => pure (literal l)
  | .name pos name => do
    match ← lookup? scope name with
    | some v => pure v
    | none => fail pos (.undefinedVariable name)
  | .binary pos op left right => do
    let a ← evalExpr s call scope left
    match op with
    | .and =>
      if a.isTruthy then
        let b ← evalExpr s call scope right
        return .bool b.isTruthy
      else return .bool false
    | .or =>
      if a.isTruthy then return .bool true
      else
        let b ← evalExpr s call scope right
        return .bool b.isTruthy
    | op =>
      let b ← evalExpr s call scope right
      ofResult pos (Value.binary op a b)
  | .unary pos op operand => do
    let v ← evalExpr s call scope operand
    ofResult pos (Value.unary op v)
  | .ternary _ condition yes no => do
    let c ← evalExpr s call scope condition
    if c.isTruthy then evalExpr s call scope yes else evalExpr s call scope no
  | .call pos (.name _ name) args => do
    let target ← callee s scope pos name
    let values ← evalExprs s call scope args
    match target with
    | .function f => call f values pos
    | .builtin b => callBuiltin pos b values
  | .call pos _ _ => fail pos .notCallable
  | .random pos low high => do
    let a ← evalExpr s call scope low
    let b ← evalExpr s call scope high
    random pos a b
  | .randomBytes pos length => do
    let v ← evalExpr s call scope length
    let n ← ofResult length.pos v.asInt
    if 0 ≤ n.toInt ∧ n.toInt ≤ Frame.maxPayload then
      return .bytes (← randomBytes n.toInt.toNat)
    else fail pos (.randomLength n)
  | .index pos target index => do
    let v ← evalExpr s call scope target
    let i ← evalExpr s call scope index
    ofResult pos (v.index i)
  | .member pos target field => do
    let v ← evalExpr s call scope target
    ofResult pos (v.member field)
  | .bytes _ items => do
    let bs ← evalPayload s call scope items
    return .bytes bs

def evalExprs (s : Setting) (call : Caller) (scope : Option ScopeId) :
    List Expr → Eval (List Value)
  | [] => pure []
  | e :: rest => do
    let v ← evalExpr s call scope e
    let vs ← evalExprs s call scope rest
    return v :: vs

def evalPayload (s : Setting) (call : Caller) (scope : Option ScopeId) :
    List Expr → Eval (List UInt8)
  | [] => pure []
  | e :: rest => do
    let v ← evalExpr s call scope e
    let bs ← ofResult e.pos v.payload
    let more ← evalPayload s call scope rest
    return bs ++ more

end

end CanScript
