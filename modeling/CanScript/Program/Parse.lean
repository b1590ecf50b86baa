import CanScript.Program.Statement
import CanScript.Token.Scan

/-! # From tokens to a program

    A program is read to its end, whatever is wrong with it: what can be read is kept, and what
    cannot is reported. -/

namespace CanScript

namespace Parse

def receiveHandler : Reader ReceiveHandler := do
  let t ← advance
  expectSymbol .leftParen "'(' after 'on_receive'"
  let predicate ← expression
  expectSymbol .rightParen "')' after receive predicate"
  let body ← insideBody (block (← statementBudget))
  return ⟨t.pos, predicate, body⟩

def intervalHandler : Reader IntervalHandler := do
  let t ← advance
  expectSymbol .leftParen "'(' after 'on_interval'"
  let period ← expression
  expectSymbol .rightParen "')' after interval period"
  let body ← insideBody (block (← statementBudget))
  return ⟨t.pos, period, body⟩

/-- Reads one declaration or statement and adds it to a program. -/
def topLevel (p : Program) : Reader Program := do
  match ← peekKind with
  | .keyword .onReceive =>
    let h ← receiveHandler
    return { p with receiveHandlers := p.receiveHandlers ++ [h] }
  | .keyword .onInterval =>
    let h ← intervalHandler
    return { p with intervalHandlers := p.intervalHandlers ++ [h] }
  | _ =>
    match ← item (← statementBudget) with
    | .stmt s => return { p with statements := p.statements ++ [s] }
    | .function f => return { p with functions := p.functions ++ [f] }

/-- Adds to a program what is read up to the end. -/
def programRest : Nat → Program → Reader Program
  | 0, p => return p
  | fuel + 1, p => do
    let t ← peek
    if t.kind == .eof then return p
    else if t.kind == .symbol .semicolon then
      let _ ← advance
      programRest fuel p
    else if t.kind == .symbol .rightBrace then
      report (ParseFault.unmatchedBrace.toDiagnostic t.pos)
      let _ ← advance
      programRest fuel p
    else
      match ← recovering (topLevel p) with
      | some p => programRest fuel p
      | none => programRest fuel p

def repeatedFunctions (seen : List String) : List Function → List Diagnostic
  | [] => []
  | f :: rest =>
    let reports := repeatedFunctions (f.name :: seen) rest
    if seen.contains f.name then (ParseFault.functionTwice f.name).toDiagnostic f.pos :: reports
    else reports

def readable (tokens : List Token) : List Token :=
  let valid := tokens.filter fun t => t.kind != .invalid
  match valid.getLast? with
  | none => [endToken]
  | some t => if t.kind == .eof then valid else valid ++ [⟨.eof, "", t.pos⟩]

end Parse

def Program.ofTokens (tokens : List Token) : Program × List Diagnostic :=
  let rest := Parse.readable tokens
  let initial : Parse.State := { rest, last := rest.headD Parse.endToken }
  let (result, final) := (Parse.programRest (rest.length + 1) {}).run initial
  let program :=
    match result with
    | .ok p => p
    | .error _ => {}
  (program, final.diagnostics ++ Parse.repeatedFunctions [] program.functions)

def Program.ofSource (source : String) : Program × List Diagnostic :=
  let (tokens, lexed) := tokenize source
  let (program, parsed) := Program.ofTokens tokens
  (program, lexed ++ parsed)

end CanScript
