import CanScript.Program.Expression

/-! # Readers of statements

    Statements, blocks and functions.  Jumps are checked against the loops and bodies around them
    while they are read. -/

namespace CanScript.Parse

/-- What stands where a statement may stand. -/
inductive Item where
  | stmt (s : Stmt)
  | function (f : Function)
  deriving Repr

def assignOperator? : TokenKind → Option AssignOp
  | .symbol .assign => some .set
  | .symbol .plusAssign => some .add
  | .symbol .minusAssign => some .sub
  | .symbol .starAssign => some .mul
  | .symbol .slashAssign => some .div
  | _ => none

def insideLoop {α : Type} (read : Reader α) : Reader α := do
  modify fun s => { s with loopDepth := s.loopDepth + 1 }
  try read
  finally modify fun s => { s with loopDepth := s.loopDepth - 1 }

def insideBody {α : Type} (read : Reader α) : Reader α := do
  let before ← get
  modify fun s => { s with loopDepth := 0, inBody := true }
  try read
  finally modify fun s => { s with loopDepth := before.loopDepth, inBody := before.inBody }

/-- Reads the data of a `send` after its id: expressions after commas, and at the end the word that
    asks for an extended frame. -/
def sendData : Nat → Reader (List Expr × Option Pos)
  | 0 => throw .exhausted
  | fuel + 1 => do
    if ← eat (.symbol .comma) then
      let s ← get
      if s.current.kind == .keyword .ext && s.nextKind == .symbol .rightParen then
        let t ← advance
        return ([], some t.pos)
      else
        let first ← expression
        let (data, extended) ← sendData fuel
        return (first :: data, extended)
    else return ([], none)

def parameters : Nat → List String → Reader (List String)
  | 0, _ => throw .exhausted
  | fuel + 1, seen => do
    let t ← expect .name "parameter name"
    if seen.contains t.text then failAt t.pos (.parameterTwice t.text)
    else
      let seen := seen ++ [t.text]
      if ← eat (.symbol .comma) then parameters fuel seen else return seen

def endsReturn (line : Nat) (next : Token) : Bool :=
  next.kind == .symbol .rightBrace || next.kind == .symbol .semicolon || next.kind == .eof
    || line < next.pos.line

def declaration (pos : Pos) : Reader Stmt := do
  let _ ← advance
  let t ← expect .name "variable name after 'var'"
  if ← eat (.symbol .assign) then return .declare pos t.text (some (← expression))
  else return .declare pos t.text none

def assignment (pos : Pos) (op : AssignOp) : Reader Stmt := do
  let t ← advance
  let _ ← advance
  return .assign pos t.text op (← expression)

def sendStatement (pos : Pos) : Reader Stmt := do
  let _ ← advance
  expectSymbol .leftParen "'(' after 'send'"
  let id ← expression
  let (data, extended) ← sendData ((← get).rest.length + 1)
  expectSymbol .rightParen "')' after send arguments"
  return .send pos id data extended

def jump (pos : Pos) (statement : Pos → Stmt) : Reader Stmt := do
  let t ← advance
  if (← get).loopDepth == 0 then failAt t.pos (.jumpOutsideLoop t.text)
  else return statement pos

def returnStatement (pos : Pos) : Reader Stmt := do
  let t ← advance
  if !(← get).inBody then failAt t.pos .returnOutsideBody
  else if endsReturn t.pos.line (← peek) then return .giveBack pos none
  else return .giveBack pos (some (← expression))

mutual

def item : Nat → Reader Item
  | 0 => throw .exhausted
  | fuel + 1 => do
    let read ← itemBody fuel
    let _ ← eat (.symbol .semicolon)
    return read

/-- Reads a statement or a function. -/
def itemBody : Nat → Reader Item
  | 0 => throw .exhausted
  | fuel + 1 => do
    let s ← get
    let t := s.current
    match t.kind with
    | .keyword .var => return .stmt (← declaration t.pos)
    | .keyword .send => return .stmt (← sendStatement t.pos)
    | .keyword .delay =>
      let _ ← advance
      return .stmt (.delay t.pos (← expression))
    | .keyword .times =>
      let _ ← advance
      let count ← expression
      return .stmt (.times t.pos count (← insideLoop (block fuel)))
    | .keyword .forever =>
      let _ ← advance
      return .stmt (.forever t.pos (← insideLoop (block fuel)))
    | .keyword .when =>
      let _ ← advance
      let condition ← expression
      let yes ← branch fuel
      if ← eat (.keyword .otherwise) then
        return .stmt (.when t.pos condition yes (some (← branch fuel)))
      else return .stmt (.when t.pos condition yes none)
    | .keyword .waitFor => return .stmt (← waitStatement fuel t.pos)
    | .keyword .function => return .function (← function fuel t.pos)
    | .keyword .giveBack => return .stmt (← returnStatement t.pos)
    | .keyword .leave => return .stmt (← jump t.pos .leave)
    | .keyword .again => return .stmt (← jump t.pos .again)
    | .keyword .print =>
      let _ ← advance
      return .stmt (.print t.pos (← expression))
    | .keyword .onReceive | .keyword .onInterval => failAt t.pos (.nestedHandler t.text)
    | .name =>
      match assignOperator? s.nextKind with
      | some op => return .stmt (← assignment t.pos op)
      | none => return .stmt (.eval t.pos (← expression))
    | _ => return .stmt (.eval t.pos (← expression))

def block : Nat → Reader (List Stmt)
  | 0 => throw .exhausted
  | fuel + 1 => do
    expectSymbol .leftBrace "'\x7b'"
    blockRest fuel

/-- Reads the rest of a block from some statement on. -/
def blockRest : Nat → Reader (List Stmt)
  | 0 => throw .exhausted
  | fuel + 1 => do
    let t ← peek
    if t.kind == .symbol .rightBrace then
      let _ ← advance
      return []
    else if t.kind == .eof then failAt t.pos .unclosedBlock
    else if t.kind == .symbol .semicolon then
      let _ ← advance
      blockRest fuel
    else
      match ← recovering (item fuel) with
      | some (.stmt s) => return s :: (← blockRest fuel)
      | some (.function f) =>
        report ((ParseFault.nestedFunction f.name).toDiagnostic f.pos)
        blockRest fuel
      | none => blockRest fuel

def branch : Nat → Reader (List Stmt)
  | 0 => throw .exhausted
  | fuel + 1 => do
    let t ← peek
    if t.kind == .symbol .leftBrace then block fuel
    else
      match ← item fuel with
      | .stmt s => return [s]
      | .function f => failAt t.pos (.nestedFunction f.name)

/-- Reads a `wait_for`. -/
def waitStatement : Nat → Pos → Reader Stmt
  | 0, _ => throw .exhausted
  | fuel + 1, pos => do
    let _ ← advance
    expectSymbol .leftParen "'(' after 'wait_for'"
    let predicate ← expression
    expectSymbol .rightParen "')' after wait_for predicate"
    let t ← peek
    if t.kind != .keyword .timeout then failAt t.pos (.noTimeout t)
    let _ ← advance
    expectSymbol .leftParen "'(' after 'timeout'"
    let timeout ← expression
    expectSymbol .rightParen "')' after timeout"
    if (← peekKind) == .symbol .leftBrace then
      return .waitFor pos predicate timeout (some (← block fuel))
    else return .waitFor pos predicate timeout none

/-- Reads a `function`. -/
def function : Nat → Pos → Reader Function
  | 0, _ => throw .exhausted
  | fuel + 1, pos => do
    let _ ← advance
    let name ← expect .name "function name"
    expectSymbol .leftParen "'(' after function name"
    let params ←
      if (← peekKind) == .symbol .rightParen then pure []
      else parameters ((← get).rest.length + 1) []
    expectSymbol .rightParen "')' after parameters"
    let body ← insideBody (block fuel)
    return ⟨pos, name.text, params, body⟩

end

def statementBudget : Reader Nat := do
  return 8 * (← get).rest.length + 8

end CanScript.Parse
