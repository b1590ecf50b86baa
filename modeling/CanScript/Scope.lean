import CanScript.Value

/-! # Names and scopes

    Names are bound in scopes.  The global scope belongs to a whole run; a task keeps its local
    scopes in the order in which it opened them, each known by its place in that order and each with
    a parent to search next. A scope without a parent is followed by the global scope. -/

namespace CanScript

/-- Bound names with their values, in order of the names. -/
abbrev Bindings := List (String × Value)

namespace Bindings

def get? (bs : Bindings) (name : String) : Option Value :=
  bs.lookup name

def contains (bs : Bindings) (name : String) : Bool :=
  (bs.get? name).isSome

def insert (name : String) (v : Value) : Bindings → Bindings
  | [] => [(name, v)]
  | (other, w) :: bs =>
    if name == other then (name, v) :: bs
    else if name < other then (name, v) :: (other, w) :: bs
    else (other, w) :: insert name v bs

end Bindings

/-- The number of a local scope. -/
abbrev ScopeId := Nat

/-- A local scope. -/
structure Scope where
  bindings : Bindings := []
  parent : Option ScopeId

/-- The local scopes of a task, oldest first. -/
abbrev Scopes := Array Scope

/-- Where a name leads. -/
inductive Place where
  | inner (id : ScopeId)
  | global
  deriving DecidableEq, Repr

namespace Scopes

def empty : Scopes :=
  #[]

def depth (s : Scopes) : Nat :=
  s.size

def nextId (s : Scopes) : ScopeId :=
  s.size

def openScope (s : Scopes) (parent : Option ScopeId) : Scopes :=
  s.push ⟨[], parent⟩

def close (s : Scopes) (id : ScopeId) : Scopes :=
  s.take id

def resolveFrom? (s : Scopes) (name : String) : Nat → Option ScopeId → Option Place
  | _, none => some .global
  | 0, some _ => none
  | budget + 1, some id =>
    match s[id]? with
    | none => none
    | some scope =>
      if scope.bindings.contains name then some (.inner id)
      else resolveFrom? s name budget scope.parent

def resolve? (s : Scopes) (scope : Option ScopeId) (name : String) : Option Place :=
  resolveFrom? s name s.size scope

def lookup? (s : Scopes) (scope : Option ScopeId) (name : String) (globals : Bindings) :
    Option Value :=
  match s.resolve? scope name with
  | some (.inner id) => s[id]?.bind fun found => found.bindings.get? name
  | some .global => globals.get? name
  | none => none

def bind (s : Scopes) (id : ScopeId) (name : String) (v : Value) : Scopes :=
  s.modify id fun scope => { scope with bindings := scope.bindings.insert name v }

def define (s : Scopes) (scope : Option ScopeId) (name : String) (v : Value)
    (globals : Bindings) : Scopes × Bindings :=
  match scope with
  | some id => (s.bind id name v, globals)
  | none => (s, globals.insert name v)

def assign? (s : Scopes) (scope : Option ScopeId) (name : String) (v : Value)
    (globals : Bindings) : Option (Scopes × Bindings) :=
  match s.resolve? scope name with
  | some (.inner id) => some (s.bind id name v, globals)
  | some .global =>
    if globals.contains name then some (s, globals.insert name v) else none
  | none => none

end Scopes

end CanScript
