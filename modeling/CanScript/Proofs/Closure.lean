import CanScript.Task.Role
import Mathlib.Tactic.Lemma

/-! # Predicates that executions keep

    A script is executed by recursion on its text, and what it does is put together from few parts.
    So a predicate on executions that is closed under the ways of putting parts together holds of
    the execution of every script, as far as it holds of the parts that the script makes use of. The
    same goes for a relation between executions of one text in different scopes, or with other tasks
    going first more or less often, of which a predicate is a special case.  That recursion is done
    here, once for all. -/

namespace CanScript

open List Stmt

/-! ## What a text can do -/

/-- What a text can do besides computing. -/
inductive Deed where
  | call (name : String)
  | declare (name : String)
  | assign (name : String) (op : AssignOp)
  | send
  | delay
  | wait
  | cycle
  deriving DecidableEq, Repr

mutual

/-- What an expression can do. -/
def Expr.deeds : Expr → List Deed
  | .literal _ _ => []
  | .name _ _ => []
  | .binary _ _ left right => left.deeds ++ right.deeds
  | .unary _ _ operand => operand.deeds
  | .ternary _ condition yes no => condition.deeds ++ yes.deeds ++ no.deeds
  | .call _ (.name _ callee) args => .call callee :: Expr.listDeeds args
  | .call _ _ _ => []
  | .random _ low high => low.deeds ++ high.deeds
  | .randomBytes _ length => length.deeds
  | .index _ target place => target.deeds ++ place.deeds
  | .member _ target _ => target.deeds
  | .bytes _ items => Expr.listDeeds items

/-- What expressions can do. -/
def Expr.listDeeds : List Expr → List Deed
  | [] => []
  | e :: rest => e.deeds ++ Expr.listDeeds rest

end

mutual

/-- What a statement can do. -/
def Stmt.deeds : Stmt → List Deed
  | .declare _ name none => [.declare name]
  | .declare _ name (some value) => .declare name :: value.deeds
  | .assign _ name op value => .assign name op :: value.deeds
  | .send _ id data _ => .send :: id.deeds ++ Expr.listDeeds data
  | .delay _ duration => .delay :: duration.deeds
  | .times _ count body => count.deeds ++ Stmt.listDeeds body
  | .forever _ body => .cycle :: Stmt.listDeeds body
  | .when _ condition yes no => condition.deeds ++ Stmt.listDeeds yes ++ Stmt.optionalDeeds no
  | .waitFor _ predicate timeout fallback =>
    .wait :: predicate.deeds ++ timeout.deeds ++ Stmt.optionalDeeds fallback
  | .giveBack _ none => []
  | .giveBack _ (some value) => value.deeds
  | .leave _ => []
  | .again _ => []
  | .print _ value => value.deeds
  | .eval _ value => value.deeds

/-- What statements can do. -/
def Stmt.listDeeds : List Stmt → List Deed
  | [] => []
  | stmt :: rest => stmt.deeds ++ Stmt.listDeeds rest

def Stmt.optionalDeeds : Option (List Stmt) → List Deed
  | none => []
  | some body => Stmt.listDeeds body

end

lemma Expr.mem_listDeeds {e : Expr} {es} (h : e ∈ es) {d : Deed} (hd : d ∈ e.deeds) :
    d ∈ Expr.listDeeds es := by
  induction es with
  | nil => cases h
  | cons first rest ih =>
    rw [Expr.listDeeds]
    rcases mem_cons.mp h with rfl | hrest
    · exact mem_append_left _ hd
    · exact mem_append_right _ (ih hrest)

lemma Stmt.mem_listDeeds {stmt : Stmt} {block} (h : stmt ∈ block) {d : Deed}
    (hd : d ∈ stmt.deeds) : d ∈ listDeeds block := by
  induction block with
  | nil => cases h
  | cons first rest ih =>
    rw [listDeeds]
    rcases mem_cons.mp h with rfl | hrest
    · exact mem_append_left _ hd
    · exact mem_append_right _ (ih hrest)

/-- Functions that may be called do only what may be done. -/
def Program.Allows (p : Program) (A : Deed → Prop) : Prop :=
  ∀ name f, A (.call name) → p.function? name = some f → ∀ d ∈ Stmt.listDeeds f.body, A d

/-- The handlers of a program, and whatever functions they call, do only what may be done. -/
structure Program.Restricts (p : Program) (A : Deed → Prop) : Prop where
  allows : p.Allows A
  predicates : ∀ h ∈ p.receiveHandlers, ∀ d ∈ h.predicate.deeds, A d
  receiveBodies : ∀ h ∈ p.receiveHandlers, ∀ d ∈ Stmt.listDeeds h.body, A d
  periods : ∀ h ∈ p.intervalHandlers, ∀ d ∈ h.period.deeds, A d
  intervalBodies : ∀ h ∈ p.intervalHandlers, ∀ d ∈ Stmt.listDeeds h.body, A d

lemma Program.unrestricted (p : Program) : p.Restricts fun _ => True where
  allows _ _ _ _ _ _ := trivial
  predicates _ _ _ _ := trivial
  receiveBodies _ _ _ _ := trivial
  periods _ _ _ _ := trivial
  intervalBodies _ _ _ _ := trivial

lemma Setting.body_restricted {s : Setting} {A} (h : s.program.Restricts A) (a) :
    ∀ d ∈ listDeeds (s.body a), A d := by
  cases a with
  | receive i f =>
    rw [Setting.body]
    cases hi : s.program.receiveHandlers[i]? with
    | none => exact forall_mem_nil _
    | some handler => exact h.receiveBodies handler (mem_of_getElem? hi)
  | interval i =>
    rw [Setting.body]
    cases hi : s.program.intervalHandlers[i]? with
    | none => exact forall_mem_nil _
    | some handler => exact h.intervalBodies handler (mem_of_getElem? hi)

/-- Two settings differ at most in how often a task lets others go first. -/
structure Setting.Like (s s' : Setting) : Prop where
  program : s'.program = s.program
  ports : s'.ports = s.ports
  depth : s'.limits.maxCallDepth = s.limits.maxCallDepth

/-- Whether a frame is one that may be on the bus: its identifier has 29 bits at most, it is marked
    extended if it needs more than 11, and it carries no more than 64 bytes. -/
structure Frame.Legal (f : Frame) : Prop where
  id : f.id ≤ maxExtendedId
  data : f.data.length ≤ maxPayload
  extended : maxStandardId < f.id → f.extended = true

namespace Eval

/-! ## Evaluations -/

/-- How the executions of a text in two scopes are compared, when both have opened a number of
    scopes of their own. -/
structure Comparison where
  /-- Which scopes correspond. -/
  scopes : Nat → Option ScopeId → Option ScopeId → Prop
  /-- Which executions correspond. -/
  evals : Nat → {α : Type} → Eval α → Eval α → Prop

/-- A predicate as a comparison, for which neither the scopes nor the second execution matter. -/
abbrev Comparison.of (P : {α : Type} → Eval α → Prop) : Comparison where
  scopes _ _ _ := True
  evals _ _ x _ := P x

/-- A comparison that is closed under sequence. -/
structure Composes (K : Comparison) : Prop where
  pure : ∀ {n} {α : Type} (a : α), K.evals n (pure a) (pure a)
  bind : ∀ {n} {α β : Type} {x y} {f g : α → Eval β}, K.evals n x y →
    (∀ a, K.evals n (f a) (g a)) → K.evals n (x >>= f) (y >>= g)

namespace Composes

variable {K : Comparison} {n : Nat} (h : Composes K)

include h

lemma bindAll (scope scope') (fields : List (String × Value)) (hdefine : ∀ field ∈ fields,
      K.evals n (define scope field.1 field.2) (define scope' field.1 field.2)) :
    K.evals n (fields.forM fun field => define scope field.1 field.2)
      (fields.forM fun field => define scope' field.1 field.2) := by
  induction fields with
  | nil => exact h.pure PUnit.unit
  | cons field fields ih =>
    obtain ⟨hfield, hrest⟩ := forall_mem_cons.mp hdefine
    exact h.bind hfield fun _ => ih hrest

lemma frameMatches {s call call' scope scope' predicate f} (hacquire : K.evals n acquire acquire)
    (htest : K.evals n (attempt <| inScope scope fun inner => do
        bindFrame (some inner) f
        evalExpr s call (some inner) predicate) (attempt <| inScope scope' fun inner => do
        bindFrame (some inner) f
        evalExpr s call' (some inner) predicate))
    (hreport : ∀ d, K.evals n (ask (.report d)) (ask (.report d))) :
    K.evals n (frameMatches s call scope predicate f)
      (CanScript.frameMatches s call' scope' predicate f) := by
  refine h.bind hacquire fun _ => h.bind htest fun result => ?_
  cases result with
  | ok v => exact h.pure _
  | error d => exact h.bind (hreport d) fun _ => h.pure _

lemma writeAll {pos id data extended} (hreport : ∀ d, K.evals n (ask (.report d)) (ask (.report d)))
    (ports) (hwrite : ∀ port ∈ ports, K.evals n (write ⟨id, data, extended, port, 0⟩)
      (write ⟨id, data, extended, port, 0⟩)) :
    K.evals n (writeAll pos id data extended ports) (Eval.writeAll pos id data extended ports) := by
  induction ports with
  | nil => exact h.pure ()
  | cons port ports ih =>
    obtain ⟨hport, hrest⟩ := forall_mem_cons.mp hwrite
    refine h.bind hport fun taken => ?_
    cases taken with
    | true => exact ih hrest
    | false => exact h.bind (hreport _) fun _ => ih hrest

end Composes

/-- A comparison that is closed under the ways in which evaluations are put together. -/
structure Closed (K : Comparison) : Prop where
  pure : ∀ {n} {α : Type} (a : α), K.evals n (pure a) (pure a)
  stop : ∀ {n}, K.evals n (do
    ask .finish
    throw .stopped : Eval Value) (do
    ask .finish
    throw .stopped : Eval Value)
  throw : ∀ {n} {α : Type} (d : Diagnostic),
    K.evals n (throw (.error d) : Eval α) (throw (.error d))
  bind : ∀ {n} {α β : Type} {x y} {f g : α → Eval β}, K.evals n x y →
    (∀ a, K.evals n (f a) (g a)) → K.evals n (x >>= f) (y >>= g)
  lookup : ∀ {n scope scope'} (name : String),
    K.scopes n scope scope' → K.evals n (lookup? scope name) (lookup? scope' name)
  elapsed : ∀ {n}, K.evals n (ask .elapsed) (ask .elapsed)
  entropy : ∀ {n}, K.evals n (ask .entropy) (ask .entropy)

namespace Closed

variable {K : Comparison} {n : Nat} {A : Deed → Prop} {s s' : Setting} {call call' : Caller}

lemma composes (h : Closed K) : Composes K :=
  ⟨h.pure, h.bind⟩

variable {α : Type}

lemma fail (h : Closed K) (pos : Pos) (f : Fault) :
    K.evals n (fail pos f : Eval α) (Eval.fail pos f) :=
  h.throw _

lemma ofResult (h : Closed K) (pos : Pos) (r : Value.Result α) :
    K.evals n (ofResult pos r) (Eval.ofResult pos r) := by
  cases r with
  | ok a => exact h.pure a
  | error f => exact h.fail pos _

lemma ite (_ : Closed K) {c} [Decidable c] {x y x' y' : Eval α} (hx : K.evals n x x')
    (hy : K.evals n y y') : K.evals n (if c then x else y) (if c then x' else y') := by
  by_cases hc : c
  · rw [if_pos hc, if_pos hc]
    exact hx
  · rw [if_neg hc, if_neg hc]
    exact hy

lemma randomFloat (h : Closed K) (pos : Pos) (low high) (x y : Float) :
    K.evals n (randomFloat pos low high x y) (Eval.randomFloat pos low high x y) := by
  unfold Eval.randomFloat
  refine h.ite (h.fail _ _) ?_
  split
  · exact h.bind h.entropy fun _ => h.pure _
  · exact h.pure _
  · exact h.fail _ _

lemma random (h : Closed K) (pos : Pos) (low high : Value) :
    K.evals n (random pos low high) (Eval.random pos low high) := by
  unfold Eval.random
  split
  · exact h.ite (h.bind h.entropy fun _ => h.pure _) (h.randomFloat _ _ _ _ _)
  · split
    · exact h.randomFloat _ _ _ _ _
    · exact h.fail _ _

lemma randomBytes (h : Closed K) (length : Nat) :
    K.evals n (randomBytes length) (Eval.randomBytes length) := by
  induction length with
  | zero => exact h.pure []
  | succ length ih => exact h.bind h.entropy fun _ => h.bind ih fun _ => h.pure _

lemma callBuiltin (h : Closed K) (pos : Pos) (b) (args : List Value) :
    K.evals n (callBuiltin pos b args) (Eval.callBuiltin pos b args) := by
  refine h.ite ?_ (h.fail _ _)
  cases b with
  | stop => exact h.stop
  | now => exact h.bind h.elapsed fun _ => h.pure _
  | len =>
    show K.evals n (Functor.map _ (Eval.ofResult pos (args.headD .void).len)) (Functor.map _ _)
    cases (args.headD .void).len with
    | ok n => exact h.pure _
    | error f => exact h.throw _
  | hex => exact h.ofResult _ _
  | str => exact h.pure _
  | int | float => exact h.ofResult _ _

lemma bind_callee (h : Closed K) (hprogram : s'.program = s.program) {scope scope'}
    (hscope : K.scopes n scope scope') {pos name} {f g : Callee → Eval α}
    (hfunction : ∀ func, s.program.function? name = some func →
      K.evals n (f (.function func)) (g (.function func)))
    (hbuiltin : ∀ b, K.evals n (f (.builtin b)) (g (.builtin b))) :
    K.evals n (callee s scope pos name >>= f) (callee s' scope' pos name >>= g) := by
  rw [callee, callee, hprogram]
  cases hfound : s.program.function? name with
  | some func => exact hfunction func hfound
  | none =>
    cases Builtin.ofName? name with
    | some b => exact hbuiltin b
    | none =>
      dsimp only
      rw [bind_assoc, bind_assoc]
      refine h.bind (h.lookup name hscope) fun found => ?_
      cases found with
      | none | some v => exact h.fail (α := α) _ _

lemma assignValue (h : Closed K) (scope scope') (hscope : K.scopes n scope scope') {name}
    (hassign : ∀ v, K.evals n (assign scope name v) (assign scope' name v)) (pos op v) :
    K.evals n (assignValue scope pos name op v) (CanScript.assignValue scope' pos name op v) := by
  rw [CanScript.assignValue, CanScript.assignValue]
  cases op.binary? with
  | none => exact hassign v
  | some operator =>
    refine h.bind (h.lookup name hscope) fun found => ?_
    cases found with
    | none => exact h.fail (α := Unit) _ _
    | some old => exact h.bind (h.ofResult _ _) fun w => hassign w

section Lists

variable {scope scope' : Option ScopeId} {items : List Expr}
  (hitems : ∀ e ∈ items, K.evals n (evalExpr s call scope e) (evalExpr s' call' scope' e))

include hitems

lemma exprs (h : Closed K) :
    K.evals n (evalExprs s call scope items) (evalExprs s' call' scope' items) := by
  induction items with
  | nil => exact h.pure []
  | cons e rest ih =>
    obtain ⟨he, hrest⟩ := forall_mem_cons.mp hitems
    rw [evalExprs, evalExprs]
    exact h.bind he fun _ => h.bind (ih hrest) fun _ => h.pure _

lemma payload (h : Closed K) :
    K.evals n (evalPayload s call scope items) (evalPayload s' call' scope' items) := by
  induction items with
  | nil => exact h.pure []
  | cons e rest ih =>
    obtain ⟨he, hrest⟩ := forall_mem_cons.mp hitems
    rw [evalPayload, evalPayload]
    exact h.bind he fun _ => h.bind (h.ofResult _ _) fun _ => h.bind (ih hrest) fun _ => h.pure _

end Lists

section Expressions

variable (h : Closed K) (hprogram : s'.program = s.program)
  (hcall : ∀ n name f, A (.call name) → s.program.function? name = some f →
    ∀ args pos, K.evals n (call f args pos) (call' f args pos))

include h hprogram hcall

/-- The evaluations of an expression satisfy a closed comparison. -/
lemma across (e) : (∀ d ∈ e.deeds, A d) → ∀ {n scope scope'}, K.scopes n scope scope' →
    K.evals n (evalExpr s call scope e) (evalExpr s' call' scope' e) := by
  refine @Expr.rec (fun e => (∀ d ∈ e.deeds, A d) → ∀ {n scope scope'}, K.scopes n scope scope' →
      K.evals n (evalExpr s call scope e) (evalExpr s' call' scope' e))
    (fun es => ∀ e ∈ es, (∀ d ∈ e.deeds, A d) → ∀ {n scope scope'}, K.scopes n scope scope' →
      K.evals n (evalExpr s call scope e) (evalExpr s' call' scope' e))
    ?literal ?name ?binary ?unary ?ternary ?call ?random ?randomBytes ?index ?member ?bytes ?nil
    ?cons e
  all_goals try simp only [evalExpr]
  case literal =>
    intro pos l hd n scope scope' hscope
    exact h.pure _
  case name =>
    intro pos name hd n scope scope' hscope
    refine h.bind (h.lookup name hscope) fun found => ?_
    cases found with
    | none => exact h.fail _ _
    | some v => exact h.pure v
  case binary =>
    intro pos op left right ihleft ihright hd n scope scope' hscope
    rw [Expr.deeds] at hd
    have hleft := ihleft (fun d hmem => hd d (mem_append_left _ hmem)) hscope
    have hright := ihright (fun d hmem => hd d (mem_append_right _ hmem)) hscope
    refine h.bind hleft fun a => ?_
    cases op with
    | and => exact h.ite (h.bind hright fun _ => h.pure _) (h.pure _)
    | or => exact h.ite (h.pure _) (h.bind hright fun _ => h.pure _)
    | _ => exact h.bind hright fun _ => h.ofResult _ _
  case unary =>
    intro pos op operand ih hd n scope scope' hscope
    exact h.bind (ih hd hscope) fun _ => h.ofResult _ _
  case ternary =>
    intro pos condition yes no ihcondition ihyes ihno hd n scope scope' hscope
    rw [Expr.deeds] at hd
    obtain ⟨hfirst, hno⟩ := forall_mem_append.mp hd
    obtain ⟨hcondition, hyes⟩ := forall_mem_append.mp hfirst
    exact h.bind (ihcondition hcondition hscope) fun _ =>
      h.ite (ihyes hyes hscope) (ihno hno hscope)
  case call =>
    intro pos callee args _ ihargs hd n scope scope' hscope
    cases callee with
    | name place name =>
      rw [Expr.deeds] at hd
      obtain ⟨hname, hargs⟩ := forall_mem_cons.mp hd
      have hvalues : K.evals n (evalExprs s call scope args)
          (evalExprs s' call' scope' args) := h.exprs fun e he =>
        ihargs e he (fun d hmem => hargs d (Expr.mem_listDeeds he hmem)) hscope
      rw [evalExpr, evalExpr]
      refine h.bind_callee hprogram hscope (fun g hg => ?_) fun b => ?_
      · exact h.bind hvalues fun values => hcall n name g hname hg values pos
      · exact h.bind hvalues fun values => h.callBuiltin pos b values
    | _ =>
      rw [evalExpr, evalExpr]
      · exact h.fail _ _
      · simp
      · simp
  case random =>
    intro pos low high ihlow ihhigh hd n scope scope' hscope
    rw [Expr.deeds] at hd
    obtain ⟨hlow, hhigh⟩ := forall_mem_append.mp hd
    exact h.bind (ihlow hlow hscope) fun a => h.bind (ihhigh hhigh hscope) fun b =>
      h.random pos a b
  case randomBytes =>
    intro pos length ih hd n scope scope' hscope
    refine h.bind (ih hd hscope) fun v => h.bind (h.ofResult _ _) fun n => h.ite ?_ (h.fail _ _)
    exact h.bind (h.randomBytes _) fun _ => h.pure _
  case index =>
    intro pos target place ihtarget ihplace hd n scope scope' hscope
    rw [Expr.deeds] at hd
    obtain ⟨htarget, hplace⟩ := forall_mem_append.mp hd
    exact h.bind (ihtarget htarget hscope) fun _ => h.bind (ihplace hplace hscope) fun _ =>
      h.ofResult _ _
  case member =>
    intro pos target field ih hd n scope scope' hscope
    exact h.bind (ih hd hscope) fun _ => h.ofResult _ _
  case bytes =>
    intro pos items ih hd n scope scope' hscope
    refine h.bind (h.payload fun e he => ?_) fun _ => h.pure _
    exact ih e he (fun d hmem => hd d (Expr.mem_listDeeds he hmem)) hscope
  case nil =>
    intro e he
    cases he
  case cons =>
    intro first rest ihfirst ihrest e he
    rcases mem_cons.mp he with rfl | he
    · exact ihfirst
    · exact ihrest e he

end Expressions

/-- If an expression calls no function of the script, nothing has to be known of calls. -/
lemma plain {P : {α : Type} → Eval α → Prop} (h : Closed (.of P)) {e}
    (hcalls : ∀ name, .call name ∈ e.deeds → s.program.function? name = none) (call scope) :
    P (evalExpr s call scope e) := by
  show (Comparison.of P).evals 0 (evalExpr s call scope e) (evalExpr s call scope e)
  refine h.across (A := fun d => d ∈ e.deeds) rfl (fun _ name f hname hf => ?_) e (fun _ hd => hd)
    trivial
  rw [hcalls name hname] at hf
  cases hf

end Closed

/-! ## Statements -/

/-- A comparison that is closed under the ways in which statements are put together, and holds of
    what they may do. -/
structure Executes (s : Setting) (A : Deed → Prop) (K : Comparison) (s' : Setting := s) : Prop
    extends Closed K where
  like : s.Like s' := by exact ⟨rfl, rfl, rfl⟩
  outermost : ∀ {n}, K.scopes n none none
  inScope : ∀ {n} {α : Type} {parent parent'} {body body' : ScopeId → Eval α},
    K.scopes n parent parent' →
    (∀ id id', K.scopes (n + 1) (some id) (some id') → K.evals (n + 1) (body id) (body' id')) →
    K.evals n (inScope parent body) (inScope parent' body')
  report : ∀ {n} (d : Diagnostic), K.evals n (ask (.report d)) (ask (.report d))
  print : ∀ {n} (text : String), K.evals n (ask (.print text)) (ask (.print text))
  checkpoint : ∀ {n}, K.evals n (checkpoint s.limits.yieldEvery) (checkpoint s'.limits.yieldEvery)
  repeatForever : ∀ {n round round'}, A .cycle → K.evals n round round' →
    K.evals n (repeatForever s.limits.yieldEvery round) (repeatForever s'.limits.yieldEvery round')
  define : ∀ {n scope scope'} (name : String) (v : Value),
    K.scopes n scope scope' → (scope = none → A (.declare name)) →
    K.evals n (define scope name v) (define scope' name v)
  assign : ∀ {n call call' scope scope'} (pos : Pos)
    (name : String) (op : AssignOp) {value}, K.scopes n scope scope' →
    A (.assign name op) → K.evals n (evalExpr s call scope value) (evalExpr s' call' scope' value) →
    K.evals n (execStmt s call scope (.assign pos name op value))
      (execStmt s' call' scope' (.assign pos name op value))
  send : ∀ {n} pos id data extended, (∀ port, Frame.Legal ⟨id, data, extended, port, 0⟩) →
    A .send → K.evals n (do
      release
      writeAll pos id data extended s.ports
      acquire) (do
      release
      writeAll pos id data extended s.ports
      acquire)
  delay : ∀ {n} millis, A .delay → K.evals n (do
    release
    sleep millis
    acquire
    return Flow.normal) (do
    release
    sleep millis
    acquire
    return Flow.normal)
  wait : ∀ {n call call' scope scope' predicate}
    (millis : Nat) {fallback fallback'}, K.scopes n scope scope' → A .wait →
    (∀ inner inner', K.scopes (n + 1) (some inner) (some inner') →
      K.evals (n + 1) (evalExpr s call (some inner) predicate)
        (evalExpr s' call' (some inner') predicate)) →
    K.evals n fallback fallback' → K.evals n (do
      if ← waitForFrame s call scope predicate millis then return Flow.normal
      else
        acquire
        fallback) (do
      if ← waitForFrame s' call' scope' predicate millis then return Flow.normal
      else
        acquire
        fallback')

/-- Such a comparison that holds of calls, too. -/
structure Calls (s : Setting) (A : Deed → Prop) (K : Comparison) (s' : Setting := s) : Prop
    extends Executes s A K s' where
  deeper : ∀ {n : Nat} {α : Type} {x y : Eval α}, K.evals n x y → K.evals n (deeper x) (deeper y)

lemma checked_legal {raw : Int64} {data}
    (hid : ¬ (raw.toInt < 0 ∨ (Frame.maxExtendedId : Int) < raw.toInt))
    (hdata : ¬ Frame.maxPayload < data.length) (extended port) :
    Frame.Legal ⟨raw.toInt.toNat, data, extended || Frame.maxStandardId < raw.toInt.toNat, port,
      0⟩ where
  id := by
    show raw.toInt.toNat ≤ _
    omega
  data := Nat.not_lt.mp hdata
  extended hlong := by rw [decide_eq_true hlong, Bool.or_true]

namespace Executes

variable {K : Comparison} {n : Nat} {A : Deed → Prop} {s s' : Setting}

lemma bindAll (h : Executes s A K s') {id id'} (hid : K.scopes n (some id) (some id'))
    (fields : List (String × Value)) :
    K.evals n (fields.forM fun field => Eval.define (some id) field.1 field.2)
      (fields.forM fun field => Eval.define (some id') field.1 field.2) :=
  h.composes.bindAll _ _ fields fun field _ =>
    h.define field.1 field.2 hid fun hnone => by cases hnone

lemma bindFrame (h : Executes s A K s') {id id'} (hid : K.scopes n (some id) (some id'))
    (f : Frame) : K.evals n (bindFrame (some id) f) (Eval.bindFrame (some id') f) :=
  h.bindAll hid (frameFields f)

lemma repeatTimes (h : Executes s A K s') {round round'}
    (hround : K.evals n round round') (times : Nat) (first : Bool) :
    K.evals n (repeatTimes s.limits.yieldEvery round times first)
      (CanScript.repeatTimes s'.limits.yieldEvery round' times first) := by
  induction times generalizing first with
  | zero => exact h.pure _
  | succ times ih =>
    -- the first round has no checkpoint before it
    have hrest : K.evals n (CanScript.repeatTimes s.limits.yieldEvery round (times + 1) true)
        (CanScript.repeatTimes s'.limits.yieldEvery round' (times + 1) true) := by
      refine h.bind hround fun flow => ?_
      cases afterRound flow with
      | some flow => exact h.pure _
      | none => exact ih false
    cases first with
    | true => exact hrest
    | false => exact h.bind h.checkpoint fun _ => hrest

lemma stmts (h : Executes s A K s') {call call' scope scope' block} (hblock : ∀ stmt ∈ block,
      K.evals n (execStmt s call scope stmt) (execStmt s' call' scope' stmt)) :
    K.evals n (execStmts s call scope block) (execStmts s' call' scope' block) := by
  induction block with
  | nil =>
    rw [execStmts, execStmts]
    exact h.pure _
  | cons stmt rest ih =>
    obtain ⟨hstmt, hrest⟩ := forall_mem_cons.mp hblock
    rw [execStmts, execStmts]
    refine h.bind h.checkpoint fun _ => h.bind hstmt fun flow => ?_
    cases flow with
    | normal => exact ih hrest
    | _ => exact h.pure _

section Statements

variable (h : Executes s A K s') {call call' : Caller}
  (hcall : ∀ n name f, A (.call name) → s.program.function? name = some f →
    ∀ args pos, K.evals n (call f args pos) (call' f args pos))

include h hcall

lemma expr (e : Expr) (hd : ∀ d ∈ e.deeds, A d) {n scope scope'}
    (hscope : K.scopes n scope scope') :
    K.evals n (evalExpr s call scope e) (evalExpr s' call' scope' e) :=
  h.across h.like.program hcall e hd hscope

lemma sendFrame {id : Expr} {data} (hsend : A .send) (hid : ∀ d ∈ id.deeds, A d)
    (hdata : ∀ d ∈ Expr.listDeeds data, A d) {scope scope'} (hscope : K.scopes n scope scope') (pos)
    (extended : Bool) : K.evals n (sendFrame s call scope pos id data extended)
      (CanScript.sendFrame s' call' scope' pos id data extended) := by
  have hpayload : K.evals n (evalPayload s call scope data)
      (evalPayload s' call' scope' data) := h.payload fun e he =>
    h.expr hcall e (fun d hmem => hdata d (Expr.mem_listDeeds he hmem)) hscope
  refine h.bind (h.expr hcall id hid hscope) fun v => h.bind (h.ofResult _ _) fun raw => ?_
  by_cases hrange : raw.toInt < 0 ∨ (Frame.maxExtendedId : Int) < raw.toInt
  · rw [if_pos hrange, if_pos hrange]
    exact h.fail _ _
  · rw [if_neg hrange, if_neg hrange]
    refine h.bind hpayload fun bs => ?_
    by_cases hroom : Frame.maxPayload < bs.length
    · rw [if_pos hroom, if_pos hroom]
      exact h.fail _ _
    · rw [if_neg hroom, if_neg hroom, h.like.ports]
      exact h.send _ _ _ _ (checked_legal hrange hroom extended) hsend

/-- The executions of a statement that does only what may be done satisfy a closed comparison. -/
lemma stmt (stmt) : (∀ d ∈ stmt.deeds, A d) → ∀ {n scope scope'}, K.scopes n scope scope' →
    K.evals n (execStmt s call scope stmt) (execStmt s' call' scope' stmt) := by
  refine @Stmt.rec
    (fun stmt => (∀ d ∈ stmt.deeds, A d) → ∀ {n scope scope'}, K.scopes n scope scope' →
      K.evals n (execStmt s call scope stmt) (execStmt s' call' scope' stmt))
    (fun block => (∀ d ∈ listDeeds block, A d) → ∀ {n scope scope'}, K.scopes n scope scope' →
      ∀ stmt ∈ block, K.evals n (execStmt s call scope stmt) (execStmt s' call' scope' stmt))
    (fun block => (∀ d ∈ optionalDeeds block, A d) →
      ∀ {n scope scope'}, K.scopes n scope scope' →
      K.evals n (execOptional s call scope block) (execOptional s' call' scope' block))
    ?declare ?assign ?send ?delay ?times ?forever ?when ?waitFor ?giveBack ?leave ?again ?print
    ?eval ?nil ?cons ?none ?some stmt
  case declare =>
    intro pos name value hd n scope scope' hscope
    cases value with
    | none =>
      rw [execStmt, execStmt]
      exact h.bind (h.define name .void hscope fun _ => hd _ mem_cons_self) fun _ => h.pure _
    | some e =>
      rw [deeds] at hd
      obtain ⟨hname, he⟩ := forall_mem_cons.mp hd
      rw [execStmt, execStmt]
      exact h.bind (h.expr hcall e he hscope) fun v =>
        h.bind (h.define name v hscope fun _ => hname) fun _ => h.pure _
  case assign =>
    intro pos name op value hd n scope scope' hscope
    rw [deeds] at hd
    obtain ⟨hname, hvalue⟩ := forall_mem_cons.mp hd
    exact h.assign pos name op hscope hname (h.expr hcall value hvalue hscope)
  case send =>
    intro pos id data extended hd n scope scope' hscope
    rw [deeds] at hd
    obtain ⟨hfirst, hdata⟩ := forall_mem_append.mp hd
    obtain ⟨hsend, hid⟩ := forall_mem_cons.mp hfirst
    rw [execStmt, execStmt]
    exact h.bind (h.sendFrame hcall hsend hid hdata hscope pos _) fun _ => h.pure _
  case delay =>
    intro pos duration hd n scope scope' hscope
    rw [deeds] at hd
    obtain ⟨hdelay, hduration⟩ := forall_mem_cons.mp hd
    rw [execStmt, execStmt]
    exact h.bind (h.expr hcall duration hduration hscope) fun v =>
      h.bind (h.ofResult _ _) fun millis => h.delay millis hdelay
  case times =>
    intro pos count body ih hd n scope scope' hscope
    rw [deeds] at hd
    obtain ⟨hcount, hbody⟩ := forall_mem_append.mp hd
    rw [execStmt, execStmt]
    exact h.bind (h.expr hcall count hcount hscope) fun v => h.bind (h.ofResult _ _) fun _ =>
      h.repeatTimes (h.inScope hscope fun _ _ hinner => h.stmts (ih hbody hinner)) _ _
  case forever =>
    intro pos body ih hd n scope scope' hscope
    rw [deeds] at hd
    obtain ⟨hcycle, hbody⟩ := forall_mem_cons.mp hd
    rw [execStmt, execStmt]
    exact h.repeatForever hcycle (h.inScope hscope fun _ _ hinner => h.stmts (ih hbody hinner))
  case when =>
    intro pos condition yes no ihyes ihno hd n scope scope' hscope
    rw [deeds] at hd
    obtain ⟨hfirst, hno⟩ := forall_mem_append.mp hd
    obtain ⟨hcondition, hyes⟩ := forall_mem_append.mp hfirst
    rw [execStmt, execStmt]
    exact h.bind (h.expr hcall condition hcondition hscope) fun c =>
      h.ite (h.inScope hscope fun _ _ hinner => h.stmts (ihyes hyes hinner)) (ihno hno hscope)
  case waitFor =>
    intro pos predicate timeout fallback ih hd n scope scope' hscope
    rw [deeds] at hd
    obtain ⟨hfirst, hfallback⟩ := forall_mem_append.mp hd
    obtain ⟨hfront, htimeout⟩ := forall_mem_append.mp hfirst
    obtain ⟨hwait, hpredicate⟩ := forall_mem_cons.mp hfront
    rw [execStmt, execStmt]
    refine h.bind (h.expr hcall timeout htimeout hscope) fun v =>
      h.bind (h.ofResult _ _) fun millis => h.wait millis hscope hwait (fun _ _ hinner => ?_) ?_
    · exact h.expr hcall predicate hpredicate hinner
    · exact h.ite (h.bind (h.report _) fun _ => ih hfallback hscope) (ih hfallback hscope)
  case giveBack =>
    intro pos value hd n scope scope' hscope
    cases value with
    | none =>
      rw [execStmt, execStmt]
      exact h.pure _
    | some e =>
      rw [execStmt, execStmt]
      exact h.bind (h.expr hcall e hd hscope) fun _ => h.pure _
  case leave =>
    intro pos hd n scope scope' hscope
    rw [execStmt, execStmt]
    exact h.pure _
  case again =>
    intro pos hd n scope scope' hscope
    rw [execStmt, execStmt]
    exact h.pure _
  case print =>
    intro pos value hd n scope scope' hscope
    rw [execStmt, execStmt]
    exact h.bind (h.expr hcall value hd hscope) fun v => h.bind (h.print _) fun _ => h.pure _
  case eval =>
    intro pos value hd n scope scope' hscope
    rw [execStmt, execStmt]
    exact h.bind (h.expr hcall value hd hscope) fun _ => h.pure _
  case nil =>
    intro hd n scope scope' hscope
    exact forall_mem_nil _
  case cons =>
    intro stmt rest ihstmt ihrest hd n scope scope' hscope
    rw [listDeeds] at hd
    obtain ⟨hstmt, hrest⟩ := forall_mem_append.mp hd
    exact forall_mem_cons.mpr ⟨ihstmt hstmt hscope, ihrest hrest hscope⟩
  case none =>
    intro hd n scope scope' hscope
    rw [execOptional, execOptional]
    exact h.pure _
  case some =>
    intro body ih hd n scope scope' hscope
    rw [execOptional, execOptional]
    exact h.inScope hscope fun _ _ hinner => h.stmts (ih hd hinner)

lemma execBlock (hd : ∀ d ∈ listDeeds block, A d) {scope scope'}
    (hscope : K.scopes n scope scope') :
    K.evals n (execStmts s call scope block) (execStmts s' call' scope' block) :=
  h.stmts fun stmt hmem =>
    h.stmt hcall stmt (fun d hd' => hd d (mem_listDeeds hmem hd')) hscope

end Statements

end Executes

namespace Calls

variable {K : Comparison} {n : Nat} {A : Deed → Prop} {s s' : Setting}

lemma callFunction (h : Calls s A K s') (hallows : s.program.Allows A) (deeperBy n : Nat) {f}
    (hbody : ∀ d ∈ listDeeds f.body, A d) (args pos) :
    K.evals n (callFunction s deeperBy f args pos)
      (CanScript.callFunction s' deeperBy f args pos) := by
  induction deeperBy generalizing n f args pos with
  | zero =>
    rw [CanScript.callFunction, CanScript.callFunction, h.like.depth]
    exact h.ite (h.fail _ _) (h.fail _ _)
  | succ deeperBy ih =>
    rw [CanScript.callFunction, CanScript.callFunction]
    refine h.ite (h.fail _ _) (h.bind (h.inScope h.outermost fun _ _ hinner => ?_) fun flow => ?_)
    · refine h.bind (h.bindAll hinner (f.params.zip args)) fun _ => h.deeper ?_
      exact h.execBlock (fun n name f hname hf => ih n (hallows name f hname hf)) hbody hinner
    · cases flow with
      | giveBack v => exact h.pure _
      | _ => exact h.pure _

lemma call (h : Calls s A K s') (hallows : s.program.Allows A) (n : Nat) (name f)
    (hname : A (.call name)) (hf : s.program.function? name = some f) (args pos) :
    K.evals n (s.call f args pos) (s'.call f args pos) := by
  rw [Setting.call, Setting.call, h.like.depth]
  exact h.callFunction hallows s.limits.maxCallDepth n (hallows name f hname hf) args pos

end Calls

/-! ## Tasks -/

/-- A comparison that is closed under the ways in which tasks are put together, apart from their
    loops and from what starts another task. -/
structure Attends (s : Setting) (A : Deed → Prop) (K : Comparison) (s' : Setting := s) : Prop
    extends Calls s A K s' where
  attempt : ∀ {n : Nat} {α : Type} {x y : Eval α}, K.evals n x y → K.evals n (attempt x) (attempt y)
  acquire : ∀ {n}, K.evals n acquire acquire
  release : ∀ {n}, K.evals n release release

/-- A comparison that is closed under the ways in which tasks are put together, their loops apart.
    -/
structure Conducts (s : Setting) (A : Deed → Prop) (K : Comparison) : Prop
    extends Attends s A K where
  spawn : ∀ {n} (a : Activation), K.evals n (ask (.spawn a)) (ask (.spawn a))

namespace Attends

variable {K : Comparison} {A : Deed → Prop} {s s' : Setting}

lemma mainSequence (h : Attends s A K s') (hallows : s.program.Allows A) {stmts}
    (hd : ∀ d ∈ listDeeds stmts, A d) :
    K.evals 0 (mainSequence s stmts) (CanScript.mainSequence s' stmts) := by
  induction stmts with
  | nil => exact h.release
  | cons stmt rest ih =>
    rw [listDeeds] at hd
    obtain ⟨hstmt, hrest⟩ := forall_mem_append.mp hd
    have hexec := h.stmt (h.call hallows) stmt hstmt (n := 0) h.outermost
    refine h.bind (h.attempt (h.bind h.checkpoint fun _ => hexec)) fun result => ?_
    cases result with
    | ok flow => exact ih hrest
    | error d => exact h.bind (h.report d) fun _ => ih hrest

lemma frameMatches (h : Attends s A K) {n call call' scope scope' predicate}
    (hscope : K.scopes n scope scope')
    (hpredicate : ∀ inner inner', K.scopes (n + 1) (some inner) (some inner') →
      K.evals (n + 1) (evalExpr s call (some inner) predicate)
        (evalExpr s call' (some inner') predicate)) (f) :
    K.evals n (frameMatches s call scope predicate f)
      (CanScript.frameMatches s call' scope' predicate f) :=
  h.composes.frameMatches h.acquire (h.attempt (h.inScope hscope fun inner inner' hinner =>
    h.bind (h.bindFrame hinner f) fun _ => hpredicate inner inner' hinner)) h.report

section Handlers

variable (h : Attends s A K) (hs : s.program.Restricts A)

include h hs

lemma activation (a : Activation) : K.evals 0 (activation s a) (CanScript.activation s a) := by
  refine h.bind h.acquire fun _ => h.inScope h.outermost fun inner inner' hinner => ?_
  have hbody := h.execBlock (h.call hs.allows) (Setting.body_restricted hs a) hinner
  cases a.frame? with
  | none => exact h.bind hbody fun _ => h.pure ()
  | some f => exact h.bind (h.bindFrame hinner f) fun _ => h.bind hbody fun _ => h.pure ()

lemma dispatchFrame {f}
    (hspawn : ∀ i, K.evals 0 (ask (.spawn (.receive i f))) (ask (.spawn (.receive i f)))) (i : Nat)
    {handlers} (hsub : ∀ handler ∈ handlers, handler ∈ s.program.receiveHandlers) :
    K.evals 0 (dispatchFrame s f i handlers) (CanScript.dispatchFrame s f i handlers) := by
  induction handlers generalizing i with
  | nil => exact h.pure ()
  | cons handler rest ih =>
    obtain ⟨hmem, hrest⟩ := forall_mem_cons.mp hsub
    refine h.bind (h.frameMatches h.outermost (fun _ _ => h.expr (h.call hs.allows) _
      (hs.predicates handler hmem)) f) fun found => ?_
    exact h.ite (h.bind (hspawn _) fun _ => ih _ hrest) (ih _ hrest)

lemma period {handler : IntervalHandler} (hmem : handler ∈ s.program.intervalHandlers) :
    K.evals 0 (period s handler) (CanScript.period s handler) := by
  have hperiod := h.expr (h.call hs.allows)
    handler.period (hs.periods handler hmem) (n := 0) h.outermost
  exact h.bind hperiod fun _ => h.bind (h.ofResult _ _) fun _ => h.ite (h.fail _ _) (h.pure _)

end Handlers

end Attends

/-- What a script makes a task do: evaluations and statements, from within any number of calls, the
    statements of the main sequence, activations of handlers, tests of frames, and the evaluation of
    the period of a handler. -/
inductive Endeavour (s : Setting) : {α : Type} → Eval α → Prop where
  | evaluation (deeperBy : Nat) (scope : Option ScopeId) (e : Expr) :
      Endeavour s (evalExpr s (callFunction s deeperBy) scope e)
  | statement (deeperBy : Nat) (scope : Option ScopeId) (stmt : Stmt) :
      Endeavour s (execStmt s (callFunction s deeperBy) scope stmt)
  | main (stmt : Stmt) : Endeavour s (do
      checkpoint s.limits.yieldEvery
      execStmt s s.call none stmt)
  | activation (a : Activation) : Endeavour s (activation s a)
  | test (deeperBy : Nat) (scope : Option ScopeId) (predicate : Expr) (f : Frame) :
      Endeavour s (frameMatches s (callFunction s deeperBy) scope predicate f)
  | registration {h : IntervalHandler} : h ∈ s.program.intervalHandlers → Endeavour s (do
      acquire
      attempt (period s h))

lemma Endeavour.compares {s K} (h : Attends s (fun _ => True) K)
    (hscope : ∀ {n : Nat} scope, K.scopes n scope scope) {α : Type} {x : Eval α}
    (hx : Endeavour s x) : K.evals 0 x x := by
  have hprogram := s.program.unrestricted
  have hcall : ∀ deeperBy n name f, True → s.program.function? name = some f → ∀ args pos,
      K.evals n (callFunction s deeperBy f args pos) (callFunction s deeperBy f args pos) :=
    fun deeperBy n _ _ _ _ => h.callFunction hprogram.allows deeperBy n fun _ _ => trivial
  cases hx with
  | evaluation deeperBy scope e =>
    exact h.expr (hcall deeperBy) e (fun _ _ => trivial) (hscope scope)
  | statement deeperBy scope stmt =>
    exact h.stmt (hcall deeperBy) stmt (fun _ _ => trivial) (hscope scope)
  | main stmt =>
    exact h.bind h.checkpoint fun _ =>
      h.stmt (h.call hprogram.allows) stmt (fun _ _ => trivial) h.outermost
  | activation a => exact h.activation hprogram a
  | test deeperBy scope predicate f =>
    exact h.frameMatches (hscope scope) (fun _ _ => h.expr (hcall deeperBy) _ fun _ _ => trivial) f
  | registration hmem =>
    exact h.bind h.acquire fun _ => h.attempt (h.period hprogram hmem)

end Eval

end CanScript
