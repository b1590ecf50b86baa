import CanScript.Proofs.Additions
import CanScript.Proofs.Reports
import CanScript.Proofs.Scoping

/-! # The test of a frame

    A frame is put to the test in a scope of its own, in which its fields are bound before anything
    else.  The task has the turn all along, so if the predicate calls no function of the script, its
    value depends on the frame and on the variables as they are, and on nothing that other tasks do
    meanwhile. -/

namespace CanScript

open Eval Scopes Array History.Finishes

/-! ## Verdicts -/

/-- What a process comes to that asks for nothing but the variables, random numbers and the time,
    when the variables are given. -/
inductive Process.Yields (g : Bindings) : {α : Type} → Process α → α → Prop where
  | pure {α : Type} (a : α) : Yields g (.pure a) a
  | globals {α : Type} {next : Option Bindings → Process α} {a} :
      Yields g (next (some g)) a → Yields g (.act .globals next) a
  | entropy {α : Type} {next : Nat → Process α} {a} (n : Nat) :
      Yields g (next n) a → Yields g (.act .entropy next) a
  | elapsed {α : Type} {next : Nat → Process α} {a} (n : Nat) :
      Yields g (next n) a → Yields g (.act .elapsed next) a

lemma Process.Yields.bind {α β : Type} {g} {p : Process α} {f : α → Process β} {a}
    {b} (h : p.Yields g a) (hf : (f a).Yields g b) : (p.bind f).Yields g b := by
  induction h with
  | pure a => exact hf
  | globals _ ih => exact .globals (ih hf)
  | entropy n _ ih => exact .entropy n (ih hf)
  | elapsed n _ ih => exact .elapsed n (ih hf)

/-- What comes of a predicate: a value or an error. -/
abbrev Verdict := Except Diagnostic Value

namespace Verdict

/-- Whether the frame satisfies the predicate. -/
def passes : Verdict → Bool
  | .ok v => v.isTruthy
  | .error _ => false

/-- The errors that are recorded. -/
def errors : Verdict → List Diagnostic
  | .ok _ => []
  | .error d => [d]

def toResult : Verdict → Except Interrupt Value
  | .ok v => .ok v
  | .error d => .error (.error d)

end Verdict

def frameBindings (f : Frame) : Bindings :=
  [("data", .bytes f.data), ("dlc", .int (Int64.ofNat f.dlc)), ("ext", .bool f.extended),
    ("id", .int (Int64.ofNat f.id)), ("port", .text f.port),
    ("timestamp", .int (Int64.ofNat (min f.timestamp Number.maxInt64.toNat)))]

def Local.facing (l : Local) (scope : Option ScopeId) (f : Frame) : Local :=
  { l with scopes := l.scopes.push ⟨frameBindings f, scope⟩ }

/-- What a test of a frame yields with the variables as they are. -/
def Judges (s : Setting) (call : Caller) (scope : Option ScopeId) (predicate : Expr) (l : Local)
    (f : Frame) (g : Bindings) (v : Verdict) : Prop :=
  ((evalExpr s call (some l.scopes.nextId) predicate).start (l.facing scope f)).Yields g
    (v.toResult, l.facing scope f)

section Parts

variable (s : Setting) (call : Caller) (scope : Option ScopeId) (predicate : Expr) (f : Frame)

def examine : Eval Value :=
  inScope scope fun inner => do
    bindFrame (some inner) f
    evalExpr s call (some inner) predicate

def conclude : Verdict → Eval Bool
  | .ok v => return v.isTruthy
  | .error d => do
    ask (.report d)
    return false

lemma frameMatches_eq : frameMatches s call scope predicate f = (do
    acquire
    let v ← attempt (examine s call scope predicate f)
    conclude v) := by
  rw [frameMatches]
  refine congrArg _ (funext fun _ => congrArg _ (funext fun v => ?_))
  cases v <;> rfl

end Parts

/-! ## Bindings -/

namespace Scopes

def defineAll (scope : Option ScopeId) (fields : List (String × Value)) (scopes : Scopes)
    (g : Bindings) : Scopes × Bindings :=
  fields.foldl (fun bound field => bound.1.define scope field.1 field.2 bound.2) (scopes, g)

lemma bind_push (scopes : Scopes) (bs parent name v) :
    Scopes.bind (scopes.push ⟨bs, parent⟩) scopes.nextId name v
      = scopes.push ⟨bs.insert name v, parent⟩ := by
  rw [Scopes.bind, nextId]
  apply ext_getElem?
  intro k
  rw [getElem?_modify, getElem?_push, getElem?_push]
  split
  · next hk =>
      subst hk
      rw [if_pos rfl, if_pos rfl]
      rfl
  · next hk => rw [if_neg (Ne.symm hk), if_neg (Ne.symm hk)]

lemma defineAll_push (fields : List (String × Value)) (scopes : Scopes) (bs parent g) :
    defineAll (some scopes.nextId) fields (scopes.push ⟨bs, parent⟩) g
      = (scopes.push ⟨fields.foldl (fun bs field => bs.insert field.1 field.2) bs, parent⟩, g) := by
  induction fields generalizing bs with
  | nil => rfl
  | cons field rest ih =>
    rw [defineAll, List.foldl_cons, define, bind_push]
    exact ih _

end Scopes

lemma frameBindings_eq (f) :
    (frameFields f).foldl (fun bs field => Bindings.insert field.1 field.2 bs) []
      = frameBindings f := by
  simp only [frameFields, frameBindings, Bindings.insert, List.foldl_cons, List.foldl_nil,
    String.reduceBEq, String.reduceLT, reduceIte, Bool.false_eq_true]

lemma defineAll_facing (l : Local) (scope : Option ScopeId) (f g) :
    defineAll (some l.scopes.nextId) (frameFields f) (l.scopes.openScope scope) g
      = ((l.facing scope f).scopes, g) := by
  rw [openScope, defineAll_push, frameBindings_eq]
  rfl

/-! ## Fields of a frame -/

namespace Scopes

/-- The value of a name in just one scope. -/
def boundIn (scopes : Scopes) (g : Bindings) (name : String) : Option ScopeId → Option Value
  | none => g.get? name
  | some id => scopes[id]?.bind fun scope => scope.bindings.get? name

/-- Names are bound in a scope, if it is open, and nothing else is changed. -/
structure Binds (scope : Option ScopeId) (fields : List (String × Value))
    (before after : Scopes × Bindings) : Prop where
  bound : before.1.Own scope → ∀ field ∈ fields,
    after.1.boundIn after.2 field.1 scope = some field.2
  others : ∀ name scope', (name ∈ fields.map Prod.fst → scope' ≠ scope) →
    after.1.boundIn after.2 name scope' = before.1.boundIn before.2 name scope'
  parents : after.1.map Scope.parent = before.1.map Scope.parent

section Define

variable {scope : Option ScopeId} {name : String} {v : Value} {scopes : Scopes} {g : Bindings}

lemma define_boundIn_self (h : scopes.Own scope) :
    (scopes.define scope name v g).1.boundIn (scopes.define scope name v g).2 name scope
      = some v := by
  cases scope with
  | none => exact Bindings.get?_insert_self name v g
  | some id =>
    show ((scopes.bind id name v)[id]?.bind fun scope => scope.bindings.get? name) = some v
    rw [Scopes.bind, getElem?_modify, if_pos rfl, getElem?_eq_getElem (h id rfl)]
    exact Bindings.get?_insert_self name v _

lemma define_boundIn_ne {name' scope'} (h : name' = name → scope' ≠ scope) :
    (scopes.define scope name v g).1.boundIn (scopes.define scope name v g).2 name' scope'
      = scopes.boundIn g name' scope' := by
  cases scope with
  | none =>
    cases scope' with
    | none => exact Bindings.get?_insert_ne (fun heq => h heq rfl) v g
    | some id => rfl
  | some id =>
    cases scope' with
    | none => rfl
    | some id' =>
      show ((scopes.bind id name v)[id']?.bind fun scope => scope.bindings.get? name') = _
      rw [Scopes.bind, getElem?_modify]
      split
      · next hid =>
          subst hid
          have hname : name' ≠ name := fun heq => h heq rfl
          rw [boundIn]
          cases scopes[id]? with
          | none => rfl
          | some found => exact Bindings.get?_insert_ne hname v _
      · rfl

lemma define_own {scope'} (h : scopes.Own scope') :
    (scopes.define scope name v g).1.Own scope' := by
  cases scope with
  | none => exact h
  | some id =>
    intro k hk
    show k < (scopes.bind id name v).size
    rw [Scopes.bind, size_modify]
    exact h k hk

end Define

lemma defineAll_binds {fields} (h : (fields.map Prod.fst).Nodup) (scope scopes g) :
    Binds scope fields (scopes, g) (defineAll scope fields scopes g) := by
  induction fields generalizing scopes g with
  | nil => exact ⟨fun _ _ hfield => absurd hfield List.not_mem_nil, fun _ _ _ => rfl, rfl⟩
  | cons field rest ih =>
    obtain ⟨hfresh, hrest⟩ := List.nodup_cons.mp h
    obtain ⟨hbound, hothers, hparents⟩ := ih hrest
      (scopes.define scope field.1 field.2 g).1 (scopes.define scope field.1 field.2 g).2
    refine ⟨fun hopen field' hfield' => ?_, fun name scope' hname => ?_,
      hparents.trans (parents_define ..)⟩
    · rcases List.mem_cons.mp hfield' with rfl | hlater
      · exact (hothers _ _ fun hmem => absurd hmem hfresh).trans (define_boundIn_self hopen)
      · exact hbound (define_own hopen) field' hlater
    · refine (hothers name scope' fun hmem => hname (List.mem_cons_of_mem _ hmem)).trans ?_
      refine define_boundIn_ne fun heq => hname ?_
      rw [heq]
      exact List.mem_cons_self

end Scopes

lemma frameFields_nodup (f) : ((frameFields f).map Prod.fst).Nodup := by
  simp [frameFields]

/-! ## The turn -/

namespace History

variable {H : History} {α β : Type} {t : TaskId} {i j m n : Nat}

variable (H) in
/-- A task has the turn from one moment to another, and no variable changes. -/
structure Holds (t : TaskId) (i j : Nat) : Prop where
  turn : ∀ m, i ≤ m → m ≤ j → (H.bench m).turn = some t
  same : ∀ m, i ≤ m → m ≤ j → (H.bench m).globals = (H.bench i).globals

namespace Holds

lemma start (hturn : (H.bench i).turn = some t) : H.Holds t i i := by
  refine ⟨fun m him hmi => ?_, fun m him hmi => ?_⟩
  · rw [hmi.antisymm him]
    exact hturn
  · rw [hmi.antisymm him]

lemma trans (h : H.Holds t i m) (him : i ≤ m) (h' : H.Holds t m j) : H.Holds t i j := by
  refine ⟨fun n hin hnj => ?_, fun n hin hnj => ?_⟩
  · rcases le_total n m with hnm | hmn
    · exact h.turn n hin hnm
    · exact h'.turn n hmn hnj
  · rcases le_total n m with hnm | hmn
    · exact h.same n hin hnm
    · rw [h'.same n hmn hnj, h.same m him le_rfl]

lemma of_idle (hturn : (H.bench i).turn = some t) (hidle : H.Idle t i j) : H.Holds t i j := by
  have hheld : ∀ m, i ≤ m → m ≤ j → (H.bench m).turn = some t ∧
      (H.bench m).globals = (H.bench i).globals := fun m him hmj =>
    held_idle him hturn fun n hin hnm => hidle n hin (hnm.trans_le hmj)
  exact ⟨fun m him hmj => (hheld m him hmj).1, fun m him hmj => (hheld m him hmj).2⟩

lemma untouched (h : H.Holds t i j) : H.Untouched t i j := fun n hin hnj _ => by
  rw [h.same (n + 1) hin.step hnj, h.same n hin hnj.le]

lemma step (hturn : (H.bench n).turn = some t) (hturn' : (H.bench (n + 1)).turn = some t)
    (hsame : (H.bench (n + 1)).globals = (H.bench n).globals) : H.Holds t n (n + 1) := by
  refine ⟨fun m hnm hmn => ?_, fun m hnm hmn => ?_⟩
  · rcases Nat.le_succ_iff.mp hmn with hmn | rfl
    · rw [hmn.antisymm hnm]
      exact hturn
    · exact hturn'
  · rcases Nat.le_succ_iff.mp hmn with hmn | rfl
    · rw [hmn.antisymm hnm]
    · exact hsame

end Holds

lemma Gets.holds {op reply} (h : H.Gets t i n op reply) (hturn : (H.bench i).turn = some t)
    (hop : op.Immediate t := by exact fun _ => Option.some_ne_none _)
    (hrelease : op ≠ .release := by simp) (hset : ∀ bs, op ≠ .setGlobals bs := by simp) :
    H.Holds t i (n + 1) := by
  have hbefore := Holds.of_idle hturn (h.nextMove hop).idle
  have hchange := (H.bench n).perform_change t op
  rw [Outcome.bench_of_answer h.answer] at hchange
  have hheld := hbefore.turn n h.le le_rfl
  exact hbefore.trans h.le (.step hheld (hchange.turn_of_own hheld hrelease)
    (hchange.globals_eq hset))

lemma AsksOnly.holds {O : Request → Prop} (h : H.AsksOnly t O i j) (hO : ¬ O .release)
    (huntouched : H.Untouched t i j) (hturn : (H.bench i).turn = some t) : H.Holds t i j := by
  have hheld : ∀ m, i ≤ m → m ≤ j → (H.bench m).turn = some t := fun m him hmj =>
    turn_held him hturn fun n hin hnm hmakes =>
      hO (h n _ hin (hnm.trans_le hmj) hmakes)
  refine ⟨hheld, fun m him hmj => ?_⟩
  refine steady (F := fun n => (H.bench n).globals) him fun n hin hnm => ?_
  have hnj := hnm.trans_le hmj
  by_cases hmover : H.mover n = some t
  · exact huntouched n hin hnj hmover
  · exact (held_step (hheld n hin hnj.le) hmover).2

lemma Finishes.of_globals {l r}
    (h : H.Finishes t i (globals.start l) j r) (hturn : (H.bench i).turn = some t) :
    r = (.ok (H.bench i).globals, l) ∧
      ∃ n, H.Gets t i n .globals (some (H.bench i).globals) ∧ j = n + 1 := by
  obtain ⟨n, reply, hgets, hrest⟩ := h.of_askBind
  have hheld := Holds.of_idle hturn hgets.nextMove.idle
  have hreply : (if (H.bench n).turn = some t then some (H.bench n).globals else none) = reply :=
    congrArg Prod.snd (Option.some.inj hgets.answer)
  rw [if_pos (hheld.turn n hgets.le le_rfl), hheld.same n hgets.le le_rfl] at hreply
  subst hreply
  obtain ⟨rfl, rfl⟩ := of_pure hrest
  exact ⟨rfl, n, hgets, rfl⟩

/-! ## Evaluations -/

end History

namespace Request

def IsQuery : Request → Prop
  | .globals | .entropy | .elapsed | .finish => True
  | _ => False

def IsStore : Request → Prop
  | .globals | .setGlobals _ => True
  | _ => False

def IsProbe : Request → Prop
  | .acquire | .report _ => True
  | op => op.IsStore ∨ op.IsQuery

lemma IsQuery.isProbe {op : Request} (h : op.IsQuery) : op.IsProbe := by
  cases op with
  | globals | entropy | elapsed | finish => exact .inr trivial
  | _ => exact h.elim

lemma IsStore.isProbe {op : Request} (h : op.IsStore) : op.IsProbe := by
  cases op with
  | globals | setGlobals _ => exact .inl trivial
  | _ => exact h.elim

end Request

/-- An evaluation by a task that has the turn: it comes to what it yields with the variables as they
    are, and leaves everything as it is. -/
structure History.Evaluates (H : History) {α : Type} (t : TaskId) (i j : Nat) (x : Eval α)
    (l : Local) (r : Except Interrupt α × Local) : Prop where
  yields : (x.start l).Yields (H.bench i).globals r
  holds : H.Holds t i j
  asks : H.AsksOnly t Request.IsQuery i j
  same : r.2 = l
  goes : r.1 ≠ .error .stopped

/-- An execution that is an evaluation whenever the task has the turn and the run is not told to
    end. -/
structure Eval.Queries {α : Type} (x : Eval α) : Prop where
  evaluates : ∀ {H : History} {t i j l r}, H.Finishes t i (x.start l) j r →
    (H.bench i).turn = some t → (H.bench j).isCancelled = false → H.Evaluates t i j x l r

namespace Eval.Queries

open History

variable {α β : Type}

lemma pure (a : α) : Queries (Pure.pure a : Eval α) := by
  refine ⟨fun h hturn _ => ?_⟩
  obtain ⟨rfl, rfl⟩ := of_pure h
  exact ⟨.pure _, .start hturn, .refl, rfl, by simp⟩

lemma throw (d : Diagnostic) : Queries (throw (.error d) : Eval α) := by
  refine ⟨fun h hturn _ => ?_⟩
  obtain ⟨rfl, rfl⟩ := of_pure h
  exact ⟨.pure _, .start hturn, .refl, rfl, by simp⟩

lemma bind {x} {f : α → Eval β} (hx : Queries x) (hf : ∀ a, Queries (f a)) : Queries (x >>= f) := by
  refine ⟨fun {H t i j l r} h hturn hgoing => ?_⟩
  rcases h.of_evalBind with ⟨e, l', hfirst, rfl⟩ | ⟨m, a, l', hfirst, hsecond⟩
  · obtain ⟨hyields, hholds, hasks, hsame, hgoes⟩ := hx.evaluates hfirst hturn hgoing
    exact ⟨hyields.bind (.pure _), hholds, hasks, hsame, fun heq => by
      cases heq
      exact hgoes rfl⟩
  · have hle := hfirst.le
    obtain ⟨hyields, hholds, hasks, hsame, -⟩ :=
      hx.evaluates hfirst hturn (going_before hsecond.le hgoing)
    obtain ⟨hyields', hholds', hasks', hsame', hgoes⟩ :=
      (hf a).evaluates hsecond (hholds.turn m hle le_rfl) hgoing
    rw [hholds.same m hle le_rfl] at hyields'
    exact ⟨hyields.bind hyields', hholds.trans hle hholds', hasks.trans hasks',
      hsame'.trans hsame, hgoes⟩

lemma ask (op : Request) (hop : ∀ t, op.Immediate t)
    (hquery : op.IsQuery) (hyields : ∀ g reply l, ((Eval.ask op).start l).Yields g (.ok reply, l)) :
    Queries (Eval.ask op) := by
  refine ⟨fun {H t i j l r} h hturn hgoing => ?_⟩
  obtain ⟨n, reply, rfl, rfl, hgets⟩ := h.of_ask
  refine ⟨hyields _ reply l, hgets.holds hturn (hop t) ?_ ?_, hgets.asksOnly hquery, rfl, by simp⟩
  · rintro rfl
    exact hquery
  · rintro bs rfl
    exact hquery

lemma globals : Queries globals := by
  refine ⟨fun {H t i j l r} h hturn hgoing => ?_⟩
  obtain ⟨rfl, n, hgets, rfl⟩ := h.of_globals hturn
  exact ⟨.globals (.pure _), hgets.holds hturn, hgets.asksOnly trivial, rfl, by simp⟩

lemma closed : Closed (.of Queries) where
  pure := pure
  throw := throw
  stop := by
    refine ⟨fun {H t i j l r} h hturn hgoing => ?_⟩
    obtain ⟨n, _, hgets, hrest⟩ := h.of_askBind
    have hcancelled : (H.bench (n + 1)).isCancelled := by
      rw [← Outcome.bench_of_answer hgets.answer]
      show (H.bench n).finish.isCancelled
      rw [Bench.finish_eq]
      exact (H.bench n).cancel_isCancelled
    cases (going_before hrest.le hgoing).symm.trans hcancelled
  bind := bind
  lookup name _ := bind globals fun g => by
    refine ⟨fun h hturn _ => ?_⟩
    obtain ⟨rfl, rfl⟩ := of_pure h
    exact ⟨.pure _, .start hturn, .refl, rfl, by simp⟩
  elapsed := ask .elapsed (fun _ _ => Option.some_ne_none _) trivial
    fun _ n _ => .elapsed n (.pure _)
  entropy := ask .entropy (fun _ _ => Option.some_ne_none _) trivial
    fun _ n _ => .entropy n (.pure _)

lemma evalExpr {s : Setting} {call e} (hcalls : ∀ name,
    .call name ∈ e.deeds → s.program.function? name = none) (scope) :
    Queries (evalExpr s call scope e) :=
  closed.plain hcalls call scope

end Eval.Queries

namespace History

variable {H : History} {t : TaskId} {i j m n : Nat}

/-! ## Bindings of a task that has the turn -/

variable {r : Exit Unit} {l : Local}

/-- A task that has the turn binds a name, and a name in a local scope without any change of the
    variables. -/
lemma Finishes.of_define {scope name v}
    (h : H.Finishes t i ((define scope name v).start l) j r) (hturn : (H.bench i).turn = some t) :
    r = (.ok (), { l with scopes := (l.scopes.define scope name v (H.bench i).globals).1 }) ∧
    (H.bench j).turn = some t ∧
    (H.bench j).globals = (l.scopes.define scope name v (H.bench i).globals).2 ∧
    (scope.isSome → H.Holds t i j) ∧ H.AsksOnly t Request.IsStore i j := by
  rcases h.of_evalBind with ⟨e, l', hfirst, -⟩ | ⟨m, g, l', hfirst, hrest⟩
  · cases (hfirst.of_globals hturn).1
  · obtain ⟨heq, n, hgets, rfl⟩ := hfirst.of_globals hturn
    cases heq
    have hreads := hgets.holds hturn
    generalize hbound : l.scopes.define scope name v (H.bench i).globals = bound
    have hset : H.Finishes t (n + 1) ((ask (.setGlobals bound.2) >>= orStopped).start
        { l with scopes := bound.1 }) j r := by
      rw [← hbound]
      exact hrest
    obtain ⟨n', stored, hsets, hlast⟩ := hset.of_askBind
    have hheld := Holds.of_idle (hreads.turn (n + 1) hgets.le.step le_rfl)
      (hsets.nextMove (Request.setGlobals_immediate _ t)).idle
    have hturn' := hheld.turn n' hsets.le le_rfl
    have hanswer : some ({ H.bench n' with globals := bound.2 }, true)
        = some (H.bench (n' + 1), stored) := by
      rw [← hsets.answer, Bench.perform, if_pos hturn']
      rfl
    obtain ⟨hbench, rfl⟩ := Prod.mk.inj (Option.some.inj hanswer)
    obtain ⟨rfl, rfl⟩ := of_pure hlast
    have hafter : (H.bench (n' + 1)).turn = some t := by
      rw [← hbench]
      exact hturn'
    have hglobals : (H.bench (n' + 1)).globals = bound.2 := by rw [← hbench]
    refine ⟨rfl, hafter, hglobals, fun hlocal => ?_,
      (hgets.asksOnly trivial).trans (hsets.asksOnly trivial)⟩
    have hread := hreads.trans hgets.le.step hheld
    refine hread.trans ((Nat.le_succ_of_le hgets.le).trans hsets.le) (.step hturn' hafter ?_)
    rw [hglobals, hread.same n' ((Nat.le_succ_of_le hgets.le).trans hsets.le) le_rfl, ← hbound]
    obtain ⟨id, rfl⟩ := Option.isSome_iff_exists.mp hlocal
    rfl

lemma Finishes.of_bindAll {scope} {fields : List (String × Value)}
    (h : H.Finishes t i ((fields.forM fun (name, v) => define scope name v).start l) j r)
    (hturn : (H.bench i).turn = some t) : r = (.ok (), { l with
      scopes := (defineAll scope fields l.scopes (H.bench i).globals).1 }) ∧
    (H.bench j).turn = some t ∧
    (H.bench j).globals = (defineAll scope fields l.scopes (H.bench i).globals).2 ∧
    (scope.isSome → H.Holds t i j) ∧ H.AsksOnly t Request.IsStore i j := by
  induction fields generalizing i l with
  | nil =>
    obtain ⟨rfl, rfl⟩ := of_pure h
    exact ⟨rfl, hturn, rfl, fun _ => .start hturn, .refl⟩
  | cons field rest ih =>
    rcases h.of_evalBind with ⟨_, _, hfirst, -⟩ | ⟨m, _, l', hfirst, hrest⟩
    · cases (hfirst.of_define hturn).1
    · obtain ⟨heq, hturn', hglobals, hholds, hasks⟩ := hfirst.of_define hturn
      cases heq
      obtain ⟨rfl, hturn'', hglobals', hholds', hasks'⟩ := ih hrest hturn'
      rw [hglobals] at hglobals' ⊢
      exact ⟨rfl, hturn'', hglobals', fun hlocal =>
        (hholds hlocal).trans hfirst.le (hholds' hlocal), hasks.trans hasks'⟩

/-! ## Tests -/

lemma acquire_only : Always (Process.Only fun op => op = .acquire) acquire := by
  have hop : Process.Answers (Process.Only fun op => op = .acquire) .acquire := Process.Only.act rfl
  exact Process.Only.sequential.evalAcquire hop

lemma Finishes.of_acquire (h : H.Finishes t i (acquire.start l) j r)
    (hgoing : (H.bench j).isCancelled = false) :
    r = (.ok (), l) ∧ (H.bench j).turn = some t ∧ H.AsksOnly t (fun op => op = .acquire) i j := by
  obtain ⟨n, reply, hgets, hrest⟩ := h.of_askBind
  rcases Bench.acquire_answer hgets.answer with
    ⟨hturn, hbench, rfl⟩ | ⟨-, hcancelled, hbench, rfl⟩ | ⟨-, -, hbench, rfl⟩
  · obtain ⟨rfl, rfl⟩ := of_pure hrest
    rw [hbench]
    exact ⟨rfl, hturn, hgets.asksOnly rfl⟩
  · have hgoing' := going_before (Nat.le_of_succ_le hrest.le) hgoing
    cases hgoing'.symm.trans hcancelled
  · obtain ⟨rfl, rfl⟩ := of_pure hrest
    rw [hbench]
    exact ⟨rfl, rfl, hgets.asksOnly rfl⟩

variable (H) in
/-- Between two moments a task has come to a verdict on a frame, with the variables as they were
    when it had the turn.  It has recorded an error if the verdict is one, has changed no variable,
    and still has the turn. -/
structure Tested (t : TaskId) (s : Setting) (call : Caller) (scope : Option ScopeId)
    (predicate : Expr) (l : Local) (f : Frame) (i j : Nat) (v : Verdict) : Prop where
  judged : ∃ m, i ≤ m ∧ m ≤ j ∧ H.Holds t m j ∧
    Judges s call scope predicate l f (H.bench m).globals v
  reported : H.reported t i j = v.errors
  untouched : H.Untouched t i j
  asks : H.AsksOnly t Request.IsProbe i j

section Tests

variable {s : Setting} {call : Caller} {scope : Option ScopeId} {predicate : Expr} {f : Frame}
  {l : Local}

lemma close_facing (l : Local) (scope f) :
    { l.facing scope f with scopes := (l.facing scope f).scopes.close l.scopes.nextId } = l := by
  have hclose : (l.facing scope f).scopes.close l.scopes.nextId = l.scopes := by
    rw [Local.facing, close, nextId]
    simp
  rw [hclose]
  rfl

variable (hcalls : ∀ name, .call name ∈ predicate.deeds → s.program.function? name = none)

include hcalls

/-- A task that has the turn comes to a verdict on a frame. -/
lemma Finishes.of_examine {r}
    (h : H.Finishes t i ((attempt (examine s call scope predicate f)).start l) j r)
    (hturn : (H.bench i).turn = some t) (hgoing : (H.bench j).isCancelled = false) :
    ∃ v, r = (.ok v, l) ∧ Judges s call scope predicate l f (H.bench i).globals v ∧
      H.Holds t i j ∧ H.AsksOnly t (fun op => op.IsStore ∨ op.IsQuery) i j := by
  obtain ⟨r', hscope, rfl⟩ := h.of_attempt
  obtain ⟨⟨result, l'⟩, hbody, rfl⟩ := of_map hscope
  rcases hbody.of_evalBind with ⟨_, _, hfields, -⟩ | ⟨m, _, l1, hfields, hvalue⟩
  · cases (hfields.of_bindAll hturn).1
  · obtain ⟨heq, hturn', -, hlocal, hasks⟩ := hfields.of_bindAll hturn
    obtain ⟨-, rfl⟩ := Prod.mk.inj heq
    have hholds := hlocal rfl
    rw [defineAll_facing] at hvalue
    have hqueries : Queries (evalExpr s call (some l.scopes.nextId) predicate) :=
      .evalExpr hcalls _
    obtain ⟨hyields, hholds', hasks', hsame, hgoes⟩ :=
      hqueries.evaluates hvalue hturn' hgoing
    rw [hholds.same m hfields.le le_rfl] at hyields
    have hlast : l' = l.facing scope f := hsame
    subst hlast
    rw [close_facing]
    have hkinds : H.AsksOnly t (fun op => op.IsStore ∨ op.IsQuery) i j :=
      (hasks.mono fun _ hop => .inl hop).trans (hasks'.mono fun _ hop => .inr hop)
    rcases result with (d | _) | v
    · exact ⟨.error d, rfl, hyields, hholds.trans hfields.le hholds', hkinds⟩
    · exact absurd rfl hgoes
    · exact ⟨.ok v, rfl, hyields, hholds.trans hfields.le hholds', hkinds⟩

/-- A test comes to a verdict, which decides whether the frame passes and what is recorded, and
    changes no variable. -/
lemma Finishes.of_frameMatches {r}
    (h : H.Finishes t i ((frameMatches s call scope predicate f).start l) j r)
    (hgoing : (H.bench j).isCancelled = false) :
    ∃ v, r = (.ok v.passes, l) ∧ H.Tested t s call scope predicate l f i j v := by
  rw [frameMatches_eq] at h
  rcases h.of_evalBind with ⟨_, _, hturn, rfl⟩ | ⟨m, _, l1, hturn, h⟩
  · cases (hturn.of_acquire hgoing).1
  · obtain ⟨heq, hheld, hasks⟩ := hturn.of_acquire (going_before h.le hgoing)
    cases heq
    rcases h.of_evalBind with ⟨_, _, htest, rfl⟩ | ⟨m', v', l2, htest, hend⟩
    · obtain ⟨_, heq, -⟩ := htest.of_examine hcalls hheld hgoing
      cases heq
    · obtain ⟨v, heq, hjudges, hholds, hasks'⟩ :=
        htest.of_examine hcalls hheld (going_before hend.le hgoing)
      cases heq
      have hsilent : H.reported t i m' = [] := by
        rw [reported_append hturn.le htest.le, hasks.reported,
          hasks'.reported (by simp [Request.IsStore, Request.IsQuery])]
        rfl
      have huntouched : H.Untouched t i m' :=
        hasks.untouched.trans hholds.untouched
      have hprobes : H.AsksOnly t Request.IsProbe i m' := by
        refine (hasks.mono ?_).trans (hasks'.mono ?_)
        · rintro op rfl
          exact trivial
        · rintro op (hop | hop)
          · exact hop.isProbe
          · exact hop.isProbe
      cases v' with
      | ok v =>
        obtain ⟨rfl, rfl⟩ := of_pure hend
        exact ⟨.ok v, rfl, ⟨m, hturn.le, htest.le, hholds, hjudges⟩, hsilent, huntouched, hprobes⟩
      | error d =>
        obtain ⟨n, _, hreports, hlast⟩ := of_askBind hend
        obtain ⟨rfl, rfl⟩ := of_pure hlast
        have hlater := hreports.le.step
        have hholds' := hreports.holds (hholds.turn m' htest.le le_rfl)
        refine ⟨.error d, rfl, ⟨m, hturn.le, htest.le.trans hlater,
          hholds.trans htest.le hholds', hjudges⟩, ?_, huntouched.trans hholds'.untouched,
          hprobes.trans (hreports.asksOnly trivial)⟩
        rw [reported_append (hturn.le.trans htest.le) hlater, hsilent, hreports.reported]
        rfl

end Tests

end History

end CanScript
