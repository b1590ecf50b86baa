import CanScript.Proofs.Conduct
import CanScript.Proofs.History
import CanScript.Proofs.Numerals

/-! # Additions to a shared variable

    A statement `x += e` evaluates `e` first, which may take any time and let any task go on.  Then
    it reads `x`, adds and writes `x` under one hold of the turn.  So however tasks interleave, what
    was added by statements that came to their end is in the variable. -/

namespace CanScript

open List Eval Process Value

/-! ## Bound names -/

variable {name : String} {scopes : Scopes} {scope : Option ScopeId}

namespace Bindings

lemma get?_insert_self (name v) (bs : Bindings) : (bs.insert name v).get? name = some v := by
  induction bs with
  | nil => simp [insert, get?]
  | cons p bs ih =>
    obtain ⟨other, w⟩ := p
    rw [insert]
    by_cases hname : name = other
    · simp [hname, get?]
    · rw [if_neg (by simpa using hname)]
      split
      · simp [get?]
      · rw [get?, lookup_cons, beq_eq_false_iff_ne.mpr hname]
        exact ih

lemma get?_insert_ne {x} (h : x ≠ name) (v) (bs : Bindings) :
    (bs.insert name v).get? x = bs.get? x := by
  have hne : (x == name) = false := beq_eq_false_iff_ne.mpr h
  induction bs with
  | nil => simpa [insert, get?] using h
  | cons p bs ih =>
    obtain ⟨other, w⟩ := p
    rw [insert]
    by_cases hname : name = other
    · subst hname
      simp [get?, lookup_cons, hne]
    · rw [if_neg (by simpa using hname)]
      split
      · rw [get?, lookup_cons, hne]
        rfl
      · rw [get?, get?, lookup_cons, lookup_cons]
        cases x == other with
        | true => rfl
        | false => exact ih

end Bindings

/-! ## Executions that replace the variables -/

def Writes (f : Bindings → Bindings) (c : Process (Except Interrupt Unit × Local)) : Prop :=
  ∃ next, c = .act .globals next ∧ (∃ e l, next none = .pure (.error e, l)) ∧
    ∀ bs, ∃ last, next (some bs) = .act (.setGlobals (f bs)) last ∧
      (∃ l, last true = .pure (.ok (), l)) ∧ ∃ e l, last false = .pure (.error e, l)

lemma define_writes (scope name v l) :
    Writes (fun bs => (l.scopes.define scope name v bs).2) ((define scope name v).start l) :=
  ⟨_, rfl, ⟨_, _, rfl⟩, fun _ => ⟨_, rfl, ⟨_, rfl⟩, _, _, rfl⟩⟩

def assigned (scopes : Scopes) (scope : Option ScopeId) (name : String) (v : Value)
    (bs : Bindings) : Bindings :=
  ((scopes.assign? scope name v bs).map Prod.snd).getD (bs.insert name v)

lemma storeAssigned_start (scopes name v bs changed l) :
    ∃ last, (storeAssigned scopes name v bs changed).start l
      = .act (.setGlobals ((changed.map Prod.snd).getD (bs.insert name v))) last ∧
      (∃ l', last true = .pure (.ok (), l')) ∧ ∃ e l', last false = .pure (.error e, l') := by
  cases changed with
  | none | some changed => exact ⟨_, rfl, ⟨_, rfl⟩, _, _, rfl⟩

lemma assign_writes (scope name v l) :
    Writes (assigned l.scopes scope name v) ((assign scope name v).start l) :=
  ⟨_, rfl, ⟨_, _, rfl⟩, fun bs => storeAssigned_start l.scopes name v bs _ l⟩

lemma assigned_of_inner {id} (h : scopes.resolve? scope name = some (.inner id)) (v bs) :
    assigned scopes scope name v bs = bs := by
  rw [assigned, Scopes.assign?, h]
  rfl

lemma assigned_of_global (h : scopes.resolve? scope name = some .global) (v bs) :
    assigned scopes scope name v bs = bs.insert name v := by
  rw [assigned, Scopes.assign?, h]
  dsimp only
  split <;> rfl

lemma get?_assigned_ne {x} (h : x ≠ name) (v) (bs : Bindings) :
    (assigned scopes scope name v bs).get? x = bs.get? x := by
  cases hplace : scopes.resolve? scope name with
  | none =>
    rw [assigned, Scopes.assign?, hplace]
    exact Bindings.get?_insert_ne h v bs
  | some place =>
    cases place with
    | inner id => rw [assigned_of_inner hplace]
    | global =>
      rw [assigned_of_global hplace]
      exact Bindings.get?_insert_ne h v bs

def assignCombined (scope : Option ScopeId) (pos : Pos) (name : String) (operator : BinaryOp)
    (v : Value) : Option Value → Eval Unit
  | none => fail pos (.undefinedVariable name)
  | some old => do
    let w ← ofResult pos (Value.binary operator old v)
    assign scope name w

lemma assignCombined_start (scope pos name operator v found l) :
    (∃ e l', (assignCombined scope pos name operator v found).start l = .pure (.error e, l')) ∨
    ∃ old w, found = some old ∧ binary operator old v = .ok w ∧
      (assignCombined scope pos name operator v found).start l = (assign scope name w).start l := by
  cases found with
  | none => exact .inl ⟨_, _, rfl⟩
  | some old =>
    rw [assignCombined]
    cases hw : binary operator old v with
    | error f => exact .inl ⟨_, _, rfl⟩
    | ok w => exact .inr ⟨old, w, rfl, hw, rfl⟩

lemma assignValue_compound {op operator} (hop : op.binary? = some operator) (scope pos name v l) :
    ∃ next, (assignValue scope pos name op v).start l = .act .globals next ∧
      (∃ e l', next none = .pure (.error e, l')) ∧
      ∀ bs, (∃ e l', next (some bs) = .pure (.error e, l')) ∨
        ∃ old w, l.scopes.lookup? scope name bs = some old ∧ binary operator old v = .ok w ∧
          next (some bs) = (assign scope name w).start l := by
  rw [assignValue]
  rw [hop]
  exact ⟨_, rfl, ⟨_, _, rfl⟩, fun bs => assignCombined_start scope pos name operator v _ l⟩

/-! ## Writes in a history -/

namespace History

variable {H : History} {α β : Type} {t : TaskId} {i j : Nat}

lemma Along.bench_eq {c d} {k : α → Process Unit} (hi : H.Has t i (c.bind k))
    (h : H.Along t i c j d) (hmover : H.mover j = some t) (hgoing : d.isDone = false) :
    H.bench (j + 1) = (H.bench j).after t d := by
  have hmoved := ((h.has hi).move hmover).1
  rw [Bench.after_bind hgoing] at hmoved
  exact hmoved

lemma step_globals (b t) (next : Request.globals.Reply → Process α) :
    (act .globals next).step b t
      = next (if b.turn = some t then some b.globals else none : Option Bindings) := rfl

lemma setGlobals_of_turn {b} (hturn : b.turn = some t) (bs)
    (next : (Request.setGlobals bs).Reply → Process α) :
    b.after t (.act (.setGlobals bs) next) = { b with globals := bs } ∧
      (act (.setGlobals bs) next).step b t = next (true : Bool) := by
  have hperform : b.perform t (.setGlobals bs) = .done { b with globals := bs } true := if_pos hturn
  constructor
  · rw [Bench.after, hperform]
    rfl
  · exact step_of_answer (congrArg Outcome.answer? hperform)

lemma Along.of_read {next d} {k : Exit Unit → Process Unit}
    (hi : H.Has t i ((act .globals next).bind k)) (h : H.Along t i (.act .globals next) j d)
    (hmover : H.mover j = some t) (hgoing : d.isDone = false)
    (hnone : ∃ e l, next none = .pure (.error e, l))
    (hsome : ∀ bs l, next (some bs) ≠ .pure (.ok (), l)) :
    ((H.bench (j + 1)).globals = (H.bench j).globals ∧
      ∀ l, d.step (H.bench j) t ≠ .pure (.ok (), l)) ∨
    ∃ m, i ≤ m ∧ m < j ∧ H.Idle t i m ∧ H.bench (m + 1) = H.bench m ∧
      (H.bench m).turn = some t ∧ H.Has t (m + 1) ((next (some (H.bench m).globals)).bind k) ∧
      H.Along t (m + 1) (next (some (H.bench m).globals)) j d := by
  obtain ⟨e, l, hnone⟩ := hnone
  rcases h.head with ⟨rfl, -⟩ | ⟨m, him, hmj, hidle, hm, -, hrest⟩
  · refine .inl ⟨by rw [h.bench_eq hi hmover hgoing]; rfl, fun l' hstep => ?_⟩
    rw [step_globals] at hstep
    split at hstep
    · exact hsome _ l' hstep
    · cases hnone.symm.trans hstep
  · have hread : H.Along t i (.act .globals next) m (.act .globals next) := .of_idle him hidle
    have hmoved := hread.move hm rfl
    rw [step_globals] at hrest hmoved
    by_cases hturn : (H.bench m).turn = some t
    · rw [if_pos hturn] at hrest hmoved
      exact .inr ⟨m, him, hmj, hidle, hread.bench_eq hi hm rfl, hturn, hmoved.has hi, hrest⟩
    · rw [if_neg hturn, hnone] at hrest
      cases hgoing.symm.trans hrest.isDone_of_pure

/-- Within an execution that replaces the variables, a move leaves them alone and does not end the
    execution, or it replaces them, and nothing else has changed them since the task began, if it
    had the turn then. -/
lemma writes_moves {f c d} (hc : Writes f c) {k} (hi : H.Has t i (c.bind k)) (h : H.Along t i c j d)
    (hmover : H.mover j = some t) (hgoing : d.isDone = false) :
    ((H.bench (j + 1)).globals = (H.bench j).globals ∧
      ∀ l, d.step (H.bench j) t ≠ .pure (.ok (), l)) ∨
    ((H.bench (j + 1)).globals = f (H.bench j).globals ∧
      (∃ l, d.step (H.bench j) t = .pure (.ok (), l)) ∧
      ((H.bench i).turn = some t → (H.bench j).globals = (H.bench i).globals)) := by
  obtain ⟨next, rfl, hnone, hsome⟩ := hc
  have hbench := h.bench_eq hi hmover hgoing
  have hgoes : ∀ bs l, next (some bs) ≠ .pure (.ok (), l) := fun bs l hstep => by
    obtain ⟨last, hwrite, -⟩ := hsome bs
    cases hwrite.symm.trans hstep
  rcases h.of_read hi hmover hgoing hnone hgoes with
    hkeeps | ⟨m, him, hmj, hidle, hsame, hturn, hhas, hrest⟩
  · exact .inl hkeeps
  · obtain ⟨last, hwrite, ⟨l', htrue⟩, -⟩ := hsome (H.bench m).globals
    rw [hwrite] at hhas hrest
    have hturn' : (H.bench (m + 1)).turn = some t := by rw [hsame]; exact hturn
    rcases hrest.head with ⟨rfl, hidle'⟩ | ⟨n, hmn, hnj, hidle', -, -, hover⟩
    · obtain ⟨hheld, hglobals⟩ := held_idle hmj hturn' hidle'
      obtain ⟨hafter, hstep⟩ := setGlobals_of_turn hheld (f (H.bench m).globals) last
      have hread : (H.bench j).globals = (H.bench m).globals := by rw [hglobals, hsame]
      refine .inr ⟨?_, ⟨l', hstep.trans htrue⟩, fun hbegan => ?_⟩
      · rw [hbench, hafter, hread]
      · rw [hread]
        exact (held_idle him hbegan hidle).2
    · -- the variables were replaced before, and the execution is over
      obtain ⟨hheld, -⟩ := held_idle hmn hturn' hidle'
      obtain ⟨-, hstep⟩ := setGlobals_of_turn hheld (f (H.bench m).globals) last
      rw [hstep, htrue] at hover
      cases hgoing.symm.trans hover.isDone_of_pure

variable {pos : Pos} {v : Value} {l : Local} {op : AssignOp}

/-- Within the assignment of `x += e` to the global variable, a move leaves the variables alone and
    does not end the assignment, or it adds the value of `e` to what the variable holds at that
    moment. -/
lemma addition_moves {x} (hglobal : l.scopes.resolve? scope x = some .global) {d k}
    (hi : H.Has t i (((assignValue scope pos x .add v).start l).bind k))
    (h : H.Along t i ((assignValue scope pos x .add v).start l) j d) (hmover : H.mover j = some t)
    (hgoing : d.isDone = false) : ((H.bench (j + 1)).globals = (H.bench j).globals ∧
      ∀ l', d.step (H.bench j) t ≠ .pure (.ok (), l')) ∨
    ((∃ l', d.step (H.bench j) t = .pure (.ok (), l')) ∧
      ∃ old w, (H.bench j).globals.get? x = some old ∧ binary .add old v = .ok w ∧
        (H.bench (j + 1)).globals.get? x = some w) := by
  obtain ⟨next, hstart, hnone, hsome⟩ := @assignValue_compound .add _ rfl scope pos x v l
  rw [hstart] at hi h
  have hgoes : ∀ bs l', next (some bs) ≠ .pure (.ok (), l') := fun bs l' hstep => by
    rcases hsome bs with ⟨e', l'', hfails⟩ | ⟨old, w, -, -, hassigns⟩
    · cases hfails.symm.trans hstep
    · cases hassigns.symm.trans hstep
  rcases h.of_read hi hmover hgoing hnone hgoes with
    hkeeps | ⟨m, him, hmj, hidle, hsame, hturn, hhas, hrest⟩
  · exact .inl hkeeps
  · rcases hsome (H.bench m).globals with ⟨e', l'', hfails⟩ | ⟨old, w, hold, hw, hassigns⟩
    · rw [hfails] at hrest
      cases hgoing.symm.trans hrest.isDone_of_pure
    · rw [hassigns] at hhas hrest
      rcases writes_moves (assign_writes scope x w l) hhas hrest hmover hgoing with
        hkeeps | ⟨hwrites, hends, hheld⟩
      · exact .inl hkeeps
      · -- the variable is written as it was read, under the same hold of the turn
        have hread : (H.bench j).globals = (H.bench m).globals := by
          rw [hheld (by rw [hsame]; exact hturn), hsame]
        refine .inr ⟨hends, old, w, ?_, hw, ?_⟩
        · rw [hread]
          rw [Scopes.lookup?, hglobal] at hold
          exact hold
        · rw [hwrites, assigned_of_global hglobal]
          exact Bindings.get?_insert_self x w _

/-! ## Completed additions -/

variable (H) in
/-- With the move of a moment an execution of `x += e` comes to its end, which adds the value of `e`
    to the global variable. -/
inductive Completes (x : String) (v : Value) (j : Nat) : Prop where
  | intro {t s call scope pos e l l1 l2} {k : Except Interrupt Flow × Local → Process Unit} {i m}
      {d} (begins : H.Has t i (((execStmt s call scope (.assign pos x .add e)).start l).bind k))
      (evaluates : H.Along t i ((evalExpr s call scope e).start l) m (.pure (.ok v, l1)))
      (global : l1.scopes.resolve? scope x = some .global)
      (assigns : H.Along t m ((assignValue scope pos x .add v).start l1) j d)
      (moves : H.mover j = some t) (going : d.isDone = false)
      (ends : d.step (H.bench j) t = .pure (.ok (), l2))

def afterValue (scope : Option ScopeId) (pos : Pos) (name : String) (op : AssignOp) (v : Value) :
    Eval Flow := do
  assignValue scope pos name op v
  return .normal

lemma execStmt_assign (s call scope pos name op e l) :
    (execStmt s call scope (.assign pos name op e)).start l
      = ((evalExpr s call scope e).start l).bind fun r =>
        ExceptT.bindCont (afterValue scope pos name op) r.1 r.2 := by
  rw [execStmt]
  rfl

lemma afterValue_start (scope pos name op v l) : (afterValue scope pos name op v).start l
      = ((assignValue scope pos name op v).start l).bind fun r =>
        ExceptT.bindCont (fun _ => (return .normal : Eval Flow)) r.1 r.2 := rfl

lemma has_afterValue {s call e l1 m k}
    (hbegins : H.Has t i (((execStmt s call scope (.assign pos name op e)).start l).bind k))
    (hevaluates : H.Along t i ((evalExpr s call scope e).start l) m (.pure (.ok v, l1))) :
    ∃ k', H.Has t m (((assignValue scope pos name op v).start l1).bind k') := by
  rw [execStmt_assign, bind_assoc] at hbegins
  have hm : H.Has t m (((afterValue scope pos name op v).start l1).bind k) :=
    hevaluates.has hbegins
  rw [afterValue_start, bind_assoc] at hm
  exact ⟨_, hm⟩

lemma Completes.adds {x} (h : H.Completes x v j) :
    ∃ old w, (H.bench j).globals.get? x = some old ∧ binary .add old v = .ok w ∧
      (H.bench (j + 1)).globals.get? x = some w := by
  obtain ⟨begins, evaluates, global, assigns, moves, going, ends⟩ := h
  obtain ⟨k', hhas⟩ := has_afterValue begins evaluates
  rcases addition_moves global hhas assigns moves going with ⟨-, hgoes⟩ | ⟨-, hadds⟩
  · exact absurd ends (hgoes _)
  · exact hadds

variable (H) in
def Adds (x : String) (j : Nat) : Prop :=
  (H.bench (j + 1)).globals.get? x = (H.bench j).globals.get? x ∨ ∃ v, H.Completes x v j

lemma Adds.of_same {x} (h : (H.bench (j + 1)).globals = (H.bench j).globals) : H.Adds x j :=
  .inl (by rw [h])

lemma Makes.globals_eq {op} (h : H.Makes t j op) (hop : ∀ bs, op ≠ .setGlobals bs) :
    (H.bench (j + 1)).globals = (H.bench j).globals := by
  obtain ⟨hmover, next, hhas⟩ := h
  rw [(hhas.move hmover).1]
  exact ((H.bench j).perform_change t op).globals_eq hop

section Tasks

variable {x : String}

lemma Upholds.writes {f c} (hc : Writes f c) (hf : ∀ bs, (f bs).get? x = bs.get? x) :
    H.Upholds t (H.Adds x) c := by
  intro i k hi j d halong hmover hgoing
  rcases writes_moves hc hi halong hmover hgoing with ⟨hsame, -⟩ | ⟨hwrites, -⟩
  · exact .of_same hsame
  · exact .inl (by rw [hwrites, hf])

lemma answers (H : History) (t x) {op} (hop : ∀ bs, op ≠ .setGlobals bs) :
    Process.Answers (fun p => H.Upholds t (H.Adds x) p) op :=
  fun _ _ hnext => Upholds.act (fun _ hmakes => .of_same (hmakes.globals_eq hop)) hnext

lemma indifferent (H : History) (t x) :
    Process.Indifferent (fun p => H.Upholds t (H.Adds x) p) := by
  have hplain : ∀ op, op.Plain →
      Process.Answers (fun p => H.Upholds t (H.Adds x) p) op := by
    intro op hop
    refine answers H t x ?_
    rintro bs rfl
    exact hop
  have hsequential : Process.Sequential (fun p => H.Upholds t (H.Adds x) p) :=
    ⟨Upholds.pure, Upholds.bind⟩
  exact ⟨hsequential, hplain, fun f _ => hsequential.evalWrite
    (fun op hop => hplain op hop.plain) (answers H t x (by simp))⟩

lemma Upholds.loop {round : α → Process (α ⊕ β)}
    (hround : ∀ state, H.Upholds t (H.Adds x) (round state)) (state) :
    H.Upholds t (H.Adds x) (loop round state) :=
  Upholds.iter (fun _ hstill => .of_same (by rw [hstill])) hround Upholds.pure state

lemma pervasive (H : History) (t x s) : Process.Pervasive s (fun p => H.Upholds t (H.Adds x) p) :=
  (indifferent H t x).pervasive Upholds.loop s

/-- An assignment to another variable, or to a local one of the same name. -/
lemma assignValue_upholds (h : name = x → op = .add ∧ l.scopes.resolve? scope x ≠ some .global) :
    H.Upholds t (H.Adds x) ((assignValue scope pos name op v).start l) := by
  cases hop : op.binary? with
  | none =>
    have hname : x ≠ name := by
      intro heq
      rw [(h heq.symm).1] at hop
      cases hop
    rw [assignValue, hop]
    exact Upholds.writes (assign_writes scope name v l) (get?_assigned_ne hname v)
  | some operator =>
    obtain ⟨next, hstart, ⟨e, l0, hnone⟩, hsome⟩ := assignValue_compound hop scope pos name v l
    rw [hstart]
    refine Upholds.act (fun _ hmakes => .of_same (hmakes.globals_eq (by simp))) fun reply => ?_
    cases reply with
    | none =>
      rw [hnone]
      exact Upholds.pure _
    | some bs =>
      rcases hsome bs with ⟨e', l', hfails⟩ | ⟨old, w, hold, -, hassigns⟩
      · rw [hfails]
        exact Upholds.pure _
      · rw [hassigns]
        refine Upholds.writes (assign_writes scope name w l) fun bs' => ?_
        by_cases hname : name = x
        · subst hname
          cases hplace : l.scopes.resolve? scope name with
          | none =>
            rw [Scopes.lookup?, hplace] at hold
            cases hold
          | some place =>
            cases place with
            | inner id => rw [assigned_of_inner hplace]
            | global => exact absurd hplace (h rfl).2
        · exact get?_assigned_ne (fun heq => hname heq.symm) w bs'

/-- An assignment to another variable, or an addition to the variable. -/
lemma assign_upholds {s call} (pos) {e} (hop : name = x → op = .add)
    (he : Always (fun p => H.Upholds t (H.Adds x) p) (evalExpr s call scope e)) :
    Always (fun p => H.Upholds t (H.Adds x) p) (execStmt s call scope (.assign pos name op e)) := by
  intro l i k hi j d halong hmover hgoing
  have hbegins := hi
  rw [execStmt_assign] at halong
  rw [execStmt_assign, bind_assoc] at hi
  -- the move is one of `e`, or one of the assignment of its value
  rcases halong.of_bind with ⟨d', hgoing', hd', -⟩ | ⟨⟨r, l1⟩, m, hfirst, hsecond⟩
  · exact he l i _ hi j d' hd' hmover hgoing'
  · cases r with
    | error e' => cases hgoing.symm.trans hsecond.isDone_of_pure
    | ok v =>
      obtain ⟨k', hm⟩ := has_afterValue hbegins hfirst
      have hassigns : H.Along t m ((afterValue scope pos name op v).start l1) j d := hsecond
      rw [afterValue_start] at hassigns
      rcases hassigns.of_bind with ⟨d', hgoing', hd', -⟩ | ⟨⟨r, l2⟩, n, -, hover⟩
      · by_cases hadds : name = x ∧ l1.scopes.resolve? scope x = some .global
        · obtain ⟨rfl, hglobal⟩ := hadds
          cases hop rfl
          rcases addition_moves hglobal hm hd' hmover hgoing' with ⟨hsame, -⟩ | ⟨⟨l', hends⟩, -⟩
          · exact .of_same hsame
          · exact .inr ⟨v, hbegins, hfirst, hglobal, hd', hmover, hgoing', hends⟩
        · refine assignValue_upholds (fun hname => ⟨hop hname, fun hglobal => ?_⟩) m k' hm j d'
            hd' hmover hgoing'
          exact hadds ⟨hname, hglobal⟩
      · cases r with
        | error e' | ok u => cases hgoing.symm.trans hover.isDone_of_pure

end Tasks

end History

/-! ## Programs that only add to a variable -/

def frameNames : List String :=
  ["id", "data", "ext", "dlc", "port", "timestamp"]

lemma frameFields_names (f) : (frameFields f).map Prod.fst = frameNames := rfl

/-- Whether a deed changes a global variable by nothing but additions.  A wait for a frame binds the
    names of its parts. -/
def addsTo (x : String) : Deed → Bool
  | .call _ => true
  | .declare name => name != x
  | .assign name op => name != x || op == .add
  | .send => true
  | .delay => true
  | .wait => !frameNames.contains x
  | .cycle => true

namespace History

variable {H : History} {t : TaskId} {i j first : Nat} {x : String} {s : Setting}

lemma conducts (H : History) (t x s) : Conducts s (fun d => addsTo x d)
      (.of fun y => Always (fun p => H.Upholds t (H.Adds x) p) y) := by
  refine (pervasive H t x s).conducts (fun id name v l => ?_) (fun name v hname l => ?_)
    (fun hwait f field hmem => ?_) fun pos name op _ hop he => assign_upholds pos
      (fun hname => ?_) he
  · exact Upholds.writes (define_writes (some id) name v l) fun _ => rfl
  · refine Upholds.writes (define_writes none name v l) fun bs => ?_
    exact Bindings.get?_insert_ne (fun heq => by simp [addsTo, heq] at hname) v bs
  · have hfield : field.1 ∈ frameNames := by
      rw [← frameFields_names f]
      exact mem_map_of_mem hmem
    show (field.1 != x)
    rw [bne_iff_ne]
    rintro rfl
    simp [addsTo, hfield] at hwait
  · simpa [addsTo, hname] using hop

lemma role_upholds (hs : s.program.Restricts fun d => addsTo x d) {p}
    (h : Role s p) : p = mainTask s ∨ H.Upholds t (H.Adds x) p := by
  have hp := pervasive H t x s
  have hc := conducts H t x s
  cases h with
  | main => exact .inl rfl
  | forwarder port r =>
    exact .inr (Upholds.loop (fun _ => hp.forwardRound (answers H t x (by simp))
      (answers H t x (by simp)) fun f => answers H t x (by simp)) ())
  | dispatcher r =>
    exact .inr (hp.toProcess (hp.evalLoop
      (fun _ => hp.dispatchRound hc hs (answers H t x (by simp))) Upholds.loop ()))
  | interval i hmem =>
    exact .inr (hp.sober.intervalTask (hc.period hs hmem) fun millis =>
      hp.evalLoop (fun _ => hp.intervalRound i millis) Upholds.loop ())
  | activation a => exact .inr (hp.sober.activationTask hc.toAttends hs a)

lemma Upholds.of_has {G p q} (h : H.Upholds t G p) (hi : H.Has t i p) (halong : H.Along t i p j q)
    (hmover : H.mover j = some t) (hgoing : q.isDone = false) : G j :=
  h i .pure (by rw [bind_pure]; exact hi) j q halong hmover hgoing

/-- From the moment when the main sequence has come to statements that only add to the variable,
    nothing but additions changes it. -/
lemma only_adds {post} (hlaunched : (H.session 0).Launched s)
    (htext : s.program.Restricts fun d => addsTo x d)
    (hmain : ∀ t p, H.Has t 0 (mainTask s) → H.Has t first p →
      ∃ l, p = ((mainRest s post).start l).bind fun _ => .pure ())
    (hpost : ∀ d ∈ Stmt.listDeeds post, addsTo x d) (hj : first ≤ j) : H.Adds x j := by
  obtain ⟨run, hrun, -, hsetting⟩ := hlaunched.run
  have hset : ∀ s', (H.bench 0).setting? = some s' → s' = s := by
    intro s' hs'
    rw [bench, Bench.setting?, hrun] at hs'
    exact (Option.some.inj hs').symm.trans hsetting
  cases hmover : H.mover j with
  | none => exact .of_same (step_of hmover).of_none.1
  | some t =>
    obtain ⟨q, hq, hbench⟩ := moved hmover
    by_cases hdone : q.isDone
    · obtain ⟨a, rfl⟩ := eq_pure_of_isDone hdone
      exact .of_same (congrArg Bench.globals hbench)
    · have hgoing : q.isDone = false := Bool.eq_false_iff.mpr hdone
      have hactivation : ∀ a, H.Upholds t (H.Adds x) (activationTask s a) := fun a =>
        (pervasive H t x s).sober.activationTask (conducts H t x s).toAttends htext a
      -- the task was there at `first`, and from the beginning, or was started in between
      rcases Has.since hq hj with ⟨p, hp, halong⟩ | ⟨m, s', a, -, hs', hhas, halong⟩
      · rcases hp.since (Nat.zero_le first) with
          ⟨p0, hp0, halong0⟩ | ⟨m, s', a, -, hs', hhas, halong0⟩
        · rcases role_upholds htext (hlaunched.roles _ hp0) with hrole | hrole
          · obtain ⟨l, rfl⟩ := hmain t p (hrole ▸ hp0) hp
            have hrest := (pervasive H t x s).sober.mainRest (conducts H t x s).toAttends
              htext.allows hpost l
            exact (hrest.bind fun _ => Upholds.pure _).of_has hp halong hmover hgoing
          · exact hrole.of_has hp0 (halong0.trans halong) hmover hgoing
        · cases hset s' hs'
          exact (hactivation a).of_has hhas (halong0.trans halong) hmover hgoing
      · cases hset s' hs'
        exact (hactivation a).of_has hhas halong hmover hgoing

/-! ## The sum of what was added -/

variable (H) in
/-- The values that were added to a variable by the executions of `x += e` that came to their end
    from one moment up to another, in this order. -/
inductive Ledger (x : String) (first : Nat) : Nat → List Value → Prop where
  | start : Ledger x first first []
  | completed {n vs v} : Ledger x first n vs →
      H.Completes x v n → Ledger x first (n + 1) (vs ++ [v])
  | other {n vs} : Ledger x first n vs → (∀ v, ¬ H.Completes x v n) → Ledger x first (n + 1) vs

lemma Ledger.exists {n} (hn : first ≤ n) : ∃ vs, H.Ledger x first n vs := by
  induction hn with
  | refl => exact ⟨[], .start⟩
  | @step n _ ih =>
    obtain ⟨vs, hvs⟩ := ih
    by_cases hcompletes : ∃ v, H.Completes x v n
    · obtain ⟨v, hv⟩ := hcompletes
      exact ⟨vs ++ [v], hvs.completed hv⟩
    · exact ⟨vs, hvs.other fun v hv => hcompletes ⟨v, hv⟩⟩

end History

/-- A value and others added to it one after another make a value. -/
inductive Sums (a : Value) : List Value → Value → Prop where
  | nil : Sums a [] a
  | snoc {vs b v w} : Sums a vs b → Value.binary .add b v = .ok w → Sums a (vs ++ [v]) w

lemma binary_add_int {a b w} (h : binary .add (.int a) (.int b) = .ok w) :
    ∃ c, w = .int c ∧ c.toInt = a.toInt + b.toInt := by
  have hchecked : checked "+" (a.toInt + b.toInt) = .ok w := h
  rw [checked] at hchecked
  split at hchecked
  · next c hc =>
      cases hchecked
      exact ⟨c, rfl, Number.int64?_eq_some hc⟩
  · cases hchecked

lemma Sums.ints {a vs w} (h : Sums (.int a) vs w) (ns : List Int64) (hns : vs = ns.map .int) :
    ∃ c, w = .int c ∧ c.toInt = ns.foldl (fun z n => z + n.toInt) a.toInt := by
  induction h generalizing ns with
  | nil =>
    cases map_eq_nil_iff.mp hns.symm
    exact ⟨a, rfl, rfl⟩
  | snoc _ hadd ih =>
    obtain ⟨front, back, rfl, hfront, hback⟩ := map_eq_append_iff.mp hns.symm
    obtain ⟨last, rest, rfl, rfl, hrest⟩ := map_eq_cons_iff.mp hback
    cases map_eq_nil_iff.mp hrest
    obtain ⟨b, rfl, hb⟩ := ih front hfront.symm
    obtain ⟨c, rfl, hc⟩ := binary_add_int hadd
    refine ⟨c, rfl, ?_⟩
    rw [hc, hb, foldl_append]
    rfl

namespace History

variable {H : History} {first : Nat} {x : String} {s : Setting}

lemma Ledger.sums {a n vs} (h : H.Ledger x first n vs)
    (hadds : ∀ j, first ≤ j → H.Adds x j) (ha : (H.bench first).globals.get? x = some a) :
    first ≤ n ∧ ∃ w, Sums a vs w ∧ (H.bench n).globals.get? x = some w := by
  induction h with
  | start => exact ⟨le_rfl, a, .nil, ha⟩
  | completed _ hcompletes ih =>
    obtain ⟨hle, b, hsums, hb⟩ := ih
    obtain ⟨old, w, hold, hadd, hw⟩ := hcompletes.adds
    cases hb.symm.trans hold
    exact ⟨hle.step, w, hsums.snoc hadd, hw⟩
  | @other n _ _ hnone ih =>
    obtain ⟨hle, b, hsums, hb⟩ := ih
    refine ⟨hle.step, b, hsums, ?_⟩
    rcases hadds n hle with hsame | ⟨v, hv⟩
    · exact hsame.trans hb
    · exact absurd hv (hnone v)

/-- In every history of a run whose text changes a variable by nothing but statements `x += e`, at
    least from the moment when the main sequence has come to some statement, the variable is at any
    later moment what it was then and the values of `e` in all executions of such statements that
    came to their end since.  Integers add up exactly: an addition that overflows fails, and its
    statement does not come to its end. -/
theorem additions_never_lost {post : List Stmt} {a : Int64} {n : Nat}
    (hlaunched : (H.session 0).Launched s)
    (htext : s.program.Restricts fun d => addsTo x d = true)
    (hmain : ∀ t p, H.Has t 0 (mainTask s) → H.Has t first p →
      ∃ l, p = ((mainRest s post).start l).bind fun _ => .pure ())
    (hpost : ∀ d ∈ Stmt.listDeeds post, addsTo x d = true)
    (hint : (H.bench first).globals.get? x = some (.int a)) (hn : first ≤ n) :
    (∃ vs, H.Ledger x first n vs) ∧
    ∀ vs, H.Ledger x first n vs → ∃ w, Sums (.int a) vs w ∧
      (H.bench n).globals.get? x = some w ∧
      ∀ ns : List Int64, vs = ns.map .int →
        ∃ c, w = .int c ∧ c.toInt = ns.foldl (fun z m => z + m.toInt) a.toInt := by
  have hadds : ∀ j, first ≤ j → H.Adds x j := fun j => only_adds hlaunched htext hmain hpost
  refine ⟨Ledger.exists hn, fun vs hvs => ?_⟩
  obtain ⟨-, w, hsums, hw⟩ := hvs.sums hadds hint
  exact ⟨w, hsums, hw, hsums.ints⟩

/-! ## A variable with two that add to it -/

def addingProgram : Program where
  receiveHandlers := [⟨⟨3, 1⟩, .literal ⟨3, 12⟩ (.bool true),
    [.assign ⟨3, 20⟩ "x" .add (.literal ⟨3, 25⟩ (.int 1))]⟩]
  statements := [.declare ⟨1, 1⟩ "x" (some (.literal ⟨1, 9⟩ (.int 0))),
    .assign ⟨2, 1⟩ "x" .add (.literal ⟨2, 6⟩ (.int 2))]

/-- A session in which the program was started. -/
def addingSession : Session :=
  ((Session.ofLimits {} (.ofCapacity 16)).launch addingProgram ["can0"]).1

/-- The setting of its run. -/
def addingSetting : Setting := ⟨addingProgram, ["can0"], {}⟩

lemma addingSession_launched : addingSession.Launched addingSetting :=
  Session.launch_launched (s := .ofLimits {} (.ofCapacity 16)) ⟨rfl, rfl, rfl⟩ addingProgram
    ["can0"]

/-- The tasks of the run move in turn. -/
def addingHistory : History :=
  .ofIncidents addingSession addingSession_launched.orderly
    (replicate 9 [.move 0, .move 1, .move 2]).flatten

lemma addingHistory_tasks : ∃ p0 p1, (addingHistory.session 12).tasks = [⟨0, p0⟩, ⟨1, p1⟩,
    ⟨2, ((mainRest addingSetting (addingProgram.statements.drop 1)).start
      { sinceYield := 1 }).bind fun _ => .pure ()⟩] :=
  ⟨_, _, by with_unfolding_all rfl⟩

/-- From the declaration on the variable is the sum of what was added, and the second statement has
    added something. -/
theorem additions_never_lost_adding :
    addingSession.Launched addingSetting ∧
    (addingHistory.bench 12).globals.get? "x" = some (.int 0) ∧
    ∃ vs, addingHistory.Ledger "x" 12 27 vs ∧ vs ≠ [] ∧
      ∃ w, Sums (.int 0) vs w ∧ (addingHistory.bench 27).globals.get? "x" = some w := by
  have hint : (addingHistory.bench 12).globals.get? "x" = some (.int 0) := by
    with_unfolding_all rfl
  have hend : (addingHistory.bench 27).globals.get? "x" = some (.int 2) := by
    with_unfolding_all rfl
  have hmain : ∀ t p, addingHistory.Has t 0 (mainTask addingSetting) →
      addingHistory.Has t 12 p → ∃ l, p = ((mainRest addingSetting
        (addingProgram.statements.drop 1)).start l).bind fun _ => .pure () := by
    intro t p h₀ h₁₂
    obtain ⟨p₀, p₁, htasks⟩ := addingHistory_tasks
    rw [Has, htasks] at h₁₂
    -- the forwarder and the dispatcher begin otherwise than the main sequence
    have hother : ∀ q, addingHistory.Has t 0 q → q.request? = some .standing := fun q hq => by
      rw [← h₀.unique hq]
      rfl
    rcases mem_cons.1 h₁₂ with h | h
    · cases h
      cases hother _ (mem_cons_self ..)
    rcases mem_cons.1 h with h | h
    · cases h
      cases hother _ (mem_cons_of_mem _ (mem_cons_self ..))
    cases mem_singleton.1 h
    exact ⟨_, rfl⟩
  have htext : addingSetting.program.Restricts fun d => addsTo "x" d = true :=
    ⟨fun _ _ _ hfound => absurd hfound (Option.not_mem_none _), by decide, by decide, by decide,
      by decide⟩
  obtain ⟨⟨vs, hvs⟩, hsum⟩ := additions_never_lost (H := addingHistory) (n := 27)
    addingSession_launched htext hmain (by decide) hint (by decide)
  obtain ⟨w, hsums, hw, hexact⟩ := hsum vs hvs
  refine ⟨addingSession_launched, hint, vs, hvs, ?_, w, hsums, hw⟩
  rintro rfl
  obtain ⟨c, rfl, hzero⟩ := hexact [] rfl
  cases Option.some.inj (hw.symm.trans hend)
  exact absurd hzero (by decide)

end History

end CanScript
