import CanScript.Proofs.Conduct
import CanScript.Proofs.History

/-! # Statements that are not interrupted

    A task reads and changes the global variables only while it has the turn. So from the moment
    when a statement reads a variable no other task changes one, for as long as the task keeps the
    turn.  A statement that only computes keeps it to its end if it calls no function of the script.
    A function is another matter: each of its statements begins with a checkpoint, where the task
    may give the turn back in the middle of the statement that called the function. -/

namespace CanScript

open Eval

/-- Whether a statement only computes and changes or shows values. -/
def Stmt.isSimple : Stmt → Bool
  | .declare .. => true
  | .assign .. => true
  | .print .. => true
  | .eval .. => true
  | _ => false

namespace History

variable {H : History} {t : TaskId} {i j r : Nat}

variable (H) in
/-- A task reads the variables at a moment. -/
def ReadsVariables (t : TaskId) (i : Nat) : Prop :=
  H.Makes t i .globals ∧ (H.bench i).turn = some t

lemma others_wait (hturn : (H.bench i).turn = some t)
    (hkeeps : ∀ m, i ≤ m → m < j → ¬ H.Makes t m .release) :
    ∀ m, i ≤ m → m < j → H.mover m ≠ some t → (H.bench (m + 1)).globals = (H.bench m).globals := by
  intro m him hmj hmover
  have hheld : (H.bench m).turn = some t :=
    turn_held him hturn fun n hin hnm => hkeeps n hin (hnm.trans hmj)
  exact (held_step hheld hmover).2

variable (H) in
def KeepsTurn (t : TaskId) {α : Type} (c : Process α) : Prop :=
  H.Upholds t (fun m => ¬ H.Makes t m .release) c

lemma answers_of_ne_release {op} (hop : op ≠ .release) :
    Process.Answers (fun p => H.KeepsTurn t p) op :=
  fun _ _ hnext => Upholds.act (fun _ hmakes hrelease => hop (hmakes.unique hrelease)) hnext

/-- A simple statement that calls no function of the script does not give the turn back. -/
lemma KeepsTurn.simple {s call scope stmt} (hsimple : stmt.isSimple)
    (hcalls : ∀ name, .call name ∈ stmt.deeds → s.program.function? name = none) :
    Always (fun p => H.KeepsTurn t p) (execStmt s call scope stmt) := by
  have hseq : Process.Sequential (fun p => H.KeepsTurn t p) := ⟨.pure, .bind⟩
  have hglobals : Process.Answers (fun p => H.KeepsTurn t p) .globals :=
    answers_of_ne_release (by simp)
  have hset : ∀ bs, Process.Answers (fun p => H.KeepsTurn t p) (.setGlobals bs) :=
    fun bs => answers_of_ne_release (by simp)
  have hclosed := hseq.closed hglobals (answers_of_ne_release (by simp))
    (answers_of_ne_release (by simp)) (answers_of_ne_release (by simp))
  have hvalue : ∀ e, (∀ d ∈ e.deeds, d ∈ stmt.deeds) →
      Always (fun p => H.KeepsTurn t p) (evalExpr s call scope e) :=
    fun e he => hclosed.plain (fun name hname => hcalls name (he _ hname)) call scope
  cases stmt with
  | declare pos name value =>
    cases value with
    | none =>
      rw [execStmt]
      exact hseq.evalBind (hseq.evalDefine hglobals hset scope name _) fun _ =>
        hseq.evalPure _
    | some e =>
      rw [execStmt]
      exact hseq.evalBind (hvalue e fun d hd => List.mem_cons_of_mem _ hd) fun v =>
        hseq.evalBind (hseq.evalDefine hglobals hset scope name v) fun _ => hseq.evalPure _
  | assign pos name op value =>
    rw [execStmt]
    exact hseq.evalBind (hvalue value fun d hd => List.mem_cons_of_mem _ hd) fun v =>
      hseq.evalBind (hclosed.assignValue (n := 0) scope none trivial
        (hseq.evalAssign hglobals hset scope name) pos op v) fun _ => hseq.evalPure _
  | print pos value =>
    rw [execStmt]
    exact hseq.evalBind (hvalue value fun d hd => hd) fun v =>
      hseq.evalBind (hseq.evalAsk (answers_of_ne_release (by simp))) fun _ => hseq.evalPure _
  | eval pos value =>
    rw [execStmt]
    exact hseq.evalBind (hvalue value fun d hd => hd) fun _ => hseq.evalPure _
  | _ => cases hsimple

/-- From the moment when a statement reads a variable up to any later moment of its execution, no
    other task changes a variable, if the task does not give the turn back in between.  A simple
    statement that calls no function of the script does not do so, whatever the other tasks and the
    host do. -/
theorem simple_statement_atomic {s : Setting} {call : Caller} {scope : Option ScopeId}
    {stmt : Stmt} {l : Local} {k : Except Interrupt Flow × Local → Process Unit}
    {d : Process (Except Interrupt Flow × Local)}
    (hbegins : H.Has t i (((execStmt s call scope stmt).start l).bind k))
    (hexecutes : H.Along t i ((execStmt s call scope stmt).start l) j d)
    (hreads : H.ReadsVariables t r) (hafter : i ≤ r)
    (hkeeps : (stmt.isSimple = true ∧
        ∀ name, .call name ∈ stmt.deeds → s.program.function? name = none) ∨
      ∀ m, r ≤ m → m < j → ¬ H.Makes t m .release) :
    ∀ m, r ≤ m → m < j → H.mover m ≠ some t →
      (H.bench (m + 1)).globals = (H.bench m).globals := by
  refine others_wait hreads.2 ?_
  rcases hkeeps with ⟨hsimple, hcalls⟩ | hkeeps
  · intro m hrm hmj hrelease
    obtain ⟨e, halong, hgoing⟩ := hexecutes.between (Nat.le_trans hafter hrm) hmj hrelease.1
    exact KeepsTurn.simple hsimple hcalls l i k hbegins m e halong hrelease.1 hgoing hrelease
  · exact hkeeps

/-! ## Two tasks at a counter -/

def counterStmt : Stmt :=
  .assign ⟨1, 18⟩ "count" .set
    (.binary ⟨1, 32⟩ .add (.name ⟨1, 26⟩ "count") (.literal ⟨1, 34⟩ (.int 1)))

def counterSetting : Setting where
  program := { intervalHandlers := [⟨⟨1, 1⟩, .literal ⟨1, 13⟩ (.millis 5), [counterStmt]⟩] }
  ports := ["can0"]
  limits := { yieldEvery := 1 }

def counterPart : Process (Except Interrupt Flow × Local) :=
  (execStmt counterSetting counterSetting.call none counterStmt).start {}

/-- A task that has the turn is at the statement, and another activation is about to execute it,
    too. -/
def counterSession : Session where
  bench := { Bench.ofLimits counterSetting.limits (.ofCapacity 16) 0 with
    state := .running
    run := some ⟨1, counterSetting, 0, [], false⟩
    globals := [("count", .int 0)]
    turn := some 0
    nextTask := 2 }
  tasks := [⟨0, counterPart.bind fun _ => .pure ()⟩,
    ⟨1, activationTask counterSetting (.interval 0)⟩]

/-- The two tasks move in turn. -/
def counterHistory : History :=
  .ofIncidents counterSession ⟨by decide, by decide⟩ [.move 0, .move 1, .move 0]

/-- The second task moves between the first one's reading of the counter and the end of its
    statement, and has to wait. -/
theorem simple_statement_atomic_counter :
    counterHistory.ReadsVariables 0 0 ∧ counterHistory.mover 1 = some 1 ∧
    (counterHistory.bench 2).globals = (counterHistory.bench 1).globals := by
  have hbegins : counterHistory.Has 0 0 (counterPart.bind fun _ => .pure ()) :=
    List.mem_cons_self
  have hreads : counterHistory.ReadsVariables 0 0 := ⟨⟨rfl, _, hbegins⟩, rfl⟩
  have hexecutes : counterHistory.Along 0 0 counterPart 3 _ :=
    .move (.stay (.move .start rfl rfl) (by decide)) rfl rfl
  refine ⟨hreads, rfl, ?_⟩
  exact simple_statement_atomic hbegins hexecutes hreads (Nat.le_refl 0)
    (.inl ⟨rfl, fun _ _ => rfl⟩)
    1 (by decide) (by decide) (by decide)

end History

/-! ## An update that is lost -/

/-- A script that counts frames with a function that does not wait. -/
def tallyScript : String :=
  "var count = 0\nfunction f() \x7b repeat(4) \x7b \x7d\nreturn 1 \x7d\n"
    ++ "on_receive(true) \x7b count = count + f() \x7d"

/-- The session after two frames have arrived at once, where other tasks get a turn after each
    statement. -/
def tallySession : Session :=
  let s := ((Session.ofLimits { yieldEvery := 1 } (.ofCapacity 256)).start tallyScript ["can0"]).1
  let s := (Session.injectAll (s.advance 1) [⟨1, [], false, "can0", 0⟩,
    ⟨2, [], false, "can0", 0⟩]).1
  s.advance 1

/-- Both activations have come to their end without an error, each has added one to the counter, and
    the counter is at one: the function gave the turn back between the reading of the counter and
    its change. -/
theorem tally_loses_update :
    (Program.ofSource tallyScript).2 = [] ∧ tallySession.tasks.length = 2 ∧
    tallySession.bench.log.errorCount = 0 ∧
    (tallySession.bench.globals.get? "count").map Value.display = some "1" := by
  decide +kernel

end CanScript
