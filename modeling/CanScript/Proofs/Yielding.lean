import CanScript.Proofs.Course
import CanScript.Proofs.Scoping
import CanScript.Proofs.Turns

/-! # Letting others go first

    A task counts its statements and lets others go first after so many of them.  In a run without
    handlers nobody else does anything that the main sequence could see, and so it makes no
    difference to what the run leaves behind how often that happens. -/

namespace CanScript

open List Bench Option

/-! ## Executions that let others go first more or less often -/

/-- What the statements and the functions of a program can do. -/
def Program.deeds (p : Program) : List Deed :=
  Stmt.listDeeds p.statements ++ p.functions.flatMap fun f => Stmt.listDeeds f.body

lemma Program.allows_of_not_mem {p : Program} {d : Deed} (h : d ∉ p.deeds) : p.Allows (· ≠ d) := by
  rintro name f - hf _ hmem rfl
  exact h (mem_append_right _ (mem_flatMap.mpr ⟨f, mem_of_find?_eq_some hf, hmem⟩))

namespace Eval

open Process

lemma Corresponds.across {τ : Type} {scopes : Nat → Option ScopeId → Option ScopeId → Prop}
    {J : τ → Nat → Local → Local → Prop} (h : Corresponds scopes J) {s s' : Setting}
    (hlike : s.Like s') : Executes s (· ≠ .wait) (alike scopes J) s' := by
  have hsame := h.executes s fun _ => True
  refine { hsame.toClosed with
    like := hlike
    outermost := hsame.outermost
    inScope := hsame.inScope
    report := hsame.report
    print := hsame.print
    checkpoint := h.checkpoint _ _
    repeatForever := fun _ hround =>
      loop (h.uniform.foreverRound _ _ (h.checkpoint _ _) _ _ hround) true
    define := fun name v hscope _ => h.define name v hscope
    assign := fun pos name op _ hscope _ hvalue => ?_
    send := fun pos id data extended hlegal _ => hsame.send pos id data extended hlegal trivial
    delay := fun millis _ => hsame.delay millis trivial
    wait := fun _ _ _ _ hwait => absurd rfl hwait }
  rw [execStmt, execStmt]
  exact h.uniform.bind hvalue fun v => h.uniform.bind (h.uniform.closed.assignValue _ _ hscope
    (fun w => h.assign name w hscope) pos op v) fun _ => h.uniform.pure _

/-- The main sequences of one program are alike however often they let others go first. -/
lemma mainTask_alike {s s'} (hlike : s.Like s') (hwait : .wait ∉ s.program.deeds) :
    Alike false (fun _ _ => True) (mainTask s) (mainTask s') := by
  have hattends : Attends s (· ≠ .wait) (inShape fun _ => True) s' :=
    { toExecutes := inShape.corresponds.across hlike
      deeper := inShape.deeper fun _ _ => trivial
      attempt := inShape.corresponds.uniform.attempt
      acquire := inShape.corresponds.uniform.acquire
      release := inShape.corresponds.uniform.request .release trivial }
  have hmain : (inShape fun _ => True).evals 0 (mainSequence s s.program.statements)
      (mainSequence s' s.program.statements) :=
    hattends.mainSequence (Program.allows_of_not_mem hwait) fun d hd heq =>
      hwait (mem_append_left _ (heq ▸ hd))
  have hend : (inShape fun _ => True).evals 0
      (if !s.program.hasHandlers then ask .finish else Pure.pure ())
      (if !s.program.hasHandlers then ask .finish else Pure.pure ()) :=
    hattends.ite (inShape.corresponds.uniform.request .finish trivial) (hattends.pure ())
  rw [mainTask, mainTask, hlike.program]
  exact (hattends.bind hmain (fun _ => hend) _ {} {} ⟨rfl, rfl, rfl, trivial⟩).bind
    fun _ _ _ => .pure trivial

end Eval

lemma mainTask_own {s : Setting} (hwait : .wait ∉ s.program.deeds) :
    (mainTask s).Only fun op => op.isOwn := by
  have hordinary : ∀ op, op.Ordinary →
      Process.Answers (Process.Only fun op => op.isOwn) op := by
    intro op hop
    refine Process.Only.act ?_
    cases op with
    | receive | leavePort | publish | listen | unlisten | nextFrame | spawn => exact hop.elim
    | _ => rfl
  have hsober : Process.Sober (Process.Only fun op => op.isOwn) :=
    ⟨Process.Only.sequential, hordinary, fun f _ =>
      Process.Only.sequential.evalWrite hordinary (Process.Only.act rfl)⟩
  have hset : ∀ bs, Process.Answers (Process.Only fun op => op.isOwn) (.setGlobals bs) :=
    fun _ => Process.Only.act rfl
  rw [mainTask_eq]
  refine hsober.toProcess (hsober.mainRest (hsober.attends (A := (· ≠ .wait))
    (fun millis => hsober.evalLoop hsober.sleepStretch Process.Only.loop millis)
    (fun _ _ hround => hsober.evalLoop (hsober.foreverRound _ hround) Process.Only.loop true)
    (fun name v _ => hsober.evalDefine (hordinary _ trivial) hset _ name v)
    (fun pos name op _ _ => hsober.execAssign hset pos name op)
    fun _ hdeed => absurd rfl hdeed) (Program.allows_of_not_mem hwait) fun d hd heq => ?_)
  exact hwait (mem_append_left _ (heq ▸ hd))

lemma mainTask_told {s : Setting} (hhandlers : s.program.hasHandlers = false) (k : Grasp) :
    discipline.Keeps (fun k _ => k.told) k (mainTask s) := by
  have hlast : ∀ k, Eval.Under discipline Eval.Ended k
      (if !s.program.hasHandlers then Eval.ask .finish else pure ())
      fun k _ => k.told := by
    intro k
    rw [hhandlers]
    exact .ask trivial fun _ k' hafter => by rw [hafter.2]; exact Bool.or_true _
  refine (Eval.Under.bind (mainSequence_disciplined s _ k) fun k _ _ => hlast k).toProcess.mono
    fun k _ hk => ?_
  rcases hk with htold | ⟨e, -, htold⟩
  · exact htold
  · exact htold

/-! ## Benches that look the same -/

namespace Bench

variable {b v : Bench} {t : TaskId} {op : Request}

lemma core_setState (b : Bench) (state : ExecutionState) :
    (b.core.setState b.core.runId? state).core = (b.setState b.runId? state).core := by
  have hid : b.core.runId? = b.runId? := by
    show (b.run.map Run.core).map _ = b.run.map _
    cases b.run <;> rfl
  rw [hid]
  unfold setState
  obtain ⟨limits, bus, log, writeTime, now, old, run, rest⟩ := b
  simp only [apply_ite core]
  cases run <;> rfl

lemma answer_alongside (hb : b.core = v.core) (h : op.isOwn) :
    (b.perform t op).answer?.map Prod.snd = (v.perform t op).answer?.map Prod.snd := by
  have hanswer := congrArg (fun outcome => outcome.answer?.map Prod.snd)
    (perform_alongside (t := t) hb h)
  rwa [Outcome.core_answer?, Outcome.core_answer?, Option.map_map, Option.map_map] at hanswer

lemma after_alongside {p : Process Unit} (hb : b.core = v.core)
    (hown : ∀ op, p.request? = some op → op.isOwn) :
    p.step b t = p.step v t ∧ (b.after t p).core = (v.after t p).core := by
  cases p with
  | pure a | iter body s next => exact ⟨rfl, hb⟩
  | act op next =>
    have hanswer := answer_alongside (t := t) hb (hown op rfl)
    have hbench := congrArg Outcome.bench (perform_alongside (t := t) hb (hown op rfl))
    rw [Outcome.core_bench, Outcome.core_bench] at hbench
    refine ⟨?_, hbench⟩
    rw [Process.step, Process.step]
    generalize (b.perform t op).answer? = answer at hanswer
    generalize (v.perform t op).answer? = answer' at hanswer
    cases answer with
    | none =>
      cases answer' with
      | none => rfl
      | some _ => cases hanswer
    | some _ =>
      cases answer' with
      | none => cases hanswer
      | some _ => exact congrArg next (Option.some.inj hanswer)

lemma waits_alongside {p} (hb : b.core = v.core) (hown : ∀ op, p.request? = some op → op.isOwn) :
    Task.waits b ⟨t, p⟩ = Task.waits v ⟨t, p⟩ := by
  cases p with
  | pure a | iter body s next => rfl
  | act op next =>
    have hanswer := congrArg isNone (answer_alongside (t := t) hb (hown op rfl))
    rwa [isNone_map, isNone_map] at hanswer

end Bench

/-! ## A task by itself -/

lemma Bench.addClaim_again (b : Bench) (port : String) (t : TaskId) :
    (b.addClaim port t).addClaim port t = b.addClaim port t := by
  have hmem : ((b.addClaim port t).claimsOn port).contains t := by
    unfold addClaim
    dsimp only
    split
    · assumption
    · rw [claimsOn_setClaims]
      simp
  rw [addClaim]
  exact if_pos hmem

/-- A request that has to wait changes nothing, except that a claim is remembered. -/
lemma Bench.perform_waits {b : Bench} {t op} (hop : op.isOwn)
    (h : (b.perform t op).answer? = none) : (b.perform t op).bench = b ∨
    ∃ port, op = .claimPort port ∧ b.isCancelled = false ∧
      (b.perform t op).bench = b.addClaim port t := by
  cases op with
  | claimPort port =>
    rw [perform, claimPort] at h ⊢
    by_cases hcancelled : b.isCancelled
    · rw [if_pos hcancelled] at h
      cases h
    · rw [if_neg hcancelled] at h ⊢
      dsimp only at h ⊢
      split
      · next hhead =>
          rw [if_pos hhead] at h
          cases h
      · exact .inr ⟨port, rfl, Bool.eq_false_iff.mpr hcancelled, rfl⟩
  | acquire => exact .inl (acquire_waits h).1
  | setGlobals bs =>
    rw [perform] at h
    split at h <;> cases h
  | awaitRunning =>
    rw [perform] at h ⊢
    cases hstanding : b.standing with
    | paused => exact .inl rfl
    | running | stopped =>
      rw [hstanding] at h
      cases h
  | sleepUntil deadline heedPause =>
    refine .inl ?_
    show (b.sleepUntil deadline heedPause).bench = b
    unfold sleepUntil
    simp only [apply_ite Outcome.bench]
    split
    · rfl
    · split
      · rfl
      · split <;> rfl
  | nextFrame | receive => cases hop
  | _ => cases h

lemma Bench.claimPort_of_addClaim {b b' : Bench} {port t}
    (h : b'.addClaim port t = b.addClaim port t) (hgoing : b.isCancelled = false)
    (hgoing' : b'.isCancelled = false) : b'.claimPort t port = b.claimPort t port := by
  rw [claimPort, claimPort, hgoing, hgoing', h]
  rfl

lemma Bench.perform_again {b : Bench} {t} {op : Request} (hop : op.isOwn)
    (h : (b.perform t op).answer? = none) :
    (b.perform t op).bench.perform t op = b.perform t op := by
  rcases perform_waits hop h with heq | ⟨port, rfl, hgoing, heq⟩
  · rw [heq]
  · have hcancelled := ((b.addClaim_change t port).standing_eq (by simp)).2.1
    rw [heq]
    exact claimPort_of_addClaim (b.addClaim_again port t) hgoing (hcancelled.trans hgoing)

lemma Process.Throughout.step {G : {α : Type} → Process α → Prop} {p : Process Unit}
    (h : Throughout G p) (b : Bench) (t : TaskId) : Throughout G (p.step b t) := by
  cases p with
  | pure a => exact h
  | iter body s next => exact fun n q hq => h (n + 1) q (.iter hq)
  | act op next =>
    cases hanswer : (b.perform t op).answer? with
    | none => rwa [step_of_wait hanswer]
    | some answer =>
      rw [step_of_answer hanswer]
      exact fun n q hq => h (n + 1) q (.act _ hq)

namespace Process.Alone

variable {t : TaskId} {n m : Nat} {world : List (Bench → Bench)} {b b' b'' : Bench}
  {p : Process Unit} {result result' : Option Unit}

lemma unique (h : Alone t n world b p b' result) (h' : Alone t m world b p b'' result') :
    b' = b'' := by
  induction h generalizing m with
  | ends a =>
    cases h'
    rfl
  | answered hanswer _ ih =>
    cases h' with
    | answered hanswer' hrest =>
      cases hanswer.symm.trans hanswer'
      exact ih hrest
    | waits hwait _ | rests hwait => cases hanswer.symm.trans hwait
  | waits hwait _ ih =>
    cases h' with
    | answered hanswer _ => cases hwait.symm.trans hanswer
    | waits _ hrest => exact ih hrest
  | rests hwait =>
    cases h' with
    | answered hanswer _ => cases hwait.symm.trans hanswer
    | rests _ => rfl
  | rounds _ ih =>
    cases h' with
    | rounds hrest => exact ih hrest

lemma of_perform {op : Request} {next : op.Reply → Process Unit} {c : Bench}
    (hsame : c.perform t op = b.perform t op) (h : Alone t n world c (.act op next) b' result) :
    Alone t n world b (.act op next) b' result := by
  cases h with
  | answered hanswer hrest => exact .answered (hsame ▸ hanswer) hrest
  | waits hwait hrest =>
    rw [hsame] at hwait hrest
    exact .waits hwait hrest
  | rests hwait =>
    rw [hsame] at hwait ⊢
    exact .rests hwait

lemma of_step (hgoing : p.isDone = false) (hown : ∀ op, p.request? = some op → op.isOwn)
    (h : Alone t n world (b.after t p) (p.step b t) b' result) :
    ∃ m, Alone t m world b p b' result := by
  cases p with
  | pure a => cases hgoing
  | iter body s next => exact ⟨n + 1, .rounds h⟩
  | act op next =>
    cases hanswer : (b.perform t op).answer? with
    | some answer =>
      rw [step_of_answer hanswer, Bench.after, Outcome.bench_of_answer hanswer] at h
      exact ⟨n + 1, .answered hanswer h⟩
    | none =>
      rw [step_of_wait hanswer] at h
      exact ⟨n, of_perform (Bench.perform_again (hown op rfl) hanswer) h⟩

end Process.Alone

/-! ## A host that calls when the main sequence cannot go on -/

/-- What a host does while a run goes on. -/
inductive HostCall where
  | pause
  | resume
  | pass (millis : Nat)

def HostCall.change : HostCall → Bench → Bench
  | pause, b => if b.state = .running then b.setState b.runId? .paused else b
  | resume, b => if b.state = .paused then b.setState b.runId? .running else b
  | pass millis, b => { b with now := b.now + millis }

lemma HostCall.change_alongside {b v : Bench} (h : b.core = v.core) (c : HostCall) :
    (c.change b).core = (c.change v).core := by
  have hsame : ∀ b, (c.change b.core).core = (c.change b).core := by
    intro b
    cases c with
    | pause =>
      simp only [change, apply_ite core, b.core_core, b.core_setState]
      rfl
    | resume =>
      simp only [change, apply_ite core, b.core_core, b.core_setState]
      rfl
    | pass millis =>
      obtain ⟨limits, bus, log, writeTime, now, state, run, rest⟩ := b
      cases run <;> rfl
  rw [← hsame b, h, hsame v]

lemma HostCall.change_eq (c : HostCall) (b : Bench) : ∃ state log now, ∀ claims,
    c.change { b with claims } = { b with state, log, now, claims } := by
  have hset : ∀ {old new : ExecutionState}, old ≠ new → ∃ state log now, ∀ claims,
      (if b.state = old then setState { b with claims } b.runId? new
        else { b with claims }) = { b with state, log, now, claims } := by
    intro old new hne
    by_cases hstate : b.state = old
    · refine ⟨new, b.log.recordState b.runId? new, b.now, fun claims => ?_⟩
      rw [if_pos hstate, setState]
      exact if_neg fun heq => hne (hstate.symm.trans heq)
    · exact ⟨b.state, b.log, b.now, fun claims => if_neg hstate⟩
  cases c with
  | pause => exact hset (by decide)
  | resume => exact hset (by decide)
  | pass millis => exact ⟨b.state, b.log, b.now + millis, fun _ => rfl⟩

lemma HostCall.change_keeps (c : HostCall) (b : Bench) :
    (c.change b).turn = b.turn ∧ (c.change b).isCancelled = b.isCancelled ∧
    (c.change b).spawned = b.spawned := by
  obtain ⟨state, log, now, heq⟩ := c.change_eq b
  rw [show c.change b = _ from heq b.claims]
  exact ⟨rfl, rfl, rfl⟩

lemma HostCall.change_addClaim (c : HostCall) (b : Bench) (port : String) (t : TaskId) :
    c.change (b.addClaim port t) = (c.change b).addClaim port t := by
  obtain ⟨state, log, now, heq⟩ := c.change_eq b
  rw [show c.change b = _ from heq b.claims]
  unfold addClaim
  dsimp only
  by_cases hmem : (b.claimsOn port).contains t
  · rw [if_pos hmem]
    exact (heq b.claims).trans (if_pos hmem).symm
  · rw [if_neg hmem]
    exact (heq _).trans (if_neg hmem).symm

lemma HostCall.change_perform {b : Bench} {t} {op : Request} (hop : op.isOwn)
    (h : (b.perform t op).answer? = none) (c : HostCall) :
    (c.change b).perform t op = (c.change (b.perform t op).bench).perform t op := by
  rcases perform_waits hop h with heq | ⟨port, rfl, hgoing, heq⟩
  · rw [heq]
  · have hcancelled := ((b.addClaim_change t port).standing_eq (by simp)).2.1
    rw [heq]
    refine claimPort_of_addClaim ?_ ?_ ?_
    · rw [c.change_addClaim, addClaim_again]
    · exact (c.change_keeps _).2.1.trans (hcancelled.trans hgoing)
    · exact (c.change_keeps b).2.1.trans hgoing

def Bench.legacy (b : Bench) : Log × Bindings × Array Frame :=
  (b.log, b.globals, b.bus.sent)

lemma Bench.legacy_alongside {b v : Bench} (h : b.core = v.core) : b.legacy = v.legacy :=
  (congrArg legacy h :)

lemma Bench.legacy_waits {b : Bench} {t} {op : Request} (hop : op.isOwn)
    (h : (b.perform t op).answer? = none) : (b.perform t op).bench.legacy = b.legacy := by
  rcases perform_waits hop h with heq | ⟨port, -, -, heq⟩
  · rw [heq]
  · rw [heq, addClaim]
    split <;> rfl

lemma HostCall.change_legacy {b : Bench} (h : b.state.isActive = false) (c : HostCall) :
    (c.change b).legacy = b.legacy := by
  cases c with
  | pass millis => rfl
  | pause | resume =>
    rw [change, if_neg]
    intro hstate
    rw [hstate] at h
    cases h

namespace Session

def host (s : Session) : HostCall → Session
  | .pause => s.pause.1
  | .resume => s.resume.1
  | .pass millis => s.setClock (s.bench.now + millis)

lemma host_eq (s : Session) (c : HostCall) : s.host c = ⟨c.change s.bench, s.tasks⟩ := by
  cases c with
  | pass millis => rfl
  | pause =>
    rw [host, pause, HostCall.change]
    split <;> rfl
  | resume =>
    rw [host, resume, HostCall.change]
    split <;> rfl

def Idle (t : TaskId) (s : Session) : Prop :=
  ∀ task ∈ s.tasks, task.id = t → task.waits s.bench = true

instance (t : TaskId) (s : Session) : Decidable (s.Idle t) :=
  inferInstanceAs (Decidable (∀ task ∈ s.tasks, task.id = t → task.waits s.bench = true))

/-- Tasks go on in any order, and the host makes its calls one after another, each when a task
    cannot go on, as is the case when no task can. -/
inductive Unfolds (t : TaskId) : List HostCall → Session → Session → Prop where
  | rest {s s'} : Moves s s' → s'.Idle t → Unfolds t [] s s'
  | call {s m s' c calls} : Moves s m → m.Idle t →
      Unfolds t calls (m.host c) s' → Unfolds t (c :: calls) s s'

/-- Forwarders, and after them the main sequence, which has come to `p` on a bench that looks like
    `v`. -/
structure Hosts (t : TaskId) (v : Bench) (p : Process Unit) (s : Session) : Prop where
  bench : s.bench.core = v.core
  spawned : v.spawned = []
  tasks : ∃ others, s.tasks = others ++ [⟨t, p⟩] ∧ ∀ o ∈ others, o.Forwards ∧ o.id ≠ t
  own : p.Only fun op => op.isOwn = true
  told : ∃ k : Grasp, k.Fits t v ∧ discipline.Keeps (fun k _ => k.told = true) k p

/-- Only forwarders are left, and the run was told to end. -/
structure Left (t : TaskId) (v : Bench) (s : Session) : Prop where
  bench : s.bench.core = v.core
  spawned : v.spawned = []
  tasks : ∀ o ∈ s.tasks, o.Forwards ∧ o.id ≠ t
  cancelled : v.isCancelled = true

section Moves

variable {p : Process Unit} {t : TaskId} {v b : Bench} {task : Task} {before behind : List Task}
  {s m : Session}

lemma moved_id (task : Task) (b : Bench) : ∀ o ∈ task.moved b, o.id = task.id := by
  rw [Task.moved]
  split
  · exact forall_mem_nil _
  · exact forall_mem_singleton.mpr rfl

lemma forwarder_moved (htask : task.Forwards ∧ task.id ≠ t) (b : Bench) :
    (b.after task.id task.rest).core = b.core ∧ ∀ o ∈ task.moved b, o.Forwards ∧ o.id ≠ t :=
  ⟨htask.1.after_core b, fun o ho =>
    ⟨htask.1.moved b o ho, fun heq => htask.2 ((moved_id task b o ho).symm.trans heq)⟩⟩

lemma Left.move (h : Left t v ⟨b, before ++ task :: behind⟩) :
    Left t v ⟨b.after task.id task.rest, before ++ task.moved b ++ behind⟩ := by
  obtain ⟨hbefore, hrest⟩ := forall_mem_append.mp h.tasks
  obtain ⟨htask, hbehind⟩ := forall_mem_cons.mp hrest
  obtain ⟨hcore, hmoved⟩ := forwarder_moved htask b
  exact ⟨hcore.trans h.bench, h.spawned,
    forall_mem_append.mpr ⟨forall_mem_append.mpr ⟨hbefore, hmoved⟩, hbehind⟩, h.cancelled⟩

lemma Hosts.request (h : Hosts t v p s) : ∀ op, p.request? = some op → op.isOwn :=
  h.own.here

lemma Hosts.main_moved {others} (h : Hosts t v p ⟨b, others ++ [⟨t, p⟩]⟩)
    (hothers : ∀ o ∈ others, o.Forwards ∧ o.id ≠ t) :
    let s' : Session := ⟨b.after t p, others ++ (⟨t, p⟩ : Task).moved b ++ []⟩
    (p.isDone → Left t v s') ∧
      (p.isDone = false → Hosts t (v.after t p) (p.step v t) s') := by
  have hrequest := h.request
  obtain ⟨k, hfits, hkeeps⟩ := h.told
  constructor
  · intro hdone
    obtain ⟨a, rfl⟩ := Process.eq_pure_of_isDone hdone
    refine ⟨h.bench, h.spawned, ?_, hfits.told hkeeps.of_pure⟩
    show ∀ o ∈ others ++ [] ++ [], _
    rw [append_nil, append_nil]
    exact hothers
  · intro hgoing
    obtain ⟨hstep, hcore⟩ := after_alongside (t := t) h.bench hrequest
    refine ⟨hcore, ?_, ⟨others, ?_, hothers⟩, h.own.step v t,
      discipline_describes.move hfits hkeeps⟩
    · cases p with
      | pure a | iter body s next => exact h.spawned
      | act op next => exact ((v.perform_change t op).keeps (hrequest op rfl)).1.trans h.spawned
    · rw [Task.moved, if_neg (Bool.eq_false_iff.mp hgoing), append_nil, hstep]

/-- The main sequence moves, or a forwarder does, which is not noticed. -/
lemma Hosts.move (h : Hosts t v p ⟨b, before ++ task :: behind⟩):
    let s' : Session := ⟨b.after task.id task.rest, before ++ task.moved b ++ behind⟩
    Hosts t v p s' ∨ p.isDone ∧ Left t v s' ∨
      p.isDone = false ∧ Hosts t (v.after t p) (p.step v t) s' := by
  obtain ⟨others, htasks, hothers⟩ := h.tasks
  rcases eq_nil_or_concat' behind with rfl | ⟨behind, last, rfl⟩
  · obtain ⟨rfl, hlast⟩ := append_inj' htasks rfl
    obtain rfl := (cons.inj hlast).1
    obtain ⟨hdone, hgoing⟩ := h.main_moved hothers
    cases hend : p.isDone with
    | true => exact .inr (.inl ⟨rfl, hdone hend⟩)
    | false => exact .inr (.inr ⟨rfl, hgoing hend⟩)
  · have hsplit : before ++ task :: behind ++ [last] = others ++ [⟨t, p⟩] := by
      rw [← htasks, append_assoc]
      rfl
    obtain ⟨rfl, hlast⟩ := append_inj' hsplit rfl
    obtain ⟨hbefore, hrest⟩ := forall_mem_append.mp hothers
    obtain ⟨htask, hbehind⟩ := forall_mem_cons.mp hrest
    obtain ⟨hcore, hmoved⟩ := forwarder_moved htask b
    refine .inl ⟨hcore.trans h.bench, h.spawned, ⟨before ++ task.moved b ++ behind, ?_,
      forall_mem_append.mpr ⟨forall_mem_append.mpr ⟨hbefore, hmoved⟩, hbehind⟩⟩, h.own, h.told⟩
    rw [hlast, ← append_assoc]

lemma Hosts.moves (h : Hosts t v p s) (hmoves : Moves s m) :
    (∃ w r, Hosts t w r m ∧ ∀ {n world b' result}, Process.Alone t n world w r b' result →
      ∃ n', Process.Alone t n' world v p b' result) ∨
    ∃ w, Left t w m ∧ ∀ world, ∃ n, Process.Alone t n world v p w (some ()) := by
  induction hmoves with
  | refl => exact .inl ⟨v, p, h, fun halone => ⟨_, halone⟩⟩
  | @move b before task behind _ ih =>
    rcases ih with ⟨w, r, hw, hback⟩ | ⟨w, hleft, hend⟩
    · rcases hw.move with hsame | ⟨hdone, hleft⟩ | ⟨hgoing, hnext⟩
      · exact .inl ⟨w, r, hsame, hback⟩
      · obtain ⟨a, rfl⟩ := Process.eq_pure_of_isDone hdone
        exact .inr ⟨w, hleft, fun world => hback (.ends a)⟩
      · refine .inl ⟨_, _, hnext, fun halone => ?_⟩
        obtain ⟨n, hbefore⟩ := halone.of_step hgoing (hw.request)
        exact hback hbefore
    · exact .inr ⟨w, hleft.move, hend⟩
  | spawn _ ih =>
    rcases ih with ⟨w, r, hw, hback⟩ | ⟨w, hleft, hend⟩
    · rw [startTasks_of_none ((congrArg Bench.spawned hw.bench :).trans hw.spawned)]
      exact .inl ⟨w, r, hw, hback⟩
    · rw [startTasks_of_none ((congrArg Bench.spawned hleft.bench :).trans hleft.spawned)]
      exact .inr ⟨w, hleft, hend⟩

lemma Left.moves (h : Left t v s) (hmoves : Moves s m) : Left t v m := by
  induction hmoves with
  | refl => exact h
  | move _ _ _ _ ih => exact ih.move
  | spawn _ ih =>
    rwa [startTasks_of_none ((congrArg Bench.spawned ih.bench :).trans ih.spawned)]

lemma Hosts.host (h : Hosts t v p s) (c : HostCall) : Hosts t (c.change v) p (s.host c) := by
  obtain ⟨hturn, hcancelled, hspawned⟩ := c.change_keeps v
  obtain ⟨k, hfits, hkeeps⟩ := h.told
  rw [host_eq]
  exact ⟨c.change_alongside h.bench, hspawned.trans h.spawned, h.tasks, h.own, k,
    ⟨hturn ▸ hfits.held, fun htold => hcancelled.trans (hfits.told htold)⟩, hkeeps⟩

lemma Left.host (h : Left t v s) (c : HostCall) : Left t (c.change v) (s.host c) := by
  obtain ⟨-, hcancelled, hspawned⟩ := c.change_keeps v
  rw [host_eq]
  exact ⟨c.change_alongside h.bench, hspawned.trans h.spawned, h.tasks,
    hcancelled.trans h.cancelled⟩

lemma Hosts.waits (h : Hosts t v p s)
    (hidle : s.Idle t) : ∃ op next, p = .act op next ∧ (v.perform t op).answer? = none := by
  obtain ⟨others, htasks, -⟩ := h.tasks
  have hwaits := hidle ⟨t, p⟩ (htasks ▸ mem_append_right _ (mem_singleton.mpr rfl)) rfl
  rw [waits_alongside h.bench (h.request)] at hwaits
  exact Task.waits_iff hwaits

lemma Hosts.idle (h : Hosts t v p s) (hwaits : Task.waits v ⟨t, p⟩) : s.Idle t := by
  obtain ⟨others, htasks, hothers⟩ := h.tasks
  intro task hmem hid
  rw [htasks] at hmem
  rcases mem_append.mp hmem with hother | hmain
  · exact absurd hid (hothers task hother).2
  · rw [mem_singleton.mp hmain, waits_alongside h.bench (h.request)]
    exact hwaits

end Moves

variable {p : Process Unit} {t : TaskId} {v : Bench} {s s' : Session} {calls : List HostCall}
  {limits : RunConfig} {bus : Bus} {writeTime : Nat}

lemma Reachable.host (h : Reachable limits bus writeTime s) (c : HostCall) :
    Reachable limits bus writeTime (s.host c) := by
  cases c with
  | pause => exact h.step (.external (.pause s))
  | resume => exact h.step (.external (.resume s))
  | pass millis => exact h.step (.external (.clock s (Nat.le_add_right _ _)))

lemma Left.inactive (h : Left t v s) (hs : Reachable limits bus writeTime s) :
    v.state.isActive = false := by
  have hcancelled : s.bench.isCancelled := by
    rw [← s.bench.core_isCancelled, h.bench, v.core_isCancelled]
    exact h.cancelled
  rw [← show s.bench.state = v.state from (congrArg state h.bench :)]
  refine Bool.eq_false_iff.mpr fun hactive => ?_
  obtain ⟨run, hrun, hgoing⟩ := hs.sound.consistent.active.mp hactive
  rw [isCancelled, hrun] at hcancelled
  exact Bool.false_ne_true (hgoing.symm.trans hcancelled)

lemma Left.unfolds (h : Left t v s) (hs : Reachable limits bus writeTime s)
    (hunfolds : Unfolds t calls s s') : s'.bench.legacy = v.legacy := by
  induction hunfolds generalizing v with
  | rest hmoves _ => exact legacy_alongside (h.moves hmoves).bench
  | @call s m s' c calls hmoves _ _ ih =>
    have hleft := h.moves hmoves
    have hm := hs.steps hmoves.steps
    exact (ih (hleft.host c) (hm.host c)).trans (c.change_legacy (hleft.inactive hm))

/-- Whatever a session leaves behind, the main sequence does by itself. -/
lemma Hosts.unfolds (h : Hosts t v p s)
    (hs : Reachable limits bus writeTime s) (hunfolds : Unfolds t calls s s') :
    ∃ n b' result, Process.Alone t n (calls.map HostCall.change) v p b' result ∧
      s'.bench.legacy = b'.legacy := by
  induction hunfolds generalizing v p with
  | rest hmoves hidle =>
    rcases h.moves hmoves with ⟨w, r, hw, hback⟩ | ⟨w, hleft, hend⟩
    · obtain ⟨op, next, rfl, hwait⟩ := hw.waits hidle
      obtain ⟨n, halone⟩ := hback (.rests hwait)
      exact ⟨n, _, none, halone, (legacy_alongside hw.bench).trans
        (legacy_waits (hw.request op rfl) hwait).symm⟩
    · obtain ⟨n, halone⟩ := hend []
      exact ⟨n, w, some (), halone, legacy_alongside hleft.bench⟩
  | @call s m s' c calls hmoves hidle hrest ih =>
    have hm := hs.steps hmoves.steps
    rcases h.moves hmoves with ⟨w, r, hw, hback⟩ | ⟨w, hleft, hend⟩
    · obtain ⟨op, next, rfl, hwait⟩ := hw.waits hidle
      obtain ⟨n, b', result, halone, hlegacy⟩ := ih (hw.host c) (hm.host c)
      obtain ⟨n', halone'⟩ := hback
        (.waits hwait (halone.of_perform (c.change_perform (hw.request op rfl) hwait)))
      exact ⟨n', b', result, halone', hlegacy⟩
    · obtain ⟨n, halone⟩ := hend ((c :: calls).map HostCall.change)
      exact ⟨n, w, some (), halone, hleft.unfolds hm (.call .refl hidle hrest)⟩

/-! ## Sessions that unfold -/

lemma Unfolds.prepend {m} (hmoves : Moves s m) (h : Unfolds t calls m s') :
    Unfolds t calls s s' := by
  cases h with
  | rest hmore hidle => exact .rest (hmoves.trans hmore) hidle
  | call hmore hidle hrest => exact .call (hmoves.trans hmore) hidle hrest

lemma Left.idle (h : Left t v s) : s.Idle t :=
  fun task hmem hid => absurd hid (h.tasks task hmem).2

lemma Left.exists_unfolds (h : Left t v s) (calls) : ∃ s', Unfolds t calls s s' := by
  induction calls generalizing v s with
  | nil => exact ⟨s, .rest .refl h.idle⟩
  | cons c calls ih =>
    obtain ⟨s', hrest⟩ := ih (h.host c)
    exact ⟨s', .call .refl h.idle hrest⟩

lemma Hosts.advance (h : Hosts t v p s) : ∃ m, Moves s m ∧ (p.isDone → Left t v m) ∧
      (p.isDone = false → Hosts t (v.after t p) (p.step v t) m) := by
  obtain ⟨b, tasks⟩ := s
  obtain ⟨others, rfl, hothers⟩ := h.tasks
  obtain ⟨hdone, hgoing⟩ := h.main_moved hothers
  exact ⟨_, .move others ⟨t, p⟩ [] .refl, hdone, hgoing⟩

lemma Hosts.waited {op next}
    (h : Hosts t (v.after t (Process.act op next)) ((Process.act op next).step v t) s)
    (hwait : (v.perform t op).answer? = none) :
    Hosts t (v.perform t op).bench (.act op next) s ∧ s.Idle t := by
  rw [Process.step_of_wait hwait] at h
  refine ⟨h, h.idle ?_⟩
  show (((v.perform t op).bench.perform t op).answer?).isNone
  rw [perform_again (h.request op rfl) hwait, hwait]
  rfl

/-- What the main sequence does by itself a session can unfold to. -/
lemma Hosts.exists_unfolds {world n b' result} (halone : Process.Alone t n world v p b' result)
    (hworld : world = calls.map HostCall.change) (h : Hosts t v p s) :
    ∃ s', Unfolds t calls s s' := by
  induction halone generalizing s calls with
    obtain ⟨m, hmoves, hdone, hgoing⟩ := h.advance
  | ends a =>
    obtain ⟨s', hrest⟩ := (hdone rfl).exists_unfolds calls
    exact ⟨s', hrest.prepend hmoves⟩
  | answered hanswer _ ih =>
    have hnext := hgoing rfl
    rw [Process.step_of_answer hanswer, Bench.after, Outcome.bench_of_answer hanswer] at hnext
    obtain ⟨s', hrest⟩ := ih hworld hnext
    exact ⟨s', hrest.prepend hmoves⟩
  | rounds _ ih =>
    obtain ⟨s', hrest⟩ := ih hworld (hgoing rfl)
    exact ⟨s', hrest.prepend hmoves⟩
  | rests hwait =>
    obtain rfl := map_eq_nil_iff.mp hworld.symm
    exact ⟨m, .rest hmoves ((hgoing rfl).waited hwait).2⟩
  | waits hwait _ ih =>
    obtain ⟨hnext, hidle⟩ := (hgoing rfl).waited hwait
    obtain ⟨c, calls, rfl, rfl, rfl⟩ := map_eq_cons_iff.mp hworld.symm
    obtain ⟨s', hrest⟩ := ih rfl (hnext.host c)
    exact ⟨s', .call hmoves hidle hrest⟩

/-! ## The beginning of a run -/

lemma addForwarders_core (s : Session) (ports : List String) : ∃ others,
    (ports.foldl addForwarder s).tasks = s.tasks ++ others ∧
    (∀ o ∈ others, o.Forwards ∧ o.id < s.bench.nextTask + ports.length) ∧
    (ports.foldl addForwarder s).bench.core
      = { s.bench.core with nextTask := s.bench.nextTask + ports.length } := by
  induction ports generalizing s with
  | nil => exact ⟨[], (append_nil _).symm, forall_mem_nil _, rfl⟩
  | cons port ports ih =>
    obtain ⟨others, htasks, hothers, hcore⟩ := ih (s.addForwarder port)
    have hnext : (s.addForwarder port).bench.nextTask + ports.length
        = s.bench.nextTask + (port :: ports).length := by
      rw [length_cons, Nat.add_comm ports.length, ← Nat.add_assoc]
      rfl
    rw [hnext] at hothers hcore
    refine ⟨⟨s.bench.nextTask, forwarder port (s.bench.bus.subscribe port).2⟩ :: others, ?_, ?_, ?_⟩
    · exact htasks.trans (append_assoc _ _ _)
    · refine forall_mem_cons.mpr ⟨⟨⟨port, _, 0, .refl _⟩, ?_⟩, hothers⟩
      exact Nat.lt_add_of_pos_right (Nat.succ_pos _)
    · have hrun : (s.addForwarder port).bench.run.map Run.core = s.bench.run.map Run.core :=
        map_map ..
      have hsame : (s.addForwarder port).bench.core
          = { s.bench.core with nextTask := s.bench.nextTask + 1 } :=
        congrArg (fun run => ({ s.bench.core with nextTask := s.bench.nextTask + 1, run } : Bench))
          hrun
      rw [foldl_cons, hcore, hsame]

variable (limits bus writeTime) (program : Program) (ports : List String) (every : Nat)

def yieldingSetting : Setting :=
  ⟨program, ports, { limits with yieldEvery := every }⟩

/-- A session in which a program was started, and tasks let others go first after so many
    statements. -/
def yielding : Session :=
  ((ofLimits { limits with yieldEvery := every } bus writeTime).startProgram program ports).1

variable {limits bus writeTime program ports every}

lemma yielding_eq (hhandlers : program.hasHandlers = false) (hports : ports ≠ []) :
    yielding limits bus writeTime program ports every
      = (ports.foldl addForwarder ⟨beginRun (ofLimits { limits with yieldEvery := every } bus
          writeTime).ready.bench (yieldingSetting limits program ports every), []⟩).addTasks
        [mainTask (yieldingSetting limits program ports every)] := by
  obtain ⟨hreceive, hinterval⟩ := Bool.or_eq_false_iff.mp hhandlers
  have hnone : intervalTasks (yieldingSetting limits program ports every) = [] := by
    have hnil : program.intervalHandlers = [] := by simpa using hinterval
    rw [intervalTasks, yieldingSetting, hnil]
    rfl
  rw [yielding, startProgram_of_none (startRefusal?_eq_none rfl hports), launch_eq]
  show (addDispatcher _ (yieldingSetting limits program ports every)).addTasks
    (intervalTasks (yieldingSetting limits program ports every) ++ _) = _
  rw [hnone, addDispatcher]
  have hempty : program.receiveHandlers.isEmpty := by simpa using hreceive
  exact congrArg (addTasks · _) (if_pos hempty)

variable (limits bus writeTime) in
lemma yielding_hosts (hhandlers : program.hasHandlers = false)
    (hwait : Deed.wait ∉ program.deeds) (hports : ports ≠ []) :
    ∃ v, ∀ every, Hosts ports.length v (mainTask (yieldingSetting limits program ports every))
      (yielding limits bus writeTime program ports every) := by
  refine ⟨{ beginRun (ofLimits limits bus writeTime).ready.bench ⟨program, ports, limits⟩ with
    nextTask := ports.length + 1 }, fun every => ?_⟩
  rw [yielding_eq hhandlers hports]
  obtain ⟨others, htasks, hothers, hcore⟩ := addForwarders_core ⟨beginRun (ofLimits
    { limits with yieldEvery := every } bus writeTime).ready.bench
      (yieldingSetting limits program ports every), []⟩ ports
  rw [show nextTask _ = 0 from rfl, Nat.zero_add] at hothers hcore
  have hid : (ports.foldl addForwarder ⟨beginRun (ofLimits { limits with yieldEvery := every } bus
      writeTime).ready.bench (yieldingSetting limits program ports every), []⟩).bench.nextTask
        = ports.length :=
    congrArg nextTask hcore
  refine ⟨?_, rfl, ⟨others, ?_, fun o ho => ⟨(hothers o ho).1, Nat.ne_of_lt (hothers o ho).2⟩⟩,
    mainTask_own hwait, _, .unknown (t := ports.length) ?_, mainTask_told hhandlers _⟩
  · have hadd : ∀ (s : Session) p, (s.addTasks [p]).bench.core
        = { s.bench.core with nextTask := s.bench.core.nextTask + 1 } := fun _ _ => rfl
    rw [hadd, hcore]
    rfl
  · rw [addTasks, htasks]
    exact congrArg (fun id => others ++ [(⟨id, _⟩ : Task)]) hid
  · exact (some_ne_none _).symm

def unfold (t : TaskId) : List HostCall → Session → Option Session
  | [], s => if Idle t s.settle then some s.settle else none
  | c :: calls, s => if Idle t s.settle then unfold t calls (host s.settle c) else none

lemma unfolds_of_unfold (h : unfold t calls s = some s') : Unfolds t calls s s' := by
  induction calls generalizing s with
  | nil =>
    obtain ⟨hidle, heq⟩ := ite_none_right_eq_some.mp h
    obtain rfl := Option.some.inj heq
    exact .rest (settleWithin_moves _ s) hidle
  | cons c calls ih =>
    obtain ⟨hidle, hrest⟩ := ite_none_right_eq_some.mp h
    exact .call (settleWithin_moves _ s) hidle (ih hrest)

/-- In a run of a program without handlers and without waits for frames, let the host pause it,
    resume it and let time pass as it likes, each time when the main sequence cannot go on.  With
    any other number of statements after which tasks let others go first, the same calls can be made
    too, and however the tasks take turns then, the run has printed and reported the same, has the
    same variables, and has sent the same frames at the same times. -/
theorem yielding_invisible {limits : RunConfig} {bus : Bus} {writeTime : Nat} {program : Program}
    {ports : List String} {every : Nat} {calls : List HostCall} {s : Session}
    (hhandlers : program.hasHandlers = false) (hwait : Deed.wait ∉ program.deeds)
    (hports : ports ≠ [])
    (h : Unfolds ports.length calls (yielding limits bus writeTime program ports every) s)
    (every' : Nat) :
    (∃ s', Unfolds ports.length calls (yielding limits bus writeTime program ports every') s') ∧
    ∀ s', Unfolds ports.length calls (yielding limits bus writeTime program ports every') s' →
      s'.bench.log = s.bench.log ∧ s'.bench.globals = s.bench.globals ∧
      s'.bench.bus.sent = s.bench.bus.sent := by
  obtain ⟨v, hhosts⟩ := yielding_hosts limits bus writeTime hhandlers hwait hports
  have halike : Process.Alike false (fun _ _ => True)
      (mainTask (yieldingSetting limits program ports every))
      (mainTask (yieldingSetting limits program ports every')) :=
    Eval.mainTask_alike ⟨rfl, rfl, rfl⟩ hwait
  obtain ⟨n, b, result, halone, hlegacy⟩ :=
    (hhosts every).unfolds (.startProgram program ports .init) h
  obtain ⟨n', result', halone', -⟩ :=
    halike.alone (fun hgoing => absurd hgoing Bool.false_ne_true) halone
  refine ⟨(hhosts every').exists_unfolds halone' rfl, fun s' h' => ?_⟩
  obtain ⟨n'', b'', result'', halone'', hlegacy'⟩ :=
    (hhosts every').unfolds (.startProgram program ports .init) h'
  have hsame : s'.bench.legacy = s.bench.legacy := by
    rw [hlegacy', hlegacy, halone'.unique halone'']
  obtain ⟨hlog, hrest⟩ := Prod.ext_iff.mp hsame
  obtain ⟨hglobals, hsent⟩ := Prod.ext_iff.mp hrest
  exact ⟨hlog, hglobals, hsent⟩

/-- A script that counts, prints and sends. -/
def countingProgram : Program :=
  (Program.ofSource "var x = 0\nrepeat(2) \x7b x = x + 1\nprint(x)\ndelay(5)\nsend(x) \x7d").1

/-- The host pauses the run while it sleeps, and lets it go on much later. -/
def countingCalls : List HostCall :=
  [.pass 3, .pause, .pass 100, .resume, .pass 2, .pass 2, .pass 5, .pass 2]

lemma countingProgram_runs :
    (unfold 1 countingCalls (yielding {} (.ofCapacity 16) 2 countingProgram ["can0"] 32)).map
      (fun s => (s.bench.log.output.toList,
        s.bench.bus.sent.toList.map fun f => (f.id, f.timestamp)))
      = some (["1", "2"], [(1, 107), (2, 114)]) ∧
    countingProgram.hasHandlers = false ∧ Deed.wait ∉ countingProgram.deeds := by
  decide +kernel

theorem yielding_invisible_counting : ∃ s : Session,
    Unfolds 1 countingCalls (yielding {} (.ofCapacity 16) 2 countingProgram ["can0"] 1) s ∧
    s.bench.log.output.toList = ["1", "2"] ∧
    s.bench.bus.sent.toList.map (fun f => (f.id, f.timestamp)) = [(1, 107), (2, 114)] := by
  obtain ⟨hruns, hhandlers, hwait⟩ := countingProgram_runs
  obtain ⟨s, hs, heq⟩ := Option.map_eq_some_iff.mp hruns
  obtain ⟨⟨s', hs'⟩, hsame⟩ := yielding_invisible hhandlers hwait
    (cons_ne_nil "can0" []) (unfolds_of_unfold hs) 1
  obtain ⟨hlog, -, hsent⟩ := hsame s' hs'
  obtain ⟨houtput, hframes⟩ := Prod.ext_iff.mp heq
  rw [← hlog] at houtput
  rw [← hsent] at hframes
  exact ⟨s', hs', houtput, hframes⟩

end Session

end CanScript
