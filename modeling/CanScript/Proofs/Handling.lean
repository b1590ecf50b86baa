import CanScript.Proofs.Delivery
import CanScript.Proofs.Examination
import CanScript.Proofs.Timing

/-! # What becomes of each frame and handler

    A frame that the dispatcher takes while the run goes on is put to the test of every receive
    handler, in order.  The dispatcher has the turn from the first test to the last, so all of them
    find the same variables, and a test leaves nothing behind but an error if it fails.  An
    activation that was started becomes a task of its own, which begins with the fields of its frame
    in a scope and ends alone if an error ends it. -/

namespace CanScript

open List Eval

def activationsOf (f : Frame) (n : Nat) (vs : List Verdict) : List Activation :=
  ((vs.zipIdx n).filter fun v => v.1.passes).map fun v => .receive v.2 f

lemma activationsOf_cons (f n v vs) : activationsOf f n (v :: vs)
      = (if v.passes then [.receive n f] else []) ++ activationsOf f (n + 1) vs := by
  rw [activationsOf, zipIdx_cons, filter_cons]
  split <;> rfl

/-- A frame with the verdicts of the receive handlers; there are none if it was passed over. -/
structure Visit where
  frame : Frame
  verdicts : List Verdict

namespace Visit

def activations (v : Visit) : List Activation :=
  activationsOf v.frame 0 v.verdicts

/-- The errors that were recorded. -/
def errors (v : Visit) : List Diagnostic :=
  v.verdicts.flatMap Verdict.errors

end Visit

def Request.IsMute : Request → Prop
  | .spawn _ | .report _ | .setGlobals _ => False
  | _ => True

namespace History

variable {H : History} {setting : Setting} {lines : List Line} {d : TaskId} {i j m n c : Nat}
  {f : Frame} {l : Local} {limits : RunConfig} {bus : Bus} {writeTime : Nat}

/-! ## What the dispatcher leaves behind -/

variable (H) in
/-- What is left behind between two moments: activations for frames, and errors and no change of a
    variable by the dispatcher. -/
structure Leaves (d : TaskId) (i j : Nat) (acts : List Activation) (errors : List Diagnostic) :
    Prop where
  le : i ≤ j
  started : H.started j = H.started i ++ acts
  reported : H.reported d i j = errors
  untouched : H.Untouched d i j

lemma Leaves.trans {acts acts' errors errors'}
    (h : H.Leaves d i m acts errors) (h' : H.Leaves d m j acts' errors') :
    H.Leaves d i j (acts ++ acts') (errors ++ errors') where
  le := h.le.trans h'.le
  started := by rw [h'.started, h.started, append_assoc]
  reported := by rw [reported_append h.le h'.le, h.reported, h'.reported]
  untouched := h.untouched.trans h'.untouched

section Opened

variable (h : Session.Opened setting lines d (H.session 0))

include h

lemma AsksOnly.leaves {O} (hasks : H.AsksOnly d O i j) (hij : i ≤ j) (hO : ∀ op, O op → op.IsMute) :
    H.Leaves d i j [] [] where
  le := hij
  started := (started_eq hij fun n hin hnj => starts_eq_nil h fun _ _ hmakes =>
    hO _ (hasks n _ hin hnj hmakes)).trans (append_nil _).symm
  reported := hasks.reported fun _ hop => hO _ hop
  untouched := hasks.untouched fun _ hop => hO _ hop

lemma Gets.leaves {a} (hgets : H.Gets d i n (.spawn (.receive a f)) ())
    (hgoing : (H.bench n).isCancelled = false) : H.Leaves d i (n + 1) [.receive a f] [] := by
  have hasks : H.AsksOnly d (· = .spawn (.receive a f)) i (n + 1) := hgets.asksOnly rfl
  refine ⟨hgets.le.step, ?_, hasks.reported, hasks.untouched⟩
  rw [started_succ, starts_of_spawn hgets.makes hgoing,
    started_of_idle h hgets.le hgets.nextMove.idle]

/-! ## One frame -/

variable (H) in
omit h in
/-- A frame was put to the test of some handlers, the first of which has a number. -/
structure Tries (d : TaskId) (s : Setting) (handlers : List ReceiveHandler) (first : Nat)
    (l : Local) (f : Frame) (i j : Nat) (vs : List Verdict) : Prop where
  judged : ∃ m, i ≤ m ∧ m ≤ j ∧ (handlers ≠ [] → (H.bench m).turn = some d) ∧
    List.Forall₂ (fun handler v => Judges s s.call none handler.predicate l f (H.bench m).globals v)
      handlers vs
  leaves : H.Leaves d i j (activationsOf f first vs) (vs.flatMap Verdict.errors)
  asks : H.AsksOnly d (· ≠ .release) i j

/-- Each handler comes to a verdict with the variables as they are when the first one does. -/
lemma Finishes.of_dispatchFrame {handlers r}
    (hcalls : ∀ handler ∈ handlers, ∀ name, .call name ∈ handler.predicate.deeds →
      setting.program.function? name = none)
    (hover : H.Finishes d i ((dispatchFrame setting f n handlers).start l) j r)
    (hgoing : (H.bench j).isCancelled = false) :
    r = (.ok (), l) ∧ ∃ vs, H.Tries d setting handlers n l f i j vs := by
  induction handlers generalizing i n with
  | nil =>
    obtain ⟨rfl, rfl⟩ := Finishes.of_pure hover
    have hnone : H.AsksOnly d (fun _ => False) j j :=
      Idle.asksOnly fun m hjm hmj => absurd hjm hmj.not_ge
    exact ⟨rfl, [], ⟨j, le_rfl, le_rfl, fun hne => absurd rfl hne, .nil⟩,
      hnone.leaves h le_rfl fun _ => False.elim, hnone.mono fun _ => False.elim⟩
  | cons handler rest ih =>
    obtain ⟨hfirst, hrest⟩ := forall_mem_cons.mp hcalls
    rcases Finishes.of_evalBind hover with ⟨_, _, htest, rfl⟩ | ⟨m, _, _, htest, hafter⟩
    · obtain ⟨_, heq, -⟩ := htest.of_frameMatches hfirst hgoing
      cases heq
    obtain ⟨v, heq, htested⟩ := htest.of_frameMatches hfirst (going_before hafter.le hgoing)
    obtain ⟨hpasses, hsame⟩ := Prod.mk.inj heq
    cases hpasses
    rw [hsame] at hafter
    -- the activation is started, if any, and the other handlers are next
    obtain ⟨m', hothers, hspawn, hspawns⟩ : ∃ m',
        H.Finishes d m' ((dispatchFrame setting f (n + 1) rest).start l) j r ∧
        H.Leaves d m m' (if v.passes then [.receive n f] else []) [] ∧
        H.AsksOnly d (· ≠ .release) m m' := by
      cases hv : v.passes with
      | false =>
        rw [hv] at hafter
        have hnone : H.AsksOnly d (fun _ => False) m m :=
          Idle.asksOnly fun k hmk hkm => absurd hmk hkm.not_ge
        exact ⟨m, hafter, hnone.leaves h le_rfl fun _ => False.elim, hnone.mono fun _ => False.elim⟩
      | true =>
        rw [hv] at hafter
        obtain ⟨k, _, hgets, hothers⟩ := Finishes.of_askBind hafter
        exact ⟨k + 1, hothers, hgets.leaves h
          (going_before (Nat.le_of_succ_le hothers.le) hgoing), hgets.asksOnly (by simp)⟩
    obtain ⟨rfl, vs, htries⟩ := ih hrest hothers
    obtain ⟨p, hip, hpm, hholds, hjudges⟩ := htested.judged
    obtain ⟨q, hmq, hqj, -, hall⟩ := htries.judged
    have hasks : H.AsksOnly d (· ≠ .release) i j := by
      refine (htested.asks.mono ?_).trans (hspawns.trans htries.asks)
      rintro op hop rfl
      simp [Request.IsProbe, Request.IsStore, Request.IsQuery] at hop
    have hmute : H.Leaves d i m [] v.errors := by
      refine ⟨htest.le, ?_, htested.reported, htested.untouched⟩
      rw [started_eq htest.le fun k hik hkm => starts_eq_nil h fun a g hmakes => ?_]
      · exact (append_nil _).symm
      · have hprobe := htested.asks k _ hik hkm hmakes
        simp [Request.IsProbe, Request.IsStore, Request.IsQuery] at hprobe
    have hleaves := hmute.trans (hspawn.trans htries.leaves)
    -- the turn is held from the first verdict on, so no variable changes
    have hturn := hholds.turn p le_rfl hpm
    have hheld := (hasks.within hip le_rfl).holds (fun hne => hne rfl)
      (hleaves.untouched.within hip le_rfl) hturn
    rw [hheld.same q (hpm.trans (hspawn.le.trans hmq)) hqj] at hall
    refine ⟨rfl, v :: vs, ⟨p, hip, hpm.trans hafter.le, fun _ => hturn,
      .cons hjudges hall⟩, ?_, hasks⟩
    rw [activationsOf_cons]
    exact hleaves

variable (H) in
omit h in
/-- What the dispatcher finds about a frame between two moments: the run is paused and the frame is
    passed over; or the run goes on, and there is a verdict of each handler, all of them with the
    variables at one moment at which the dispatcher has the turn. -/
inductive Weighs (d : TaskId) (s : Setting) (f : Frame) (i j : Nat) : List Verdict → Prop where
  | paused {n : Nat} : i ≤ n → n < j → H.Makes d n .standing →
      (H.bench n).standing = .paused → Weighs d s f i j []
  | running {n m vs} : i ≤ n → n < m → m ≤ j → H.Makes d n .standing →
      (H.bench n).standing = .running → (H.bench m).turn = some d → List.Forall₂ (fun handler v =>
        Judges s s.call none handler.predicate {} f (H.bench m).globals v)
        s.program.receiveHandlers vs → Weighs d s f i j vs

lemma Finishes.of_considers (hcalls : setting.program.TestsCallNothing)
    (hhandlers : setting.program.receiveHandlers ≠ []) {r}
    (hover : H.Finishes d i ((considers setting f).start {}) j r)
    (hgoing : (H.bench j).isCancelled = false) :
    r = (.ok (.inl ()), {}) ∧ ∃ vs, H.Weighs d setting f i j vs ∧
      H.Leaves d i j (activationsOf f 0 vs) (vs.flatMap Verdict.errors) := by
  obtain ⟨k, standing, hgets, hafter⟩ := Finishes.of_askBind hover
  have hstanding : (H.bench k).standing = standing := (Prod.mk.inj (Option.some.inj hgets.answer)).2
  have hasks : H.AsksOnly d Request.IsMute i (k + 1) := hgets.asksOnly trivial
  have hquiet := hasks.leaves h hgets.le.step fun _ hop => hop
  cases standing with
  | stopped =>
    have hearlier := going_before (Nat.le_of_succ_le hafter.le) hgoing
    exact absurd (hearlier.symm.trans (Bench.standing_eq_stopped_iff.mp hstanding))
      Bool.false_ne_true
  | paused =>
    obtain ⟨rfl, rfl⟩ := Finishes.of_pure hafter
    exact ⟨rfl, [], .paused hgets.le (Nat.lt_succ_self k) hgets.makes hstanding, hquiet⟩
  | running =>
    rcases Finishes.of_evalBind hafter with ⟨_, _, htests, rfl⟩ | ⟨m, _, _, htests, hend⟩
    · cases (htests.of_dispatchFrame h hcalls hgoing).1
    obtain ⟨heq, vs, htries⟩ := htests.of_dispatchFrame h hcalls (going_before hend.le hgoing)
    obtain ⟨-, rfl⟩ := Prod.mk.inj heq
    obtain ⟨m', _, hreleases, hlast⟩ := Finishes.of_askBind hend
    obtain ⟨rfl, rfl⟩ := Finishes.of_pure hlast
    have hrelease : H.AsksOnly d Request.IsMute m (m' + 1) := hreleases.asksOnly trivial
    obtain ⟨p, hkp, hpm, hturn, hjudged⟩ := htries.judged
    refine ⟨rfl, vs, .running hgets.le hkp (hpm.trans hend.le) hgets.makes hstanding
      (hturn hhandlers) hjudged, ?_⟩
    have hleaves := hquiet.trans (htries.leaves.trans (hrelease.leaves h hend.le fun _ hop => hop))
    rwa [append_nil, append_nil] at hleaves

/-! ## All frames -/

variable (H) in
omit h in
/-- The dispatcher is done with some frames, the first ones of the hub, and has left behind what
    comes of them. -/
structure Dispatched (d : TaskId) (s : Setting) (j : Nat) (visits : List Visit) : Prop where
  leaves : H.Leaves d 0 j (visits.flatMap Visit.activations) (visits.flatMap Visit.errors)
  weighed : ∀ visit k, (visit, k) ∈ visits.zipIdx → ∃ c e, c < e ∧ e ≤ j ∧
    H.Takes d c k visit.frame ∧ H.Weighs d s visit.frame (c + 1) e visit.verdicts

lemma Dispatched.later {visits} (hd : H.Dispatched d setting i visits)
    (hasks : H.AsksOnly d Request.IsMute i j) (hij : i ≤ j) : H.Dispatched d setting j visits := by
  refine ⟨?_, fun visit k hk => ?_⟩
  · have hleaves := hd.leaves.trans (hasks.leaves h hij fun _ hop => hop)
    rwa [append_nil, append_nil] at hleaves
  · obtain ⟨c, e, hce, hei, hvisit⟩ := hd.weighed visit k hk
    exact ⟨c, e, hce, hei.trans hij, hvisit⟩

/-- Each round of the dispatcher adds what comes of its frame, and leaves the own state of the
    dispatcher as it was. -/
lemma Rounds.dispatched (hcalls : setting.program.TestsCallNothing)
    (hhandlers : setting.program.receiveHandlers ≠ []) {k}
    (hrounds : H.Rounds setting d j l k) (hgoing : (H.bench j).isCancelled = false) :
    l = {} ∧ ∃ visits, visits.length = k ∧ H.Dispatched d setting j visits := by
  -- a single request that leaves nothing behind
  have hmute : ∀ {n : Nat}, (∀ op, H.Makes d n op → op = .receive (.hub 0)) →
      H.AsksOnly d Request.IsMute n (n + 1) := by
    intro n hn m op hnm hmn hmakes
    cases (Nat.le_of_lt_succ hmn).antisymm hnm
    rw [hn op hmakes]
    trivial
  induction hrounds with
  | start =>
    exact ⟨rfl, [], rfl, ⟨le_rfl, rfl, rfl, fun n _ hn => absurd hn (Nat.not_lt_zero n)⟩, by simp⟩
  | @wait j _ _ _ hasks _ ih =>
    obtain ⟨hl, visits, hk, hd⟩ := ih (going_before (Nat.le_succ j) hgoing)
    exact ⟨hl, visits, hk, hd.later h (hmute hasks) (Nat.le_succ j)⟩
  | @visit c j _ f _ _ _ htakes hbegun halong ih =>
    obtain ⟨m, hmj, hover, hidle⟩ := halong.finishes ⟨_, hbegun⟩
    have hcm : c < m := hover.le
    obtain ⟨rfl, visits, rfl, hd⟩ :=
      ih (going_before (hcm.le.trans hmj) hgoing)
    obtain ⟨heq, vs, hweighs, hleaves⟩ :=
      hover.of_considers h hcalls hhandlers (going_before hmj hgoing)
    refine ⟨(Prod.mk.inj heq).2, visits ++ [⟨f, vs⟩], length_append, ?_⟩
    refine Dispatched.later h ⟨?_, fun visit k hk => ?_⟩ hidle.asksOnly hmj
    · have htook := (hmute fun op hop => hop.unique htakes.asks).leaves h (Nat.le_succ c)
        fun _ hop => hop
      rw [flatMap_append, flatMap_append, flatMap_singleton, flatMap_singleton]
      exact hd.leaves.trans (htook.trans hleaves)
    · rw [zipIdx_append, mem_append] at hk
      rcases hk with hold | hnew
      · obtain ⟨c', e, hce, hec, hvisit⟩ := hd.weighed visit k hold
        exact ⟨c', e, hce, hec.trans hcm.le, hvisit⟩
      · obtain ⟨rfl, rfl⟩ := Prod.mk.inj (mem_singleton.mp hnew)
        rw [Nat.zero_add]
        exact ⟨c, m, hcm, le_rfl, htakes, hweighs⟩

end Opened

/-- An activation that was started waits with the others until all of them become tasks. -/
lemma spawned_step (hset : (H.bench 0).setting? = some setting) (n) :
    (H.bench (n + 1)).spawned = (H.bench n).spawned ++ H.spawns n ∨
    H.session (n + 1) = Session.addTasks ⟨{ H.bench n with spawned := [] }, (H.session n).tasks⟩
      ((H.bench n).spawned.map (activationTask setting)) := by
  have hgrows : (∃ more, (H.bench (n + 1)).spawned = (H.bench n).spawned ++ more) →
      (H.bench (n + 1)).spawned = (H.bench n).spawned ++ H.spawns n := by
    rintro ⟨more, hmore⟩
    rw [spawns, hmore, drop_left]
  cases hmover : H.mover n with
  | some t =>
    obtain ⟨op, hchange⟩ := changed hmover
    refine .inl (hgrows ?_)
    rcases hchange.spawned with hsame | ⟨a, -, -, hadded⟩
    · exact ⟨[], hsame.trans (append_nil _).symm⟩
    · exact ⟨[a], hadded⟩
  | none =>
    have hstep := step_of hmover
    generalize hafter : H.session (n + 1) = after at hstep
    cases hstep with
    | spawn =>
      refine .inr ?_
      rw [Session.startTasks_addTasks, Session.activations,
        show (H.session n).bench.setting? = _ from (H.setting?_at n).trans hset]
      rfl
    | external hexternal =>
      refine .inl (hgrows ⟨[], ?_⟩)
      rw [bench, hafter, append_nil]
      exact hexternal.apart.spawned

lemma has_of_addTasks {s : Session} {acts : List Activation} {t k}
    {a} (h : H.session n = s.addTasks (acts.map (activationTask setting)))
    (ha : acts[k]? = some a) (ht : s.bench.nextTask + k = t) :
    H.Has t n (activationTask setting a) := by
  subst ht
  show _ ∈ (H.session n).tasks
  rw [h]
  refine mem_append_right _ (mem_map.mpr ⟨(activationTask setting a, k), ?_, rfl⟩)
  rw [mk_mem_zipIdx_iff_getElem?, getElem?_map, ha, Option.map_some]

/-! ## What a task leaves alone -/

end History

lemma Bench.Change.run_eq {t b b' op} (h : Change t b op b')
    (hop : op ≠ .finish) : b'.run = b.run ∧ b'.state = b.state := by
  cases h with
  | finish => exact absurd rfl hop
  | _ => exact ⟨rfl, rfl⟩

namespace History

variable {H : History} {t : TaskId} {i j : Nat}

variable (H) in
/-- The moves of a task from one moment up to another leave all other tasks and the run as they are.
    -/
structure Spares (t : TaskId) (i j : Nat) : Prop where
  tasks : ∀ n, i ≤ n → n < j → H.mover n = some t → ∀ u p, u ≠ t → (H.Has u (n + 1) p ↔ H.Has u n p)
  run : ∀ n, i ≤ n → n < j → H.mover n = some t →
    (H.bench (n + 1)).run = (H.bench n).run ∧ (H.bench (n + 1)).state = (H.bench n).state

lemma AsksOnly.spares {O} (h : H.AsksOnly t O i j) (hO : ¬ O .finish) : H.Spares t i j := by
  constructor
  · intro n _ _ hmover u p hne
    obtain ⟨_, -, -, -, hothers, hback⟩ := (step_of hmover).of_some (H.orderly_at n)
    refine ⟨fun hp => ?_, fun hp => hothers _ hp hne⟩
    rcases hback _ hp with ⟨hold, -⟩ | ⟨-, hsame⟩
    · exact hold
    · exact absurd (congrArg Task.id hsame) hne
  · intro n hin hnj hmover
    rcases requested hmover with hsame | ⟨op, hmakes, hchange⟩
    · exact ⟨congrArg Bench.run hsame, congrArg Bench.state hsame⟩
    · refine hchange.run_eq ?_
      rintro rfl
      exact hO (h n _ hin hnj hmakes)

end History

/-! ## How an activation begins and ends -/

def recordFailure : Except Diagnostic Unit → Eval Unit
  | .ok _ => pure ()
  | .error d => ask (.report d)

def concluded (s : Setting) (a : Activation) : Eval Unit := do
  let result ← attempt (activation s a)
  release
  recordFailure result

lemma activationTask_eq (s a) : activationTask s a = Eval.toProcess (concluded s a) := by
  refine congrArg Eval.toProcess (congrArg _ (funext fun result => congrArg _ (funext fun _ => ?_)))
  cases result <;> rfl

lemma bindFrame_stores (scope f) : Always (Process.Only Request.IsStore) (bindFrame scope f) :=
  Process.Only.sequential.evalBindFrame fun field _ => Process.Only.sequential.evalDefine
    (Process.Only.act trivial) (fun _ => Process.Only.act trivial) scope field.1 field.2

namespace History

section Activation

variable {H : History} {limits : RunConfig} {bus : Bus} {writeTime : Nat} {s : Setting}
  {a : Activation} {t : TaskId} {i j k : Nat}

lemma Has.concluded (h : H.Has t i (activationTask s a)) :
    H.Begins t i ((concluded s a).start {}) := by
  rw [activationTask_eq] at h
  exact ⟨_, h⟩

lemma Has.activation (h : H.Has t i (activationTask s a)) :
    H.Begins t i ((activation s a).start {}) := by
  have hattempt : H.Begins t i ((attempt (CanScript.activation s a)).start {}) :=
    h.concluded.of_bind
  rw [attempt_start] at hattempt
  exact hattempt.of_bind

variable (H) in
/-- The task of an activation for a frame can go on and has not come to the body of its handler yet,
    or it has begun with the body with the turn, with the fields of the frame in its only scope, and
    with nothing recorded or changed. -/
def Opens (t : TaskId) (s : Setting) (number : Nat) (f : Frame) (i j : Nat) : Prop :=
  ((H.session j).isWaiting = false ∧
    H.AsksOnly t (fun op => op = .acquire ∨ op.IsStore) i j) ∨
  ∃ n, i ≤ n ∧ n ≤ j ∧ H.Begins t n ((execStmts s s.call (some 0)
      (s.body (.receive number f))).start (Local.facing {} none f)) ∧
    (H.bench n).turn = some t ∧ H.reported t i n = [] ∧ H.Untouched t i n

variable (H) in
/-- The execution of an activation was over at a moment with an error.  The task can go on and has
    recorded nothing yet, or it has recorded the error, once, and ended.  Its moves spare all other
    tasks and the run. -/
def Fails (t : TaskId) (s : Setting) (a : Activation) (d : Diagnostic) (i k j : Nat) : Prop :=
  ((H.session j).isWaiting = false ∧ H.reported t k j = [] ∧ H.Spares t k j) ∨
  ∃ n, k ≤ n ∧ n ≤ j ∧ H.Finishes t i (activationTask s a) n () ∧ H.reported t k n = [d] ∧
    H.Spares t k n

variable (hreach : Session.Reachable limits bus writeTime (H.session 0))
  (hgoing : (H.bench j).isCancelled = false)

include hreach hgoing

/-- The task of an activation for a frame gets the turn and binds the fields of the frame. -/
lemma Opens.of_has {number f} (h : H.Has t i (activationTask s (.receive number f))) (hij : i ≤ j) :
    H.Opens t s number f i j := by
  have hbegins := h.activation
  have hacquires : H.Begins t i (acquire.start {}) := hbegins.of_bind
  rcases hacquires.course_or_finishes hij with ⟨e, hgoes, hcourse⟩ | ⟨m, r, hmj, hover⟩
  · exact .inl ⟨isWaiting_of_prompt hreach (acquire_prompt {}) hgoing hcourse hgoes,
      (hcourse.asksOnly (acquire_only {})).mono fun _ hop => .inl hop⟩
  · obtain ⟨rfl, hturn, hasks⟩ := hover.of_acquire (going_before hmj hgoing)
    -- the scope is the first one of the task
    have hbody := (hover.second hbegins).of_bind
    have hfields : H.Begins t m ((bindFrame (some 0) f).start
        { scopes := Scopes.empty.openScope none }) := hbody.of_bind
    rcases hfields.course_or_finishes hmj with ⟨e, hgoes, hcourse⟩ | ⟨n, r, hnj, hbound⟩
    · exact .inl ⟨isWaiting_of_prompt hreach (bindFrame_prompt _ f _) hgoing hcourse hgoes,
        (hasks.mono fun _ hop => .inl hop).trans
          ((hcourse.asksOnly (bindFrame_stores _ f _)).mono fun _ hop => .inr hop)⟩
    · obtain ⟨rfl, hturn', -, hlocal, hasks'⟩ := hbound.of_bindAll hturn
      have hscopes : (Scopes.defineAll (some 0) (frameFields f) (Scopes.empty.openScope none)
          (H.bench m).globals).1 = (Local.facing {} none f).scopes :=
        congrArg Prod.fst (defineAll_facing {} none f _)
      have hstmts : H.Begins t n ((execStmts s s.call (some 0) (s.body (.receive number f))).start
          { scopes := (Scopes.defineAll (some 0) (frameFields f) (Scopes.empty.openScope none)
            (H.bench m).globals).1 }) := (hbound.second hbody).of_bind
      rw [hscopes] at hstmts
      refine .inr ⟨n, hover.le.trans hbound.le, hnj, hstmts, hturn', ?_,
        hasks.untouched.trans (hlocal rfl).untouched⟩
      rw [reported_append hover.le hbound.le, hasks.reported,
        hasks'.reported (by simp [Request.IsStore])]
      rfl

/-- An activation that fails records its error and ends. -/
lemma Fails.of_finishes {d l} (h : H.Has t i (activationTask s a))
    (hover : H.Finishes t i ((activation s a).start {}) k (.error (.error d), l)) (hkj : k ≤ j) :
    H.Fails t s a d i k j := by
  have hbegins := h.concluded
  have hattempt : H.Finishes t i ((attempt (activation s a)).start {}) k (.ok (.error d), l) := by
    have hfirst : H.Begins t i ((attempt (activation s a)).start {}) := hbegins.of_bind
    rw [attempt_start] at hfirst ⊢
    exact hover.bind (.pure (hover.begins hfirst)) hfirst
  have hrest : H.Begins t k ((release >>= fun _ => ask (.report d)).start l) :=
    hattempt.second hbegins
  have hprompt : Process.Only Request.Prompt ((release >>= fun _ => ask (.report d)).start l) :=
    prompt_sequential.evalBind prompt_ask (fun _ => prompt_ask) l
  rcases hrest.course_or_finishes hkj with ⟨e, hgoes, hcourse⟩ | ⟨n, r, hnj, hlast⟩
  · have hreleases : H.AsksOnly t (· = .release) k j := by
      rcases Course.of_askBind hcourse with ⟨-, hpending⟩ | ⟨m, _, hgets, hreport⟩
      · exact hpending.asksOnly rfl
      · have hreleased : H.AsksOnly t (· = .release) k (m + 1) := hgets.asksOnly rfl
        rcases Course.of_act hreport with ⟨-, hpending⟩ | ⟨m', _, -, -, hdone⟩
        · exact hreleased.trans hpending.idle.asksOnly
        · rw [(Course.of_pure hdone).1] at hgoes
          cases hgoes
    exact .inl ⟨isWaiting_of_prompt hreach hprompt hgoing hcourse hgoes,
      hreleases.reported, hreleases.spares (by simp)⟩
  · obtain ⟨m, _, hgets, hreport⟩ := Finishes.of_askBind hlast
    obtain ⟨m', _, rfl, rfl, hreports⟩ := hreport.of_ask
    have hreleases : H.AsksOnly t (· = .release) k (m + 1) := hgets.asksOnly rfl
    have hasks : H.AsksOnly t (fun op => op = .release ∨ op = .report d) k (m' + 1) :=
      (hreleases.mono fun _ hop => .inl hop).trans (hreports.asksOnly (.inr rfl))
    refine .inr ⟨m' + 1, hlast.le, hnj, ?_, ?_, hasks.spares (by simp)⟩
    · rw [activationTask_eq] at h ⊢
      rw [← Process.bind_pure (Eval.toProcess _)] at h
      have htask : H.Begins t i (Eval.toProcess (concluded s a)) := ⟨_, h⟩
      have hend : H.Finishes t i ((concluded s a).start {}) (m' + 1) (.ok (), l) :=
        hattempt.bind hlast hbegins
      exact hend.bind (.pure (hend.begins htask)) htask
    · rw [reported_append hgets.le.step hreport.le, hreleases.reported, hreports.reported]
      rfl

end Activation

/-! ## The whole run -/

variable {H : History}

lemma Dispatched.frames {d s j visits}
    (hd : H.Dispatched d s j visits) (hsize : (H.bench j).hub.history.size ≤ visits.length) :
    visits.map Visit.frame = (H.bench j).hub.history.toList := by
  refine ext_getElem? fun k => ?_
  rw [getElem?_map]
  cases hk : visits[k]? with
  | none =>
    have hpast := hsize.trans (List.getElem?_eq_none_iff.mp hk)
    exact (Array.getElem?_toList.trans (Array.getElem?_eq_none hpast)).symm
  | some visit =>
    obtain ⟨c, e, hce, hej, htakes, -⟩ :=
      hd.weighed visit k (mk_mem_zipIdx_iff_getElem?.mpr hk)
    have hframe := frame_later htakes.frame (hce.le.trans hej)
    exact (Array.getElem?_toList.trans hframe).symm

end History

/-! ## A test and an activation that fail -/

def shareOfNumber : Expr :=
  .binary ⟨1, 14⟩ .div (.literal ⟨1, 12⟩ (.int 8))
    (.binary ⟨1, 20⟩ .sub (.name ⟨1, 17⟩ "id") (.literal ⟨1, 22⟩ (.int 1)))

def sharingProgram : Program where
  receiveHandlers := [⟨⟨1, 1⟩, shareOfNumber, []⟩,
    ⟨⟨2, 1⟩, .literal ⟨2, 12⟩ (.bool true), [.eval ⟨2, 20⟩ shareOfNumber]⟩]

def sharingSetting : Setting :=
  ⟨sharingProgram, ["can0"], {}⟩

/-- The frames with the numbers one and two arrive, the dispatcher takes both of them, and all
    activations come to their end. -/
def sharingHistory : History :=
  .ofRun sharingSetting <|
    movesOf 0 1 ++ movesOf 2 2 ++ [.inject ⟨1, [], false, "can0", 0⟩,
      .inject ⟨2, [], false, "can0", 0⟩] ++ movesOf 0 6 ++ movesOf 1 67 ++
    [.spawn] ++ movesOf 3 19 ++ movesOf 4 15 ++ movesOf 5 18

/-- The error that a missing quotient is. -/
def missingQuotient : Diagnostic :=
  ⟨.runtime, .divisionByZero, ⟨1, 14⟩, "Division by zero"⟩

end CanScript
