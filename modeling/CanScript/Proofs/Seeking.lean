import CanScript.Proofs.Examination
import CanScript.Proofs.Ownership
import CanScript.Proofs.Waits

/-! # The rounds of a wait

    A wait for a frame puts the frames that enter the hub to the test, one after another and in
    their order, and goes on from one to the next as long as none passes.  If its predicate calls no
    function of the script a test takes no time, so what ends a round is a frame, a pause or the
    deadline. -/

namespace CanScript

open List Eval

/-! ## Waits -/

/-- A wait for a frame: where it stands in a script, the own state of the task when it begins, and
    its time. -/
structure Wait where
  setting : Setting
  call : Caller
  scope : Option ScopeId
  predicate : Expr
  own : Local
  millis : Nat

namespace Wait

variable (w : Wait)

/-- All of it. -/
def part : Process (Except Interrupt Bool × Local) :=
  (waitForFrame w.setting w.call w.scope w.predicate w.millis).start w.own

def round (r : ReaderId) : Nat → Eval (Nat ⊕ Bool) :=
  waitRound w.setting w.call w.scope w.predicate r

/-- Its predicate calls no function of the script. -/
def CallsNothing : Prop :=
  ∀ name, .call name ∈ w.predicate.deeds → w.setting.program.function? name = none

def timeout (pos : Pos) : Diagnostic :=
  (Fault.waitTimedOut w.millis).toDiagnostic pos

def otherwise (pos : Pos) (fallback : Option (List Stmt)) : Eval Flow := do
  acquire
  if fallback.isNone then ask (.report (w.timeout pos))
  execOptional w.setting w.call w.scope fallback

/-- The block of a fallback, in a scope of its own. -/
def block (body : List Stmt) : Eval Flow :=
  inScope w.scope fun inner => execStmts w.setting w.call (some inner) body

/-- The time of a wait, which is evaluated first. -/
def limit (time : Expr) : Eval Nat := do
  let v ← evalExpr w.setting w.call w.scope time
  ofResult time.pos v.asMillis

/-- The statement that a wait belongs to. -/
def stmt (pos : Pos) (time : Expr) (fallback : Option (List Stmt)) : Eval Flow :=
  execStmt w.setting w.call w.scope (.waitFor pos w.predicate time fallback)

lemma stmt_eq (pos time fallback) : w.stmt pos time fallback = (do
      let millis ← w.limit time
      waitOrElse w.setting w.call w.scope w.predicate pos fallback millis) := by
  rw [stmt, execStmt_waitFor, limit, bind_assoc]

end Wait

lemma Verdict.errors_of_passes {v : Verdict} (h : v.passes) : v.errors = [] := by
  cases v with
  | ok _ => rfl
  | error _ => cases h

def Request.IsLull : Request → Prop
  | .clock | .awaitRunning | .release => True
  | _ => False

lemma Request.IsLull.hubReader? {op : Request} (h : op.IsLull) : op.hubReader? = none := by
  cases op with
  | clock | awaitRunning | release => rfl
  | _ => exact h.elim

lemma Request.IsProbe.hubReader? {op : Request} (h : op.IsProbe) : op.hubReader? = none := by
  cases op with
  | receive source | nextFrame r deadline | unlisten r => exact (h.elim id id).elim
  | _ => rfl

lemma standBy_lull : Always (Process.Only Request.IsLull) standBy := by
  have hseq : Process.Sequential (Process.Only Request.IsLull) := Process.Only.sequential
  exact hseq.evalBind (hseq.evalAsk (Process.Only.act trivial)) fun _ =>
    hseq.evalBind (hseq.evalAsk (Process.Only.act trivial)) fun going =>
      hseq.evalBind (hseq.orStopped going) fun _ =>
        hseq.evalBind (hseq.evalAsk (Process.Only.act trivial)) fun _ => hseq.evalPure _

def beginWait : Eval (ReaderId × Nat) := do
  let r ← ask .listen
  let now ← clock
  release
  return (r, now)

lemma waitForFrame_eq (s call scope predicate millis) :
    waitForFrame s call scope predicate millis = (do
      let begun ← beginWait
      let found ← loop (waitRound s call scope predicate begun.1) (begun.2 + millis)
      ask (.unlisten begun.1)
      return found) := by
  rw [waitForFrame, beginWait]
  simp only [bind_assoc, pure_bind]

lemma beginWait_prompt : Always (Process.Only Request.Prompt) beginWait :=
  prompt_sequential.evalBind prompt_ask fun _ =>
    prompt_sequential.evalBind prompt_ask fun _ =>
      prompt_sequential.evalBind prompt_ask fun _ =>
        prompt_sequential.evalPure _

lemma sift_prompt {s call scope predicate}
    (hcalls : ∀ name, .call name ∈ predicate.deeds → s.program.function? name = none)
    (deadline arrival) :
    Always (Process.Only Request.Prompt) (sift s call scope predicate deadline arrival) := by
  cases arrival with
  | stopped => exact prompt_sequential.evalThrow _
  | expired | paused | lagged _ => exact prompt_sequential.evalPure _
  | frame f =>
    refine prompt_sequential.evalBind (frameMatches_prompt hcalls) fun passes => ?_
    cases passes with
    | true =>
      exact prompt_sequential.evalBind (bindFrame_prompt scope f) fun _ =>
        prompt_sequential.evalPure _
    | false =>
      exact prompt_sequential.evalBind prompt_ask fun _ =>
        prompt_sequential.evalPure _

namespace History

variable {H : History} {setting : Setting} {lines : List Line} {d t : TaskId} {i j m n : Nat}
  {w : Wait} {r : ReaderId} {f : Frame} {v : Verdict} {tests : List (Frame × Verdict)}
  {deadline : Nat} {limits : RunConfig} {bus : Bus} {writeTime : Nat}

variable (H) in
/-- A task that waits for a frame learns that it has missed some. -/
def Misses (t : TaskId) (n : Nat) : Prop :=
  ∃ r deadline b missed, H.Makes t n (.nextFrame r deadline) ∧
    ((H.bench n).perform t (.nextFrame r deadline)).answer? = some (b, .lagged missed)

lemma not_misses_of_oldest (h : (H.bench n).hub.oldest = 0) : ¬ H.Misses t n := by
  rintro ⟨r, deadline, b, missed, -, hanswer⟩
  cases Bench.nextFrame_delivers hanswer with
  | lagged hreceived => exact Channel.receive?_ne_lagged h missed hreceived

variable (H) in
/-- What a wait that began at one moment has put to the test at another: the first of the frames
    that have entered the hub, in their order.  The task has recorded the errors of these tests and
    no others, and has changed no variable. -/
structure Examined (t : TaskId) (w : Wait) (i j : Nat) (tests : List (Frame × Verdict)) : Prop where
  frames : tests.map Prod.fst <+: H.entered i j
  tested : ∀ test ∈ tests, ∃ m n, i ≤ m ∧ n ≤ j ∧
    H.Tested t w.setting w.call w.scope w.predicate w.own test.1 m n test.2
  reported : H.reported t i j = tests.flatMap fun test => test.2.errors
  untouched : H.Untouched t i j

namespace Examined

lemma later (h : H.Examined t w i m tests) (him : i ≤ m) (hmj : m ≤ j)
    (hquiet : H.reported t m j = []) (huntouched : H.Untouched t m j) :
    H.Examined t w i j tests where
  frames := h.frames.trans (entered_mono him hmj)
  tested test htest := by
    obtain ⟨m', n, him', hnm, htested⟩ := h.tested test htest
    exact ⟨m', n, him', hnm.trans hmj, htested⟩
  reported := by rw [reported_append him hmj, h.reported, hquiet, append_nil]
  untouched := h.untouched.trans huntouched

lemma add (h : H.Examined t w i m tests) (him : i ≤ m) (hmj : m ≤ j)
    (hframe : tests.map Prod.fst ++ [f] <+: H.entered i m)
    (htested : H.Tested t w.setting w.call w.scope w.predicate w.own f m j v) :
    H.Examined t w i j (tests ++ [(f, v)]) where
  frames := by
    rw [map_append]
    exact hframe.trans (entered_mono him hmj)
  tested test htest := by
    rcases mem_append.mp htest with hbefore | hnow
    · obtain ⟨m', n, him', hnm, htested'⟩ := h.tested test hbefore
      exact ⟨m', n, him', hnm.trans hmj, htested'⟩
    · rw [mem_singleton.mp hnow]
      exact ⟨m, j, him, le_rfl, htested⟩
  reported := by
    rw [reported_append him hmj, h.reported, htested.reported, flatMap_append, flatMap_singleton]
  untouched := h.untouched.trans htested.untouched

end Examined

/-- A reader gets the next of the frames that have entered the hub since some moment. -/
lemma Gets.of_frame (h : H.Gets t m n (.nextFrame r deadline) (.frame f)) {fs}
    (hplace : (H.bench n).hub.place? r = some ((H.bench i).hub.history.size + fs.length))
    (hfs : fs <+: H.entered i n) :
      (H.bench (n + 1)).hub.place? r = some ((H.bench i).hub.history.size + fs.length + 1) ∧
      fs ++ [f] <+: H.entered i (n + 1) := by
  obtain ⟨hub, hreceived, hbench⟩ := (Bench.nextFrame_delivers h.answer).of_frame
  obtain ⟨place, hplace', hhistory, -, ⟨_, _, heq, -⟩ | ⟨_, heq, hframe, hmoved⟩⟩ :=
    Channel.receive?_place hreceived
  · cases heq
  · cases heq
    obtain rfl := Option.some.inj (hplace'.symm.trans hplace)
    rw [hbench]
    refine ⟨hmoved, ?_⟩
    obtain ⟨rest, hrest⟩ := hfs
    have hsame : H.entered i (n + 1) = fs ++ rest := by
      rw [hrest, entered, entered, hbench]
      exact congrArg (fun history : Array Frame => history.toList.drop _) hhistory
    have hnext : (fs ++ rest)[fs.length]? = some f := by
      rw [hrest, entered, getElem?_drop, Array.getElem?_toList]
      exact hframe
    rw [getElem?_append_right le_rfl, Nat.sub_self] at hnext
    cases rest with
    | nil => cases hnext
    | cons g rest =>
      cases hnext
      exact ⟨rest, by rw [hsame, append_assoc]; rfl⟩

/-! ## What the rounds of a wait keep -/

variable (H) in
/-- What holds before each round of a wait that began at some moment: the deadline is the time of
    the wait and the paused time away, and does not lie behind, and all frames up to the place of
    its reader were put to the test in vain. -/
structure Seeking (t : TaskId) (w : Wait) (i m deadline : Nat) (tests : List (Frame × Verdict)) :
    Prop where
  begun : H.Makes t i .listen
  since : i < m
  due : deadline = (H.bench i).now + w.millis + H.pausedTime i m
  early : H.runningTime i m ≤ w.millis
  place : (H.bench m).hub.place? (H.bench i).hub.nextReader
    = some ((H.bench i).hub.history.size + tests.length)
  examined : H.Examined t w i m tests
  failed : ∀ test ∈ tests, test.2.passes = false

namespace Seeking

lemma later (h : H.Seeking t w i m deadline tests) (hmj : m ≤ j)
    (hplace : (H.bench j).hub.place? (H.bench i).hub.nextReader
      = (H.bench m).hub.place? (H.bench i).hub.nextReader)
    (hquiet : H.reported t m j = []) (huntouched : H.Untouched t m j)
    (hearly : H.runningTime i j ≤ w.millis) :
    H.Seeking t w i j (deadline + H.pausedTime m j) tests where
  begun := h.begun
  since := h.since.trans_le hmj
  due := by
    have hpaused : H.pausedTime i m + H.pausedTime m j = H.pausedTime i j :=
      timeWhere_trans h.since.le hmj
    rw [h.due, Nat.add_assoc, hpaused]
  early := hearly
  place := hplace.trans h.place
  examined := h.examined.later h.since.le hmj hquiet huntouched
  failed := h.failed

lemma now_add (h : H.Seeking t w i m deadline tests) (hgoing : (H.bench m).isCancelled = false) :
    (H.bench m).now + w.millis = deadline + H.runningTime i m := by
  have hnow := now_eq h.since.le hgoing
  have hdue := h.due
  omega

section Opened

variable (hopened : Session.Opened setting lines d (H.session 0))

include hopened

lemma lull (h : H.Seeking t w i m deadline tests) (hmj : m ≤ j)
    (hasks : H.AsksOnly t Request.IsLull m j) (hrunning : H.runningTime m j = 0) :
    H.Seeking t w i j (deadline + H.pausedTime m j) tests := by
  refine h.later hmj (hasks.place hopened h.begun h.since hmj fun _ hop => hop.hubReader?)
    (hasks.reported fun _ hop => hop) (hasks.untouched fun _ hop => hop) ?_
  rw [← runningTime_trans h.since.le hmj, hrunning]
  exact h.early

variable (hH : H.Timed)

include hH

lemma pending (h : H.Seeking t w i m deadline tests) (hmj : m ≤ j)
    (hpending : H.Pending t m j (.nextFrame r deadline))
    (hgoing : (H.bench j).isCancelled = false) : H.Seeking t w i j deadline tests := by
  have hpaused := hpending.pausedTime_of_nextFrame hH
  have hnow := h.now_add (going_before hmj hgoing)
  have hearly := h.early
  have hnow' := hH.now_le_of_pending hmj hpending (by omega)
  have hasks : H.AsksOnly t (· = .nextFrame r deadline) m j := hpending.asksOnly rfl
  have hlater := now_eq (h.since.le.trans hmj) hgoing
  have hdue := h.due
  have hsame : H.pausedTime i m + H.pausedTime m j = H.pausedTime i j :=
    timeWhere_trans h.since.le hmj
  have hthen := h.later hmj (hpending.place hopened h.begun h.since hmj)
    hasks.reported hasks.untouched (by omega)
  rwa [hpaused] at hthen

end Opened

end Seeking

/-! ## How a round ends -/

variable (H)

/-- A wait that began at one moment has taken a frame at another, at the end of its time at the
    latest: all frames before it were put to the test in vain, and it has passed.  The task has the
    turn, and its fields are bound in the scope of the wait with no other change. -/
structure TakesFirst (t : TaskId) (w : Wait) (i j : Nat) (l : Local)
    (tests : List (Frame × Verdict)) (f : Frame) (v : Verdict) : Prop where
  failed : ∀ test ∈ tests, test.2.passes = false
  passes : v.passes = true
  early : H.runningTime i j ≤ w.millis
  turn : (H.bench j).turn = some t
  binds : ∃ m, i ≤ m ∧ m ≤ j ∧ H.Examined t w i m (tests ++ [(f, v)]) ∧
    Scopes.Binds w.scope (frameFields f) (w.own.scopes, (H.bench m).globals)
      (l.scopes, (H.bench j).globals)
  rest : l = { w.own with scopes := l.scopes }
  reported : H.reported t i j = tests.flatMap fun test => test.2.errors

/-- A wait that began at one moment has come to the end of its time at another, and all frames that
    it has put to the test up to then have failed. -/
structure RunsOut (t : TaskId) (w : Wait) (i j : Nat) (tests : List (Frame × Verdict)) : Prop where
  failed : ∀ test ∈ tests, test.2.passes = false
  time : H.runningTime i j = w.millis
  examined : H.Examined t w i j tests

/-- How a round of a wait ends. -/
inductive RoundEnds (t : TaskId) (w : Wait) (i j : Nat) :
    Except Interrupt (Nat ⊕ Bool) × Local → Prop where
  | again {deadline : Nat} {tests : List (Frame × Verdict)} :
      H.Seeking t w i j deadline tests → RoundEnds t w i j (.ok (.inl deadline), w.own)
  | found {l tests f v} : H.TakesFirst t w i j l tests f v → RoundEnds t w i j (.ok (.inr true), l)
  | runOut {tests : List (Frame × Verdict)} :
      H.RunsOut t w i j tests → RoundEnds t w i j (.ok (.inr false), w.own)

variable {H}

section Rounds

variable (hopened : Session.Opened setting lines d (H.session 0)) (hH : H.Timed)

include hopened hH

lemma Seeking.enter (h : H.Seeking t w i m deadline tests)
    (henters : H.Enters t (w.round r) m n deadline w.own) :
    H.Seeking t w i (n + 1) deadline tests := by
  have hmn := henters.next.le.step
  have hstill := hH.still_of_enters henters
  have hthen := h.lull hopened hmn henters.asksOnly hstill.timeWhere
  rwa [pausedTime, hstill.timeWhere] at hthen

omit hH in
lemma Seeking.standBy {e} (h : H.Seeking t w i m deadline tests)
    (hstandBy : H.Course t m (standBy.start w.own) j e) (hrunning : H.runningTime m j = 0) :
    H.Seeking t w i j (deadline + H.pausedTime m j) tests :=
  h.lull hopened hstandBy.le (hstandBy.asksOnly (standBy_lull _)) hrunning

variable (hreach : Session.Reachable limits bus writeTime (H.session 0)) (hcalls : w.CallsNothing)
  (hgoing : (H.bench j).isCancelled = false)

include hreach hcalls hgoing

/-- A frame that has come is put to the test. -/
lemma Seeking.test {result} (h : H.Seeking t w i n deadline tests)
    (hgets : H.Gets t n n (.nextFrame (H.bench i).hub.nextReader deadline) (.frame f))
    (htest : H.Finishes t (n + 1)
      ((frameMatches w.setting w.call w.scope w.predicate f).start w.own) j result) :
    ∃ v, result = (.ok v.passes, w.own) ∧ (H.bench j).turn = some t ∧
      H.runningTime i j ≤ w.millis ∧ H.Examined t w i j (tests ++ [(f, v)]) ∧
      (v.passes = false → H.Seeking t w i j deadline (tests ++ [(f, v)])) := by
  have hin := h.since.le
  have hnj := Nat.le_of_succ_le htest.le
  obtain ⟨hplace, hentered⟩ := hgets.of_frame
    (by rw [length_map]; exact h.place) h.examined.frames
  rw [length_map] at hplace
  obtain ⟨v, hresult, htested⟩ := htest.of_frameMatches hcalls hgoing
  obtain ⟨_, -, hkj, hholds, -⟩ := htested.judged
  -- neither the receipt nor the test takes any time
  have hreceipt : H.Still n (n + 1) := by
    intro k hnk hkn
    rw [(Nat.le_of_lt_succ hkn).antisymm hnk]
    exact lapse_of_mover hgets.mover
  have hstill := hreceipt.trans (hH.still_of_prompt hreach (frameMatches_prompt hcalls _) hgoing
    htest.course htest.first)
  have hearly : H.runningTime i j ≤ w.millis := by
    rw [hstill.runningTime hin hnj]
    exact h.early
  have hpaused : H.pausedTime i n + H.pausedTime n j = H.pausedTime i j := timeWhere_trans hin hnj
  have hasks : H.AsksOnly t (· = .nextFrame (H.bench i).hub.nextReader deadline) n (n + 1) :=
    hgets.asksOnly rfl
  have hexamined := (h.examined.later hin (Nat.le_succ n) hasks.reported
    hasks.untouched).add hin.step htest.le hentered htested
  refine ⟨v, hresult, hholds.turn j hkj le_rfl, hearly, hexamined, fun hv =>
    ⟨h.begun, h.since.trans_le hnj, ?_, hearly, ?_, hexamined, fun test hmem => ?_⟩⟩
  · rw [← hpaused, pausedTime, pausedTime, hstill.timeWhere]
    exact h.due
  · rw [htested.asks.place hopened h.begun (Nat.lt_succ_of_lt h.since) htest.le
      fun _ hop => hop.hubReader?, hplace, length_append]
    rfl
  · rcases mem_append.mp hmem with hbefore | hnow
    · exact h.failed test hbefore
    · rw [mem_singleton.mp hnow]
      exact hv

/-- A frame that has come is dealt with. -/
lemma Seeking.deal {result} (h : H.Seeking t w i n deadline tests)
    (hgets : H.Gets t n n (.nextFrame (H.bench i).hub.nextReader deadline) (.frame f))
    (hsift : H.Finishes t (n + 1) ((sift w.setting w.call w.scope w.predicate deadline
      (.frame f)).start w.own) j result) : H.RoundEnds t w i j result := by
  rcases hsift.of_evalBind with ⟨_, _, htest, rfl⟩ | ⟨m, passes, l', htest, hrest⟩
  · obtain ⟨_, heq, -⟩ := h.test hopened hH hreach hcalls hgoing hgets htest
    cases heq
  · have him : i ≤ m := by
      have hle := htest.le
      have hlt := h.since
      omega
    obtain ⟨v, heq, hturn, hearly, hexamined, hseeking⟩ :=
      h.test hopened hH hreach hcalls (going_before hrest.le hgoing) hgets htest
    cases heq
    cases hv : v.passes with
    | true =>
      rw [hv] at hrest
      rcases hrest.of_evalBind with ⟨_, _, hbind, -⟩ | ⟨m', _, l', hbind, hlast⟩
      · cases (hbind.of_bindAll hturn).1
      · obtain ⟨rfl, rfl⟩ := Finishes.of_pure hlast
        obtain ⟨heq, hturn', hglobals, -, hstores⟩ := hbind.of_bindAll hturn
        obtain ⟨-, rfl⟩ := Prod.mk.inj heq
        have hstill := hH.still_of_prompt hreach (bindFrame_prompt _ f _) hgoing hbind.course
          hbind.first
        refine .found ⟨h.failed, hv, ?_, hturn', ⟨m, him, hbind.le, hexamined, ?_⟩, rfl, ?_⟩
        · rw [hstill.runningTime him hbind.le]
          exact hearly
        · rw [hglobals]
          exact Scopes.defineAll_binds (frameFields_nodup f) _ _ _
        · rw [reported_append him hbind.le, hexamined.reported,
            hstores.reported fun _ hop => hop, append_nil, flatMap_append,
            flatMap_singleton, Verdict.errors_of_passes hv, append_nil]
    | false =>
      rw [hv] at hrest
      obtain ⟨n', _, hreleases, hlast⟩ := Finishes.of_askBind hrest
      obtain ⟨rfl, rfl⟩ := Finishes.of_pure hlast
      have hle := hreleases.le.step
      have hstill := hH.still_of_gets hreleases
      have hthen := (hseeking hv).lull hopened hle (hreleases.asksOnly trivial) hstill.timeWhere
      rw [pausedTime, hstill.timeWhere] at hthen
      exact .again hthen

/-- What one round of a wait keeps, or ends with. -/
lemma Seeking.round {result} (h : H.Seeking t w i m deadline tests)
    (henters : H.Enters t (w.round (H.bench i).hub.nextReader) m n deadline w.own)
    (hround : H.Finishes t (n + 1) ((w.round (H.bench i).hub.nextReader deadline).start w.own) j
      result) (hlossless : ∀ k, i ≤ k → k < j → ¬ H.Misses t k) : H.RoundEnds t w i j result := by
  rcases hround.of_waitRound hH with ⟨-, hcancelled⟩ | ⟨m1, n1, arrival, hstandBy, hrunning, hgets,
    hsift⟩
  · cases hgoing.symm.trans hcancelled
  · have hgoing' := going_before ((Nat.le_succ n1).trans hsift.le) hgoing
    have hwaited := (h.enter hopened hH henters).standBy hopened hstandBy.course hrunning
    have hthere := hwaited.pending hopened hH hgets.le hgets.pending hgoing'
    have hlast := hgets.last
    have hin1 : i ≤ n1 := hthere.since.le
    have hasks : H.AsksOnly t (· = .nextFrame (H.bench i).hub.nextReader
        (deadline + H.pausedTime (n + 1) m1)) n1 (n1 + 1) := hlast.asksOnly rfl
    have hreceipt : H.runningTime i (n1 + 1) = H.runningTime i n1 := by
      rw [runningTime, timeWhere_succ_of_lapse hin1 (lapse_of_mover hgets.mover)]
      rfl
    have hdelivers := Bench.nextFrame_delivers hgets.answer
    cases arrival with
    | stopped =>
      cases hgoing'.symm.trans hdelivers.of_stopped
    | lagged missed =>
      exact absurd ⟨_, _, _, missed, hgets.makes, hgets.answer⟩ (hlossless n1 hin1 hsift.le)
    | frame f => exact hthere.deal hopened hH hreach hcalls hgoing hlast hsift
    | paused =>
      obtain ⟨rfl, rfl⟩ := Finishes.of_pure hsift
      have hthen := hthere.later (Nat.le_succ n1) (by rw [hdelivers.of_paused])
        hasks.reported hasks.untouched (by rw [hreceipt]; exact hthere.early)
      rw [(hlast.pausedTime_of_nextFrame hH le_rfl).trans (timeWhere_self n1)] at hthen
      exact .again hthen
    | expired =>
      obtain ⟨rfl, rfl⟩ := Finishes.of_pure hsift
      obtain ⟨-, -, hdue⟩ := hdelivers.of_expired
      have hnow := hthere.now_add hgoing'
      have hearly := hthere.early
      refine .runOut ⟨hthere.failed, ?_, hthere.examined.later hin1 (Nat.le_succ n1)
        hasks.reported hasks.untouched⟩
      rw [hreceipt]
      omega

end Rounds

end History

end CanScript
