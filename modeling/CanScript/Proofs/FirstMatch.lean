import CanScript.Proofs.Seeking

/-! # The first frame that matches

    A wait for a frame ends with the first frame that passes its test, or when its time is over;
    until then it goes on, and has put to the test what there is.  A frame that is there at the very
    end of the time may still be taken. -/

namespace CanScript.History

open Eval Finishes

variable {H : History} {setting : Setting} {lines : List Line} {d t : TaskId} {i j m n : Nat}
  {w : Wait} {r : ReaderId} {f : Frame} {v : Verdict} {tests : List (Frame × Verdict)}
  {deadline : Nat} {limits : RunConfig} {bus : Bus} {writeTime : Nat}

/-! ## The course of a wait -/

variable (H) in
def Seeks (t : TaskId) (w : Wait) (i m deadline : Nat) (l : Local) : Prop :=
  (H.bench m).isCancelled = false → (∀ k, i ≤ k → k < m → ¬ H.Misses t k) →
    l = w.own ∧ ∃ tests, H.Seeking t w i m deadline tests

variable (H) in
/-- A wait that began at one moment goes on at another: its time is not over, and whenever no task
    can go on, the frames that it has put to the test have failed.  Unless the run is paused, these
    are then all that have entered the hub, and there is time left. -/
structure Ongoing (t : TaskId) (w : Wait) (i j : Nat) : Prop where
  early : H.runningTime i j ≤ w.millis
  waits : (H.session j).isWaiting = true → ∃ tests, H.Examined t w i j tests ∧
    (∀ test ∈ tests, test.2.passes = false) ∧ ((H.bench j).standing = .running →
      H.runningTime i j < w.millis ∧ tests.map Prod.fst = H.entered i j)

lemma Ongoing.of_still (hij : i ≤ m) (hmj : m ≤ j) (hearly : H.runningTime i m ≤ w.millis)
    (hstill : H.Still m j) (hmoves : (H.session j).isWaiting = false) : H.Ongoing t w i j := by
  refine ⟨?_, fun hwaiting => ?_⟩
  · rw [hstill.runningTime hij hmj]
    exact hearly
  · rw [hmoves] at hwaiting
    cases hwaiting

section Wait

variable (hopened : Session.Opened setting lines d (H.session 0)) (hH : H.Timed)
  (hreach : Session.Reachable limits bus writeTime (H.session 0))

include hopened hH hreach

/-- A wait begins. -/
lemma Seeking.begin {result}
    (h : H.Finishes t i (beginWait.start w.own) m result) (hmover : H.mover i = some t) :
    result = (.ok ((H.bench i).hub.nextReader, (H.bench i).now), w.own) ∧
      H.Seeking t w i m ((H.bench i).now + w.millis) [] := by
  obtain ⟨n1, r, hlistens, h⟩ := h.of_askBind
  obtain ⟨n2, now, hnow, h⟩ := of_askBind h
  obtain ⟨n3, _, hreleases, h⟩ := of_askBind h
  obtain ⟨rfl, rfl⟩ := of_pure h
  obtain rfl : i = n1 := by
    rcases hlistens.le.lt_or_eq with hlt | heq
    · have hidle := hlistens.nextMove.idle
      exact absurd hmover (hidle i le_rfl hlt)
    · exact heq
  obtain ⟨rfl, hplace⟩ := hlistens.of_listen hreach
  have hasks : H.AsksOnly t (· = .listen) i (i + 1) := hlistens.asksOnly rfl
  have hstill := hH.still_of_gets hlistens
  have hstill' := (hH.still_of_gets hnow).trans (hH.still_of_gets hreleases)
  have hle : i + 1 ≤ n3 + 1 := le_trans hnow.le.step hreleases.le.step
  have hbegan : now = (H.bench i).now := by
    rw [hnow.clock_eq]
    have hn2 := hnow.le
    have hn3 := hreleases.le
    exact (hstill.trans fun k hik hkn => hstill' k hik (by omega)).now (by omega)
  have hstart : H.Seeking t w i (i + 1) ((H.bench i).now + w.millis) [] := by
    refine ⟨hlistens.makes, Nat.lt_succ_self i, ?_, ?_, hplace, ⟨ List.nil_prefix,
      fun _ hmem => absurd hmem List.not_mem_nil, hasks.reported,
      hasks.untouched⟩, fun _ hmem => absurd hmem List.not_mem_nil⟩
    · rw [pausedTime, hstill.timeWhere]
      rfl
    · rw [runningTime, hstill.timeWhere]
      exact Nat.zero_le _
  have hthen := hstart.lull hopened hle
    ((hnow.asksOnly trivial).trans (hreleases.asksOnly trivial)) hstill'.timeWhere
  rw [pausedTime, hstill'.timeWhere] at hthen
  rw [hbegan]
  exact ⟨rfl, hthen⟩

variable (hcalls : w.CallsNothing)

include hcalls

lemma Seeks.round {s s' m' l l'} (h : H.Seeks t w i m s l)
    (henters : H.Enters t (w.round (H.bench i).hub.nextReader) m n s l)
    (hround : H.Finishes t (n + 1) ((w.round (H.bench i).hub.nextReader s).start l) m'
      (.ok (.inl s'), l')) : H.Seeks t w i m' s' l' := by
  intro hgoing hlossless
  have hmm' : m ≤ m' := (Nat.le_succ_of_le henters.next.le).trans hround.le
  obtain ⟨rfl, tests, hseeking⟩ := h (going_before hmm' hgoing)
    fun k hik hkm => hlossless k hik (hkm.trans_le hmm')
  cases hseeking.round hopened hH hreach hcalls hgoing henters hround hlossless with
  | again hagain => exact ⟨rfl, _, hagain⟩

variable (hgoing : (H.bench j).isCancelled = false)
  (hlossless : ∀ k, i ≤ k → k < j → ¬ H.Misses t k)

include hgoing hlossless

lemma Seeking.ends {result} (h : H.Seeking t w i m deadline tests)
    (hloop : H.Finishes t m ((loop (w.round (H.bench i).hub.nextReader) deadline).start w.own) j
      result) : (∃ l tests f v, result = (.ok true, l) ∧ H.TakesFirst t w i j l tests f v) ∨
    ∃ tests, result = (.ok false, w.own) ∧ H.RunsOut t w i j tests := by
  obtain ⟨m', n', deadline', l', result', -, hseeks, henters, hround, hover⟩ := hloop.of_loop
    (I := fun m deadline l => H.Seeks t w i m deadline l)
    (fun hm henters hround => hm.round hopened hH hreach hcalls henters hround)
    fun _ _ => ⟨rfl, tests, h⟩
  have hm'j : m' ≤ j := (Nat.le_succ_of_le henters.next.le).trans hround.le
  obtain ⟨rfl, tests', hseeking⟩ := hseeks (going_before hm'j hgoing)
    fun k hik hkm => hlossless k hik (hkm.trans_le hm'j)
  cases hseeking.round hopened hH hreach hcalls hgoing henters hround hlossless with cases hover
  | found hfound => exact .inl ⟨_, _, _, _, rfl, hfound⟩
  | runOut hover' => exact .inr ⟨_, rfl, hover'⟩

omit hreach hcalls hlossless in
lemma Seeking.waits (h : H.Seeking t w i m deadline tests) (hmj : m ≤ j)
    (hpending : H.Pending t m j (.nextFrame (H.bench i).hub.nextReader deadline)) :
    H.Ongoing t w i j := by
  have hthere := h.pending hopened hH hmj hpending hgoing
  refine ⟨hthere.early, fun hwaiting => ⟨tests, hthere.examined, hthere.failed, fun _ => ?_⟩⟩
  obtain ⟨next, hnext⟩ := hpending.asks j hmj le_rfl
  obtain ⟨_, _, hop, hanswer⟩ := (Session.isWaiting_iff hwaiting).2 _ hnext
  cases hop
  have hanswer' : ((H.bench j).nextFrame _ deadline).answer? = none := hanswer
  obtain ⟨-, -, hearly, hnone⟩ := Bench.nextFrame_waits hanswer'
  have hsize := Channel.size_le_of_receive?_none hthere.place hnone
  have hnow := hthere.now_add hgoing
  refine ⟨by omega, hthere.examined.frames.eq_of_length_le ?_⟩
  rw [entered, List.length_drop, Array.length_toList, List.length_map]
  omega

omit hlossless in
lemma Seeking.within {e} (h : H.Seeking t w i m deadline tests)
    (henters : H.Enters t (w.round (H.bench i).hub.nextReader) m n deadline w.own)
    (hround : H.Course t (n + 1) ((w.round (H.bench i).hub.nextReader deadline).start w.own) j e)
    (hgoes : e.isDone = false) : H.Ongoing t w i j := by
  have hentered := h.enter hopened hH henters
  rcases hround.of_waitRound hH hgoes with ⟨d, hgoes', hstandBy⟩ |
    ⟨m1, hstandBy, hrunning, ⟨hm₁j, hpending⟩ | ⟨n1, arrival, hgets, hsift⟩⟩
  · obtain ⟨hrunning, hpaused⟩ := hstandBy.of_standBy hH hgoes'
    have hthere := hentered.standBy hopened hstandBy hrunning
    refine ⟨hthere.early, fun hwaiting => ⟨tests, hthere.examined, hthere.failed, fun hgoes => ?_⟩⟩
    rw [hpaused (waits_of_isWaiting hstandBy.rest hgoes' hwaiting)] at hgoes
    cases hgoes
  · exact (hentered.standBy hopened hstandBy.course hrunning).waits hopened hH hgoing hm₁j hpending
  · have hn₁j : n1 ≤ j := Nat.le_of_succ_le hsift.le
    have hthere := (hentered.standBy hopened hstandBy.course hrunning).pending hopened hH hgets.le
      hgets.pending (going_before hn₁j hgoing)
    have hreceipt : H.runningTime i (n1 + 1) ≤ w.millis := by
      rw [runningTime, timeWhere_succ_of_lapse hthere.since.le (lapse_of_mover hgets.mover)]
      exact hthere.early
    exact .of_still hthere.since.le.step hsift.le hreceipt
      (hH.still_of_prompt hreach (sift_prompt hcalls _ arrival _) hgoing hsift
        fun k d hk hd => hsift.along.goes_before hgoes hd hk.le)
      (isWaiting_of_prompt hreach (sift_prompt hcalls _ arrival _) hgoing hsift hgoes)

lemma Seeking.ongoing {e} (h : H.Seeking t w i m deadline tests)
    (hloop : H.Course t m ((loop (w.round (H.bench i).hub.nextReader) deadline).start w.own) j e)
    (hgoes : e.isDone = false) : H.Ongoing t w i j := by
  obtain ⟨m', deadline', l', -, hseeks, hwhere⟩ := hloop.of_loop
    (I := fun m deadline l => H.Seeks t w i m deadline l)
    (fun hm henters hround => hm.round hopened hH hreach hcalls henters hround)
    fun _ _ => ⟨rfl, tests, h⟩
  have hseeking : m' ≤ j → l' = w.own ∧ ∃ tests, H.Seeking t w i m' deadline' tests := fun hm'j =>
    hseeks (going_before hm'j hgoing) fun k hik hkm => hlossless k hik (hkm.trans_le hm'j)
  rcases hwhere with ⟨hm'j, hbegins, hidle, rfl⟩ |
    ⟨n', henters, ⟨d, hgoes', hround, -⟩ | ⟨_, _, -, -, -, -, hdone⟩⟩
  · obtain ⟨-, tests', hthere⟩ := hseeking hm'j
    refine .of_still hthere.since.le hm'j hthere.early
      (hH.still_of_idle hbegins rfl (fun _ => rfl) hidle) ?_
    exact Bool.eq_false_iff.mpr fun hwaiting => Bool.false_ne_true
      (waits_of_isWaiting hloop.rest rfl hwaiting)
  · obtain ⟨rfl, tests', hthere⟩ := hseeking
      (Nat.le_of_succ_le ((Nat.succ_le_succ henters.next.le).trans hround.le))
    exact hthere.within hopened hH hreach hcalls hgoing henters hround hgoes'
  · rw [hgoes] at hdone
    cases hdone

omit hopened hreach hcalls hgoing hlossless in
lemma TakesFirst.unlisten {l} (h : H.TakesFirst t w i m l tests f v)
    (hgets : H.Gets t m n (.unlisten r) ()) : H.TakesFirst t w i (n + 1) l tests f v := by
  obtain ⟨k, hik, hkm, hexamined, hbinds⟩ := h.binds
  have him := hik.trans hkm
  have hle := hgets.le.step
  have hholds := hgets.holds h.turn
  have hasks : H.AsksOnly t (· = .unlisten r) m (n + 1) := hgets.asksOnly rfl
  have hstill := hH.still_of_gets hgets
  refine ⟨h.failed, h.passes, ?_, hholds.turn _ hle le_rfl,
    ⟨k, hik, hkm.trans hle, hexamined, ?_⟩, h.rest, ?_⟩
  · rw [hstill.runningTime him hle]
    exact h.early
  · rw [hholds.same _ hle le_rfl]
    exact hbinds
  · rw [reported_append him hle, h.reported, hasks.reported, List.append_nil]

omit hopened hreach hcalls hgoing hlossless in
lemma RunsOut.unlisten (h : H.RunsOut t w i m tests) (him : i ≤ m)
    (hgets : H.Gets t m n (.unlisten r) ()) : H.RunsOut t w i (n + 1) tests := by
  have hle := hgets.le.step
  have hasks : H.AsksOnly t (· = .unlisten r) m (n + 1) := hgets.asksOnly rfl
  refine ⟨h.failed, ?_, h.examined.later him hle hasks.reported hasks.untouched⟩
  rw [(hH.still_of_gets hgets).runningTime him hle]
  exact h.time

variable (hmover : H.mover i = some t)

include hmover

lemma Finishes.of_wait {result} (h : H.Finishes t i w.part j result) :
    (∃ l tests f v, result = (.ok true, l) ∧ H.TakesFirst t w i j l tests f v) ∨
    ∃ tests, result = (.ok false, w.own) ∧ H.RunsOut t w i j tests := by
  rw [Wait.part, waitForFrame_eq] at h
  rcases h.of_evalBind with ⟨_, _, hbegin, rfl⟩ | ⟨m, begun, l, hbegin, h⟩
  · cases (Seeking.begin (w := w) hopened hH hreach hbegin hmover).1
  · obtain ⟨heq, hseeking⟩ := Seeking.begin hopened hH hreach hbegin hmover
    cases heq
    rcases h.of_evalBind with ⟨_, _, hloop, rfl⟩ | ⟨m', found, l', hloop, h⟩
    · exact hseeking.ends hopened hH hreach hcalls hgoing hlossless hloop
    · obtain ⟨n, _, hunlistens, h⟩ := of_askBind h
      obtain ⟨rfl, rfl⟩ := of_pure h
      have hm' : m' ≤ n + 1 := hunlistens.le.step
      rcases hseeking.ends hopened hH hreach hcalls (going_before hm' hgoing)
        (fun k hik hkm => hlossless k hik (hkm.trans_le hm')) hloop with
        ⟨_, _, _, _, heq, htakes⟩ | ⟨tests, heq, hout⟩
      · cases heq
        exact .inl ⟨_, _, _, _, rfl, htakes.unlisten hH hunlistens⟩
      · cases heq
        exact .inr ⟨tests, rfl, hout.unlisten hH (hseeking.since.le.trans hloop.le) hunlistens⟩

/-- How a wait goes on. -/
lemma Course.of_wait {e} (h : H.Course t i w.part j e)
    (hgoes : e.isDone = false) : H.Ongoing t w i j := by
  -- a prompt part takes no time, and the task can go on
  have hprompt : ∀ {α : Type} {m : Nat} {c e : Process α}, i ≤ m → c.Only Request.Prompt →
      H.Course t m c j e → e.isDone = false → H.runningTime i m ≤ w.millis → H.Ongoing t w i j :=
    fun him hc hcourse hgoes hearly => .of_still him hcourse.le hearly
      (hH.still_of_prompt hreach hc hgoing hcourse fun k d hk hd =>
        hcourse.along.goes_before hgoes hd hk.le)
      (isWaiting_of_prompt hreach hc hgoing hcourse hgoes)
  rw [Wait.part, waitForFrame_eq] at h
  rcases h.of_evalBind with ⟨d, hgoes', hd, -⟩ | ⟨_, _, _, -, rfl, -⟩ | ⟨m, begun, l, hbegin, h⟩
  · refine hprompt le_rfl (beginWait_prompt _) hd hgoes' ?_
    rw [runningTime, timeWhere_self]
    exact Nat.zero_le _
  · cases hgoes
  · obtain ⟨heq, hseeking⟩ := Seeking.begin (w := w) hopened hH hreach hbegin hmover
    cases heq
    rcases h.of_evalBind with ⟨d, hgoes', hd, -⟩ | ⟨_, _, _, -, rfl, -⟩ | ⟨m', found, l', hloop, h⟩
    · exact hseeking.ongoing hopened hH hreach hcalls hgoing hlossless hd hgoes'
    · cases hgoes
    · refine hprompt (hseeking.since.le.trans hloop.le) ?_ h hgoes ?_
      · exact prompt_sequential.evalBind prompt_ask (fun _ => prompt_sequential.evalPure found) l'
      · rcases hseeking.ends hopened hH hreach hcalls (going_before h.le hgoing)
          (fun k hik hkm => hlossless k hik (hkm.trans_le h.le)) hloop with
          ⟨_, _, _, _, -, htakes⟩ | ⟨_, -, hout⟩
        · exact htakes.early
        · exact hout.time.le

end Wait

/-! ## What follows a wait without a frame -/

section Otherwise

variable {pos : Pos}

lemma Finishes.of_timeout {result}
    (h : H.Finishes t i ((w.otherwise pos none).start w.own) j result)
    (hgoing : (H.bench j).isCancelled = false) : result = (.ok .normal, w.own) ∧
      H.reported t i j = [w.timeout pos] ∧ H.Untouched t i j := by
  rcases h.of_evalBind with ⟨_, _, hturn, rfl⟩ | ⟨m, _, l, hturn, hrest⟩
  · cases (hturn.of_acquire hgoing).1
  · obtain ⟨heq, -, hasks⟩ := hturn.of_acquire (going_before hrest.le hgoing)
    cases heq
    obtain ⟨n, _, hreports, hlast⟩ := of_askBind hrest
    obtain ⟨rfl, rfl⟩ := of_pure hlast
    have hreport : H.AsksOnly t (· = .report (w.timeout pos)) m (n + 1) := hreports.asksOnly rfl
    refine ⟨rfl, ?_, hasks.untouched.trans hreport.untouched⟩
    rw [reported_append hturn.le hreports.le.step, hasks.reported, hreports.reported]
    rfl

lemma Course.of_timeout {e}
    (h : H.Course t i ((w.otherwise pos none).start w.own) j e) (hgoes : e.isDone = false)
    (hgoing : (H.bench j).isCancelled = false) : H.reported t i j = [] := by
  rcases h.of_evalBind with ⟨d, -, hturn, -⟩ | ⟨_, _, _, -, rfl, -⟩ | ⟨m, _, l, hturn, hrest⟩
  · exact (hturn.asksOnly (acquire_only w.own)).reported
  · cases hgoes
  · have hasks := (hturn.of_acquire (going_before hrest.le hgoing)).2.2
    rcases Course.of_askBind hrest with ⟨-, hpending⟩ | ⟨n, _, -, hlast⟩
    · have hidle := hpending.idle
      have hnothing : H.AsksOnly t (fun _ => False) m j := hidle.asksOnly
      rw [reported_append hturn.le hrest.le, hasks.reported,
        hnothing.reported fun _ hfalse => hfalse]
      rfl
    · rw [(Course.of_pure hlast).1] at hgoes
      cases hgoes

end Otherwise

variable (H) in
/-- A wait of a statement was over at a moment, and there is no fallback: the task is about to
    record an error, or has recorded just one, with which the statement ends. -/
def TimesOut (t : TaskId) (w : Wait) (pos : Pos)
    (statement : Process (Except Interrupt Flow × Local))
    (i₀ i m j : Nat) : Prop :=
  ((∃ e, e.isDone = false ∧ H.Course t m ((w.otherwise pos none).start w.own) j e) ∧
    (H.session j).isWaiting = false ∧ H.reported t m j = []) ∨
  ∃ n, n ≤ j ∧ H.Finishes t i₀ statement n (.ok .normal, w.own) ∧ H.runningTime i n = w.millis ∧
    H.reported t m n = [w.timeout pos] ∧ H.Untouched t m n

variable (H) in
/-- A wait of a statement was over at a moment, and there is a fallback: the task is about to get
    the turn, or has begun the fallback with nothing recorded or changed, and the statement ends
    with it. -/
def FallsBack (t : TaskId) (w : Wait) (body : List Stmt)
    (statement : Process (Except Interrupt Flow × Local)) (i₀ i m j : Nat) : Prop :=
  ((∃ e, e.isDone = false ∧ H.Course t m (acquire.start w.own) j e) ∧
    (H.session j).isWaiting = false) ∨
  ∃ n, n ≤ j ∧ (H.bench n).turn = some t ∧ H.runningTime i n = w.millis ∧
    H.reported t m n = [] ∧ H.Untouched t m n ∧ H.Begins t n ((w.block body).start w.own) ∧
    ∀ k result, H.Finishes t n ((w.block body).start w.own) k result →
      H.Finishes t i₀ statement k result

section Statement

variable {pos : Pos} {statement : Process (Exit Flow)} {i₀ : Nat} (hH : H.Timed)
  (hreach : Session.Reachable limits bus writeTime (H.session 0)) (hout : H.RunsOut t w i m tests)
  (him : i ≤ m) (hmj : m ≤ j) (hgoing : (H.bench j).isCancelled = false)

include hH hreach hout him hmj hgoing

lemma RunsOut.timesOut (hbegins : H.Begins t m ((w.otherwise pos none).start w.own))
    (hstatement : ∀ {k result}, H.Finishes t m ((w.otherwise pos none).start w.own) k result →
      H.Finishes t i₀ statement k result) : H.TimesOut t w pos statement i₀ i m j := by
  have hprompt : Process.Only Request.Prompt ((w.otherwise pos none).start w.own) :=
    prompt_sequential.evalBind acquire_prompt (fun _ => prompt_sequential.evalBind
      prompt_ask fun _ => prompt_sequential.evalPure _) _
  rcases hbegins.course_or_finishes hmj with ⟨e, hgoes, hcourse⟩ | ⟨n, result, hnj, hover⟩
  · exact .inl ⟨⟨e, hgoes, hcourse⟩, isWaiting_of_prompt hreach hprompt hgoing hcourse hgoes,
      hcourse.of_timeout hgoes hgoing⟩
  · have hgoing' := going_before hnj hgoing
    obtain ⟨rfl, hreported, huntouched⟩ := hover.of_timeout hgoing'
    refine .inr ⟨n, hnj, hstatement hover, ?_, hreported, huntouched⟩
    rw [(hH.still_of_prompt hreach hprompt hgoing' hover.course hover.first).runningTime him
      hover.le]
    exact hout.time

lemma RunsOut.fallsBack {body} (hbegins : H.Begins t m ((w.otherwise pos (some body)).start w.own))
    (hstatement : ∀ {k result}, H.Finishes t m ((w.otherwise pos (some body)).start w.own)
      k result →
      H.Finishes t i₀ statement k result) : H.FallsBack t w body statement i₀ i m j := by
  have hprompt : Process.Only Request.Prompt (acquire.start w.own) := acquire_prompt w.own
  rcases hbegins.of_bind.course_or_finishes hmj with ⟨e, hgoes, hcourse⟩ | ⟨n, result, hnj, hover⟩
  · exact .inl ⟨⟨e, hgoes, hcourse⟩, isWaiting_of_prompt hreach hprompt hgoing hcourse hgoes⟩
  · have hgoing' := going_before hnj hgoing
    obtain ⟨rfl, hturn, hasks⟩ := hover.of_acquire hgoing'
    refine .inr ⟨n, hnj, hturn, ?_, hasks.reported, hasks.untouched,
      hover.begins hbegins, fun k result hblock => hstatement (hover.bind hblock hbegins)⟩
    rw [(hH.still_of_prompt hreach hprompt hgoing' hover.course hover.first).runningTime him
      hover.le]
    exact hout.time

end Statement

end CanScript.History

namespace CanScript

def quotientTest : Expr :=
  .binary ⟨1, 24⟩ .eq (.binary ⟨1, 13⟩ .div (.literal ⟨1, 10⟩ (.int 8))
    (.binary ⟨1, 19⟩ .sub (.name ⟨1, 16⟩ "id") (.literal ⟨1, 21⟩ (.int 1))))
    (.literal ⟨1, 27⟩ (.int 8))

def seekingProgram : Program where
  statements := [.waitFor ⟨1, 1⟩ quotientTest (.literal ⟨1, 38⟩ (.int 200)) none]

def seekingSetting : Setting :=
  ⟨seekingProgram, ["can0"], {}⟩

/-- A frame arrives for which the predicate fails, the run is paused for one second, and then
    another one arrives. -/
def seekingHistory : History :=
  .ofRun seekingSetting <|
    movesOf 0 1 ++ movesOf 1 9 ++ [.elapses 50, .inject ⟨1, [], false, "can0", 0⟩] ++
    movesOf 0 3 ++ movesOf 1 21 ++ [.elapses 60, .pause] ++ movesOf 1 3 ++
    [.elapses 1000, .resume] ++ movesOf 1 2 ++
    [.elapses 40, .inject ⟨2, [], false, "can0", 0⟩] ++ movesOf 0 3 ++ movesOf 1 28

/-- The wait. -/
def seekingWait : Wait :=
  ⟨seekingSetting, seekingSetting.call, none, quotientTest, { sinceYield := 1 }, 200⟩

lemma seekingWait_begun : seekingHistory.Begins 1 3
    ((seekingWait.stmt ⟨1, 1⟩ (.literal ⟨1, 38⟩ (.int 200)) none).start { sinceYield := 1 }) :=
  History.begins_first 3 (by with_unfolding_all rfl) (by decide +kernel)
    (by with_unfolding_all rfl)

section Start

variable {H : History} (h : H.Begins 1 3
  ((seekingWait.stmt ⟨1, 1⟩ (.literal ⟨1, 38⟩ (.int 200)) none).start { sinceYield := 1 }))

include h

lemma seekingWait_limit : H.Finishes 1 3
    ((seekingWait.limit (.literal ⟨1, 38⟩ (.int 200))).start { sinceYield := 1 }) 3
    (.ok seekingWait.millis, seekingWait.own) := by
  rw [Wait.stmt_eq] at h
  exact .pure h.of_bind

lemma seekingWait_part : H.Begins 1 3 seekingWait.part := by
  have hlimit := seekingWait_limit h
  rw [Wait.stmt_eq] at h
  exact (hlimit.second h).of_bind

end Start

/-- The run is paused when the time of the wait is just over, and a frame arrives in the pause. -/
def tiedHistory : History :=
  .ofRun seekingSetting <|
    movesOf 0 1 ++ movesOf 1 9 ++ [.elapses 200, .pause] ++ movesOf 1 3 ++
    [.elapses 5, .inject ⟨2, [], false, "can0", 0⟩] ++ movesOf 0 3 ++
    [.elapses 5, .resume] ++ movesOf 1 30

end CanScript
