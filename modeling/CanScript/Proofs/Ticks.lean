import CanScript.Proofs.Timing

/-! # Ticks

    An interval handler has a task of its own, which evaluates the period once and then sleeps and
    starts an activation in turn.  What an activation does is left to the task that it becomes, so
    it does not delay the next one. -/

namespace CanScript

open List Eval

/-! ## Who starts the activations of an interval handler -/

lemma Process.Only.temperate {O : Request → Prop} (hO : ∀ op, (∀ a, op ≠ .spawn a) → O op) :
    Process.Temperate (Process.Only O) fun _ => True where
  pure := Process.Only.pure
  bind := Process.Only.bind
  ask op hop := Process.Only.act (hO op fun a ha => by
    rw [ha] at hop
    exact hop)
  write f _ := Process.Only.sequential.evalWrite
    (fun op hop => Process.Only.act (hO op fun a ha => by
      rw [ha] at hop
      exact hop)) (Process.Only.act (hO _ (by simp)))
  setGlobals _ := Process.Only.act (hO _ (by simp))
  loop := Process.Only.loop
  listen _ _ hnext := Process.Only.act (hO _ (by simp)) fun r => hnext r trivial
  unlisten _ _ := Process.Only.act (hO _ (by simp))
  nextFrame _ _ _ := Process.Only.act (hO _ (by simp))

def Process.NeverTicks (i : Nat) {α : Type} (p : Process α) : Prop :=
  p.Only fun op => op ≠ .spawn (.interval i)

namespace Process.NeverTicks

variable (i : Nat)

lemma temperate : Temperate (fun p => NeverTicks i p) fun _ => True :=
  Only.temperate fun _ hop => hop _

lemma forwarder (port r) : NeverTicks i (forwarder port r) :=
  (temperate i).forwarder (Only.act (by simp)) (Only.act (by simp)) fun _ => Only.act (by simp)

lemma dispatcher (s r) : NeverTicks i (dispatcher s r) :=
  (temperate i).dispatcher (fun _ _ => Only.act (by simp)) (Only.act (by simp)) s

variable {i} in
lemma intervalTask {j} (hne : j ≠ i) (s) (h : IntervalHandler) :
    NeverTicks i (intervalTask s j h) :=
  (temperate i).intervalTask (Only.act (by simpa using hne)) s h

end Process.NeverTicks

namespace Session

variable {s : Session}

lemma mem_addTasks_place {processes task} (h : task ∈ (s.addTasks processes).tasks) :
    task ∈ s.tasks ∨ ∃ k, processes[k]? = some task.rest ∧ task.id = s.bench.nextTask + k := by
  rcases mem_append.mp h with hold | hnew
  · exact .inl hold
  · obtain ⟨⟨p, k⟩, hp, rfl⟩ := mem_map.mp hnew
    exact .inr ⟨k, mk_mem_zipIdx_iff_getElem?.mp hp, rfl⟩

lemma intervalTasks_place (setting k) : (intervalTasks setting)[k]?
    = (setting.program.intervalHandlers[k]?).map (intervalTask setting k) := by
  rw [intervalTasks, getElem?_map, getElem?_zipIdx, Nat.zero_add]
  cases setting.program.intervalHandlers[k]? with
  | none => rfl
  | some h => rfl

/-- The task of an interval handler when a run begins, and what all others do not do. -/
lemma launch_interval (hs : s.Bare) (hbus : s.bench.bus.Regular) {program} (ports) {i h}
    (hh : program.intervalHandlers[i]? = some h) :
    ∃ t, ⟨t, intervalTask (s.settingOf program ports) i h⟩ ∈ (s.launch program ports).1.tasks ∧
      ∀ task ∈ (s.launch program ports).1.tasks, task.id ≠ t → task.rest.NeverTicks i := by
  obtain ⟨lines, hwired⟩ := addForwarders_wired hs hbus program ports
  rw [launch_eq]
  have hhandler : (s.settingOf program ports).program.intervalHandlers[i]? = some h := hh
  generalize s.settingOf program ports = setting at *
  generalize ports.foldl addForwarder ⟨beginRun s.bench setting, s.tasks⟩ = s1 at *
  have hplace : (intervalTasks setting ++ [mainTask setting])[i]?
      = some (intervalTask setting i h) := by
    have hfound : (intervalTasks setting)[i]? = some (intervalTask setting i h) := by
      rw [intervalTasks_place, hhandler]
      rfl
    rw [getElem?_append_left (List.getElem?_eq_some_iff.mp hfound).1, hfound]
  refine ⟨_, mem_append_right _ (mem_map.mpr ⟨(_, i), mk_mem_zipIdx_iff_getElem?.mpr hplace, rfl⟩),
    fun task hmem hne => ?_⟩
  rcases mem_addTasks_place hmem with hold | ⟨k, hk, hid⟩
  · -- the forwarders, and the dispatcher if there is one
    have hold' : task ∈ s1.tasks ∨ ∃ r, task.rest = dispatcher setting r := by
      rw [addDispatcher] at hold
      split at hold
      · exact .inl hold
      · rcases mem_addTasks hold with hold | ⟨-, hrest⟩
        · exact .inl hold
        · exact .inr ⟨_, mem_singleton.mp hrest⟩
    rcases hold' with hline | ⟨r, hrest⟩
    · rw [hwired.tasks] at hline
      obtain ⟨line, -, rfl⟩ := mem_map.mp hline
      exact .forwarder i line.port line.reader
    · rw [hrest]
      exact .dispatcher i setting r
  · have hki : k ≠ i := fun heq => hne (hid.trans (by rw [heq]))
    rcases lt_or_ge k (intervalTasks setting).length with hlt | hge
    · rw [getElem?_append_left hlt, intervalTasks_place] at hk
      obtain ⟨h', -, hrest⟩ := Option.map_eq_some_iff.mp hk
      rw [← hrest]
      exact .intervalTask hki setting h'
    · rw [getElem?_append_right hge] at hk
      rw [mem_singleton.mp (mem_of_getElem? hk)]
      exact (Process.NeverTicks.temperate i).mainTask setting

lemma startProgram_interval {limits capacity writeTime s'}
    (hs : Reachable limits (.ofCapacity capacity) writeTime s) {program}
    {ports id} (hstart : s.startProgram program ports = (s', .ok id))
    {i h} (hh : program.intervalHandlers[i]? = some h) :
    ∃ t, ⟨t, intervalTask ⟨program, ports, limits⟩ i h⟩ ∈ s'.tasks ∧
      ∀ task ∈ s'.tasks, task.id ≠ t → task.rest.NeverTicks i := by
  obtain ⟨hlaunch, hbare, hregular, hsetting⟩ := hs.startProgram_launch hstart
  rw [← hsetting, hlaunch]
  exact launch_interval hbare hregular ports hh

end Session

/-! ## The task of an interval handler -/

/-- The evaluation of its period. -/
def timing (s : Setting) (h : IntervalHandler) : Eval (Except Diagnostic Nat) := do
  acquire
  attempt (period s h)

/-- What comes after that. -/
def ticking (a : Nat) : Except Diagnostic Nat → Eval Unit
  | .error d => do
    release
    ask (.report d)
  | .ok millis => do
    release
    loop (fun _ => intervalRound a millis) ()

lemma intervalTask_eq (s a) (h : IntervalHandler) : intervalTask s a h
    = ((timing s h >>= ticking a).start {}).bind fun _ => .pure () := by
  rw [timing, bind_assoc]
  refine congrArg (fun g => ((acquire >>= fun _ => attempt (period s h) >>= g).start {}).bind
    fun _ => .pure ()) ?_
  funext result
  cases result with
  | error d => rfl
  | ok millis => rfl

lemma Process.NeverTicks.timing (a s) (h : IntervalHandler) (l) :
    NeverTicks a ((timing s h).start l) := by
  have htemper := temperate a
  exact htemper.evalBind htemper.acquire (fun _ => htemper.evalAttempt (htemper.period h)) l

lemma Process.NeverTicks.ticking_error (a d l) : NeverTicks a ((ticking a (.error d)).start l) := by
  have htemper := temperate a
  exact htemper.evalBind htemper.release (fun _ => htemper.request (.report d) trivial) l

namespace History

variable {H : History} {α : Type} {t : TaskId} {a i j m n p : Nat}

variable (H) in
/-- The moments before one at which an activation of an interval handler is started. -/
def ticks (a j : Nat) : List Nat :=
  (List.range j).filter fun n => .interval a ∈ H.spawns n

lemma ticks_succ (a j) : H.ticks a (j + 1)
    = H.ticks a j ++ [j].filter fun n => .interval a ∈ H.spawns n := by
  rw [ticks, range_succ, filter_append]
  rfl

section Ticking

variable (hsolo : ∀ u n, H.Makes u n (.spawn (.interval a)) → u = t)

include hsolo

lemma ticks_eq (hij : i ≤ j) (h : ∀ n, i ≤ n → n < j → ¬ H.Makes t n (.spawn (.interval a))) :
    H.ticks a j = H.ticks a i := by
  refine steady hij fun n hin hnj => ?_
  have hnone : .interval a ∉ H.spawns n := by
    intro hmem
    rcases H.spawns_cases n with hspawns | ⟨u, act, hmakes, -, hspawns⟩
    · rw [hspawns] at hmem
      cases hmem
    · rw [hspawns] at hmem
      cases mem_singleton.mp hmem
      obtain rfl := hsolo u n hmakes
      exact h n hin hnj hmakes
  rw [ticks_succ, filter_singleton, decide_eq_false hnone]
  exact append_nil _

lemma ticks_of_neverTicks {c e : Process α} (hc : c.NeverTicks a) (h : H.Course t i c j e) :
    H.ticks a j = H.ticks a i := by
  obtain ⟨⟨k, hk⟩, halong⟩ := h
  refine ticks_eq hsolo halong.le fun n hin hnj hmakes => ?_
  obtain ⟨e', halong', he'⟩ := hmakes.asks hk halong hin hnj
  obtain ⟨_, hreaches⟩ := halong'.reaches
  exact hc _ _ hreaches _ he' rfl

lemma ticks_of_gets {reply : (Request.spawn (.interval a)).Reply}
    (h : H.Gets t i n (.spawn (.interval a)) reply) (hgoing : (H.bench n).isCancelled = false) :
    H.ticks a (n + 1) = H.ticks a i ++ [n] := by
  have hidle := h.nextMove.idle
  have hspawned : .interval a ∈ H.spawns n := by
    rw [spawns_of_spawn h.makes hgoing]
    exact mem_singleton.mpr rfl
  rw [ticks_succ, filter_singleton, decide_eq_true hspawned,
    ticks_eq hsolo h.le fun m him hmn hmakes => hidle m him hmn hmakes.1]
  rfl

lemma ticks_of_enters {σ β : Type} {body : σ → Eval (σ ⊕ β)} {s l}
    (h : H.Enters t body i n s l) : H.ticks a (n + 1) = H.ticks a i := by
  refine ticks_eq hsolo h.next.le.step fun m him hmn hmakes => ?_
  rcases Nat.lt_succ_iff_lt_or_eq.mp hmn with hmn | rfl
  · exact h.next.idle m him hmn hmakes.1
  · -- at its next move it goes into the loop
    obtain ⟨k, hk⟩ := h.begins
    obtain ⟨-, next, hnext⟩ := hmakes
    cases ((Along.of_idle h.next.le h.next.idle).has hk).unique hnext

/-! ## Rounds -/

variable (hH : H.Timed) (hgoing : (H.bench j).isCancelled = false) {l : Local}

include hH hgoing

lemma Finishes.of_intervalRound {r} (h : H.Finishes t i ((intervalRound a p).start l) j r) :
    r = (.ok (.inl ()), l) ∧ H.runningTime i j = p ∧
      ∃ n, i ≤ n ∧ H.runningTime i n = p ∧ H.ticks a j = H.ticks a i ++ [n] := by
  rcases h.of_evalBind with ⟨e, l', hsleep, -⟩ | ⟨m, _, l', hsleep, hrest⟩
  · cases (hsleep.of_sleep hH hgoing).1
  · have hgoing' := going_before hrest.le hgoing
    obtain ⟨hl, hslept⟩ := hsleep.of_sleep hH hgoing'
    cases hl
    obtain ⟨n, _, hgets, hover⟩ := hrest.of_askBind
    obtain ⟨rfl, rfl⟩ := hover.of_pure
    have hstill := hH.still_of_gets hgets
    have hstill' : H.Still m n := fun k hmk hkn => hstill k hmk (Nat.lt_succ_of_lt hkn)
    have hquiet := ticks_of_neverTicks hsolo
      ((Process.NeverTicks.temperate a).sleep p l) hsleep.course
    have hadded := ticks_of_gets hsolo hgets (going_before (Nat.le_succ n) hgoing)
    rw [hquiet] at hadded
    exact ⟨rfl, (hstill.runningTime hsleep.le hgets.le.step).trans hslept, n,
      hsleep.le.trans hgets.le, (hstill'.runningTime hsleep.le hgets.le).trans hslept,
      hadded⟩

lemma Course.of_intervalRound {d : Process (Exit (Unit ⊕ Unit))}
    (hgoes : d.isDone = false) (h : H.Course t i ((intervalRound a p).start l) j d) :
    H.ticks a j = H.ticks a i ∧ H.runningTime i j ≤ p ∧
      (d.waits (H.bench j) t → (H.bench j).isPaused = false → H.runningTime i j < p) := by
  rcases h.of_evalBind with ⟨e, hgoes', hsleep, rfl⟩ | ⟨m, e, l', hsleep, -, hmj, -⟩ |
      ⟨m, _, l', hsleep, hrest⟩
  · obtain ⟨hle, hlt⟩ := hsleep.of_sleep hH hgoing hgoes'
    refine ⟨ticks_of_neverTicks hsolo ((Process.NeverTicks.temperate a).sleep p l) hsleep, hle,
      fun hwaits => hlt ?_⟩
    rwa [Process.waits_bind hgoes'] at hwaits
  · cases (hsleep.of_sleep hH (going_before hmj hgoing)).1
  · obtain ⟨hl, hslept⟩ := hsleep.of_sleep hH (going_before hrest.le hgoing)
    cases hl
    have hquiet := ticks_of_neverTicks hsolo
      ((Process.NeverTicks.temperate a).sleep p l) hsleep.course
    rcases hrest.of_askBind with ⟨rfl, hpending⟩ | ⟨n, _, -, hover⟩
    · have hidle := hpending.idle
      have hstill := hH.still_of_pending hpending
      have htime := (hstill.runningTime hsleep.le hrest.le).trans hslept
      refine ⟨?_, htime.le, fun hwaits => ?_⟩
      · rw [← hquiet]
        exact ticks_eq hsolo hrest.le fun n hmn hnj hmakes => hidle n hmn hnj hmakes.1
      · cases hwaits
    · rw [hover.of_pure.1] at hgoes
      cases hgoes

end Ticking

/-! ## All rounds -/

variable (H) in
/-- Up to a moment, the activations of an interval handler come on time: each is started when the
    run has gone on for as many periods as it has a number, since another moment, and none is left
    out. -/
structure OnTime (a p i j : Nat) : Prop where
  exactly : ∀ k n, (H.ticks a j)[k]? = some n → H.runningTime i n = (k + 1) * p
  due : (H.ticks a j).length * p ≤ H.runningTime i j
  complete : H.runningTime i j ≤ ((H.ticks a j).length + 1) * p
  prompt : (H.session j).isWaiting = true → (H.bench j).isPaused = false →
    H.runningTime i j < ((H.ticks a j).length + 1) * p

variable (H) in
/-- When a round begins, as many periods have passed as activations were started. -/
structure Counted (a p i m : Nat) : Prop where
  since : i ≤ m
  exactly : ∀ k n, (H.ticks a m)[k]? = some n → H.runningTime i n = (k + 1) * p
  time : H.runningTime i m = (H.ticks a m).length * p

lemma Counted.onTime (h : H.Counted a p i m) (hmj : m ≤ j) (hticks : H.ticks a j = H.ticks a m)
    (htime : H.runningTime m j ≤ p)
    (hwaits : (H.session j).isWaiting → (H.bench j).isPaused = false →
      H.runningTime m j < p) : H.OnTime a p i j := by
  have hsum := H.runningTime_trans h.since hmj
  have hcount := h.time
  refine ⟨hticks ▸ h.exactly, ?_, ?_, fun hwaiting hpaused => ?_⟩
  · rw [hticks]
    omega
  · rw [hticks, Nat.succ_mul]
    omega
  · have hless := hwaits hwaiting hpaused
    rw [hticks, Nat.succ_mul]
    omega

lemma Counted.later (h : H.Counted a p i m) (hmj : m ≤ j) (hticks : H.ticks a j = H.ticks a m)
    (hstill : H.Still m j) : H.Counted a p i j := by
  refine ⟨h.since.trans hmj, hticks ▸ h.exactly, ?_⟩
  rw [hstill.runningTime h.since hmj, hticks]
  exact h.time

lemma Counted.stays {c : Process α} (h : H.Counted a p i m) (hmj : m ≤ j)
    (hticks : H.ticks a j = H.ticks a m) (hstill : H.Still m j) (hc : H.Begins t j c)
    (hgoes : c.isDone = false) (hwaits : c.waits (H.bench j) t = false) : H.OnTime a p i j := by
  have hzero : H.runningTime m j = 0 := hstill.timeWhere
  refine h.onTime hmj hticks (by omega) fun hwaiting => ?_
  rw [waits_of_isWaiting hc hgoes hwaiting] at hwaits
  cases hwaits

lemma Counted.next (h : H.Counted a p i m) (hmj : m ≤ j) (htime : H.runningTime m j = p)
    (hmn : m ≤ n) (hn : H.runningTime m n = p) (hticks : H.ticks a j = H.ticks a m ++ [n]) :
    H.Counted a p i j := by
  have hcount := h.time
  refine ⟨h.since.trans hmj, fun k x hk => ?_, ?_⟩
  · rw [hticks] at hk
    rcases lt_trichotomy k (H.ticks a m).length with hlt | rfl | hgt
    · rw [getElem?_append_left hlt] at hk
      exact h.exactly k x hk
    · rw [getElem?_concat_length] at hk
      cases hk
      rw [← runningTime_trans h.since hmn, hn, hcount, Nat.succ_mul]
    · rw [getElem?_eq_none (by simp; omega)] at hk
      cases hk
  · rw [hticks, length_append, length_singleton, Nat.succ_mul, ← hcount,
      ← runningTime_trans h.since hmj, htime]

section Ticking

variable (hsolo : ∀ u n, H.Makes u n (.spawn (.interval a)) → u = t) (hH : H.Timed) {l l' : Local}
  {e : Process (Exit Unit)}

include hsolo hH

lemma Counted.round (h : H.Counted a p i m)
    (henters : H.Enters t (fun _ => intervalRound a p) m n () l)
    (hround : H.Finishes t (n + 1) ((intervalRound a p).start l) j (.ok (.inl ()), l'))
    (hgoing : (H.bench j).isCancelled = false) : H.Counted a p i j := by
  obtain ⟨-, htime, n', hn', htime', hticks⟩ := hround.of_intervalRound hsolo hH hgoing
  have hentered := h.later henters.next.le.step (ticks_of_enters hsolo henters)
    (hH.still_of_enters henters)
  exact hentered.next hround.le htime hn' htime' hticks

lemma Counted.loop (h : H.Counted a p i m)
    (hloop : H.Course t m ((loop (fun _ => intervalRound a p) ()).start l) j e)
    (hgoing : (H.bench j).isCancelled = false) : H.OnTime a p i j := by
  have hrounds : ∀ {m n m' : Nat} {s s' : Unit} {l l' : Local},
      ((H.bench m).isCancelled = false → H.Counted a p i m) →
      H.Enters t (fun _ => intervalRound a p) m n s l →
      H.Finishes t (n + 1) ((intervalRound a p).start l) m' (.ok (.inl s'), l') →
      (H.bench m').isCancelled = false → H.Counted a p i m' := by
    intro m n m' s s' l l' hm henters hround hgoing
    have hmm' := le_trans henters.next.le (le_of_lt hround.le)
    exact (hm (going_before hmm' hgoing)).round hsolo hH henters hround hgoing
  obtain ⟨m', _, l', -, hm', hwhere⟩ := hloop.of_loop
    (I := fun m _ _ => (H.bench m).isCancelled = false → H.Counted a p i m) hrounds fun _ => h
  rcases hwhere with ⟨hm'j, hbegins, hidle, rfl⟩ | ⟨n, henters, hround⟩
  · refine (hm' (going_before hm'j hgoing)).stays hm'j ?_ ?_ hloop.rest rfl rfl
    · exact ticks_eq hsolo hm'j fun n hin hnj hmakes => hidle n hin hnj hmakes.1
    · exact hH.still_of_idle hbegins rfl (fun _ => rfl) hidle
  · rcases hround with ⟨d, hgoes, hround, -⟩ | ⟨m'', r, hround, hm''j, -, rfl, hdone⟩
    · obtain ⟨hticks, htime, hless⟩ := hround.of_intervalRound hsolo hH hgoing hgoes
      have hn := Nat.le_succ_of_le henters.next.le
      have hentered := (hm' (going_before (hn.trans hround.le) hgoing)).later hn
        (ticks_of_enters hsolo henters) (hH.still_of_enters henters)
      exact hentered.onTime hround.le hticks htime fun hwaiting =>
        hless (waits_of_isWaiting hround.rest hgoes hwaiting)
    · -- a round always leads to another one
      obtain ⟨rfl, -⟩ := hround.of_intervalRound hsolo hH (going_before hm''j hgoing)
      cases hdone

lemma Course.onTime (hnone : H.ticks a i = []) (h : H.Course t i ((ticking a (.ok p)).start l) j e)
    (hgoing : (H.bench j).isCancelled = false) : H.OnTime a p i j := by
  have hbegun : H.Counted a p i i := by
    refine ⟨le_rfl, by simp [hnone], ?_⟩
    rw [hnone, runningTime, timeWhere_self]
    exact (Nat.zero_mul p).symm
  rcases h.of_askBind with ⟨rfl, hpending⟩ | ⟨n, _, hgets, hloop⟩
  · have hidle := hpending.idle
    refine hbegun.stays h.le ?_ ?_ h.rest rfl rfl
    · exact ticks_eq hsolo h.le fun n hin hnj hmakes => hidle n hin hnj hmakes.1
    · exact hH.still_of_pending hpending
  · have hidle := hgets.nextMove.idle
    have hquiet : H.ticks a (n + 1) = H.ticks a i := by
      refine ticks_eq hsolo hgets.le.step fun m him hmn hmakes => ?_
      rcases Nat.lt_succ_iff_lt_or_eq.mp hmn with hmn | rfl
      · exact hidle m him hmn hmakes.1
      · cases hgets.makes.unique hmakes
    have hreleased := hbegun.later hgets.le.step hquiet (hH.still_of_gets hgets)
    exact hreleased.loop hsolo hH hloop hgoing

lemma not_finishes_ticking {r} (hgoing : (H.bench j).isCancelled = false) :
    ¬ H.Finishes t i ((ticking a (.ok p)).start l) j r := by
  intro h
  obtain ⟨n, _, -, hloop⟩ := h.of_askBind
  obtain ⟨_, _, _, l', r', -, -, -, hround, hover⟩ := hloop.of_loop (I := fun _ _ _ => True)
    (fun _ _ _ => trivial) trivial
  obtain ⟨rfl, -⟩ := hround.of_intervalRound hsolo hH hgoing
  cases hover

end Ticking

lemma timing_pos {s h l l'}
    (hover : H.Finishes t i ((timing s h).start l) j (.ok (.ok p), l')) : 0 < p := by
  rcases hover.of_evalBind with ⟨_, _, -, heq⟩ | ⟨_, _, _, -, hattempt⟩
  · cases heq
  · obtain ⟨⟨result, l1⟩, hperiod, hkept⟩ := hattempt.of_attempt
    rcases result with (d | _) | millis
    · cases hkept
    · cases hkept
    · cases hkept
      rcases hperiod.of_evalBind with ⟨_, _, -, heq⟩ | ⟨_, _, _, -, hmillis⟩
      · cases heq
      · rcases hmillis.of_evalBind with ⟨_, _, -, heq⟩ | ⟨_, _, _, -, hlast⟩
        · cases heq
        · split at hlast
          · cases hlast.of_pure.2
          · next hne =>
              cases hlast.of_pure.2
              exact Nat.pos_of_ne_zero hne

section Started

variable {setting : Setting} {h : IntervalHandler} (hbegins : H.Has t 0 (intervalTask setting a h))
  (hothers : ∀ task ∈ (H.session 0).tasks, task.id ≠ t → task.rest.NeverTicks a)

include hbegins hothers

lemma along_of_tick {u} {next : (Request.spawn (.interval a)).Reply → Process Unit}
    (hu : H.Has u n (.act (.spawn (.interval a)) next)) :
    u = t ∧ H.Along t 0 (intervalTask setting a h) n (.act (.spawn (.interval a)) next) := by
  have hnever : ∀ {i : Nat} {q : Process Unit}, q.NeverTicks a →
      ¬ H.Along u i q n (.act (.spawn (.interval a)) next) := by
    intro i q hq halong
    obtain ⟨_, hreaches⟩ := halong.reaches
    exact hq _ _ hreaches _ rfl rfl
  rcases hu.since (Nat.zero_le n) with ⟨q, hq, halong⟩ | ⟨m, setting', act, -, -, -, halong⟩
  · by_cases hut : u = t
    · subst hut
      rw [hq.unique hbegins] at halong
      exact ⟨rfl, halong⟩
    · exact absurd halong (hnever (hothers _ hq hut))
  · exact absurd halong (hnever ((Process.NeverTicks.temperate a).activationTask setting' act))

lemma timed_of_tick {next : (Request.spawn (.interval a)).Reply → Process Unit}
    (hn : H.Has t n (.act (.spawn (.interval a)) next)) :
    ∃ i p l, i ≤ n ∧ H.Finishes t 0 ((timing setting h).start {}) i (.ok (.ok p), l) := by
  obtain ⟨-, halong⟩ := along_of_tick hbegins hothers hn
  rw [intervalTask_eq] at halong hbegins
  have hcourse : H.Course t 0 _ n _ := ⟨⟨.pure, by rwa [Process.bind_pure]⟩, halong⟩
  have hnever : ∀ {β : Type} {m : Nat} {c e : Process β}, c.NeverTicks a → H.Course t m c n e →
      e.request? ≠ some (.spawn (.interval a)) := by
    intro β m c e hc he hop
    obtain ⟨_, hreaches⟩ := he.along.reaches
    exact hc _ _ hreaches _ hop rfl
  rcases hcourse.of_bind with ⟨d, hgoes, hd, heq⟩ | ⟨m, r, -, hover⟩
  · have hop : d.request? = some (.spawn (.interval a)) := by
      rw [← request?_bind hgoes, ← heq]
      rfl
    rcases hd.of_evalBind with ⟨d', hgoes', hd', rfl⟩ | ⟨_, _, _, -, rfl, -⟩ |
        ⟨m, result, l, htiming, hrest⟩
    · rw [request?_bind hgoes'] at hop
      exact absurd hop (hnever (.timing a setting h {}) hd')
    · cases hop
    · cases result with
      | error diagnostic => exact absurd hop (hnever (.ticking_error a diagnostic l) hrest)
      | ok p => exact ⟨m, p, l, hrest.le, htiming⟩
  · cases hover.of_pure.1

end Started

/-- **Interval ticks do not drift.**  Let a host start a program with an interval handler, and
    let the clock move as that of a schedule does.  The handler has a task of its own, and whatever
    else happens, however long its activations take or fail, and however often the run is paused:

    * activations of the handler are started one at a time, none before the period was evaluated,
      and none after the run was told to end;
    * from the evaluation of the period on, the activation with a number is started when the run has
      gone on for just that many periods, and none is left out. -/
theorem interval_ticks_on_time {limits : RunConfig} {capacity writeTime : Nat} {s : Session}
    (hs : Session.Reachable limits (.ofCapacity capacity) writeTime s) {program : Program}
    {ports : List String} {id : RunId}
    (hstart : s.startProgram program ports = (H.session 0, .ok id)) (hH : H.Timed)
    {h : IntervalHandler} (hh : program.intervalHandlers[a]? = some h) :
    ∃ t, H.Has t 0 (intervalTask ⟨program, ports, limits⟩ a h) ∧
      (∀ n, .interval a ∈ H.spawns n → H.spawns n = [.interval a] ∧
        (H.bench n).isCancelled = false ∧ ∃ i p l, i ≤ n ∧
          H.Finishes t 0 ((timing ⟨program, ports, limits⟩ h).start {}) i (.ok (.ok p), l)) ∧
      ∀ i p l, H.Finishes t 0 ((timing ⟨program, ports, limits⟩ h).start {}) i (.ok (.ok p), l) →
        0 < p ∧ ∀ j, i ≤ j → (H.bench j).isCancelled = false → H.OnTime a p i j := by
  obtain ⟨t, hmem, hothers⟩ := Session.startProgram_interval hs hstart hh
  have hbegins : H.Has t 0 (intervalTask ⟨program, ports, limits⟩ a h) := hmem
  refine ⟨t, hbegins, fun n hmem => ?_, fun i p l htiming => ⟨timing_pos htiming, ?_⟩⟩
  · rcases H.spawns_cases n with hnone | ⟨u, act, ⟨-, next, hnext⟩, hgoing, hone⟩
    · rw [hnone] at hmem
      cases hmem
    · rw [hone] at hmem ⊢
      cases mem_singleton.mp hmem
      obtain ⟨rfl, -⟩ := along_of_tick hbegins hothers hnext
      exact ⟨rfl, hgoing, timed_of_tick hbegins hothers hnext⟩
  · intro j hij hgoing
    have hsolo : ∀ u n, H.Makes u n (.spawn (.interval a)) → u = t := by
      rintro u n ⟨-, next, hnext⟩
      exact (along_of_tick hbegins hothers hnext).1
    have hticking : H.Begins t i ((ticking a (.ok p)).start l) := by
      rw [intervalTask_eq] at hbegins
      exact ⟨_, hbegins.second htiming.course.along⟩
    have hnone : H.ticks a i = [] := ticks_of_neverTicks hsolo (.timing a _ h {}) htiming.course
    obtain ⟨e, -, hcourse⟩ := hticking.persists hij fun m r hmj =>
      not_finishes_ticking hsolo hH (going_before hmj hgoing)
    exact hcourse.onTime hsolo hH hnone hgoing

end History

/-! ## Two ticks with a pause -/

def tickingProgram : Program where
  intervalHandlers := [⟨⟨1, 1⟩, .literal ⟨1, 13⟩ (.int 100),
    [.delay ⟨2, 3⟩ (.literal ⟨2, 9⟩ (.int 250))]⟩]

/-- The run is paused for one second in the middle of the first period, and the first activation has
    not ended when the second one is started. -/
def tickingHistory : History :=
  .ofRun ⟨tickingProgram, ["can0"], {}⟩ <|
    movesOf 0 1 ++ movesOf 2 2 ++ movesOf 1 6 ++ [.elapses 60, .pause] ++ movesOf 1 3 ++
    [.elapses 1000, .resume] ++ movesOf 1 2 ++ [.elapses 40] ++ movesOf 1 6 ++
    [.spawn] ++ movesOf 3 7 ++ [.elapses 100] ++ movesOf 1 2

theorem interval_ticks_on_time_paused : tickingHistory.Timed ∧
    tickingHistory.ticks 0 36 = [20, 35] ∧ tickingHistory.pausedTime 0 20 = 1000 ∧
    ∃ i p, 0 < p ∧ tickingHistory.OnTime 0 p i 36 := by
  have htimed : tickingHistory.Timed := History.timed_ofRun (by decide +kernel)
  have hstart : (Session.ofLimits {} (.ofCapacity 16)).startProgram tickingProgram ["can0"]
      = (tickingHistory.session 0, .ok 1) := by with_unfolding_all rfl
  obtain ⟨t, -, hspawned, hticks⟩ := History.interval_ticks_on_time .init hstart htimed
    (a := 0) (h := tickingProgram.intervalHandlers.head (by decide)) rfl
  obtain ⟨-, -, i, p, l, hi, htiming⟩ := hspawned 20 (by decide +kernel)
  obtain ⟨hp, honTime⟩ := hticks i p l htiming
  exact ⟨htimed, by decide +kernel, by decide +kernel, i, p, hp,
    honTime 36 (Nat.le_trans hi (by decide)) (by decide +kernel)⟩

end CanScript
