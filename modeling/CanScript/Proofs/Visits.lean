import CanScript.Proofs.Dispatch

/-! # What becomes of the frames of the hub

    The dispatcher has one place in the hub, and moves on by one with each frame that it takes.  So
    at any moment it is busy with the frame before its place or is done with all of them, and the
    activations that were started are those of these frames, in order. -/

namespace CanScript.History

open Eval Regime Request List

variable {H : History} {setting : Setting} {lines : List Line} {d t : TaskId} {n i j : Nat}
  {limits : RunConfig} {bus : Bus} {writeTime : Nat}

variable (H)

/-- A task that asks for a frame learns that it has missed some. -/
def Overruns (n : Nat) : Prop :=
  ∃ t source b missed, H.Makes t n (.receive source) ∧
    ((H.bench n).perform t (.receive source)).answer? = some (b, some (.lagged missed))

/-- The dispatcher takes a frame from its place in the hub. -/
structure Takes (d : TaskId) (c k : Nat) (f : Frame) : Prop where
  asks : H.Makes d c (.receive (.hub 0))
  place : (H.bench c).hub.place? 0 = some k
  frame : (H.bench c).hub.history[k]? = some f
  moves : (H.bench (c + 1)).hub.place? 0 = some (k + 1)

def Visited (s : Setting) (d : TaskId) (j k : Nat) (acts : List Activation) : Prop :=
  ∃ c e f l l', e ≤ j ∧ H.Takes d c k f ∧
    H.Has d (c + 1) (((considers s f).start l).bind (nextRound s 0)) ∧
    H.Along d (c + 1) ((considers s f).start l) e (.pure (.ok (.inl ()), l')) ∧
    H.started e = H.started (c + 1) ++ acts

/-- The dispatcher is before a round or asks for a frame, with its own state as given, and is done
    with a number of frames. -/
inductive Rounds (s : Setting) (d : TaskId) : Nat → Local → Nat → Prop where
  | start : (H.bench 0).hub.place? 0 = some 0 → Rounds s d 0 {} 0
  | wait {j k l} : Rounds s d j l k → (∀ op, H.Makes d j op → op = .receive (.hub 0)) →
      (H.bench (j + 1)).hub.place? 0 = (H.bench j).hub.place? 0 → Rounds s d (j + 1) l k
  | visit {c j k f l l'} : Rounds s d c l k → H.Takes d c k f →
      H.Has d (c + 1) (((considers s f).start l).bind (nextRound s 0)) →
      H.Along d (c + 1) ((considers s f).start l) j (.pure (.ok (.inl ()), l')) →
      Rounds s d j l' (k + 1)

def Settled (s : Setting) (d : TaskId) (j : Nat) (l : Local) : Prop :=
  (H.bench j).isCancelled = false → (∀ n, n < j → ¬ H.Overruns n) → ∃ k, H.Rounds s d j l k

/-- Where the dispatcher is at a moment: before a round, at its request for a frame, busy with a
    frame that it took at some moment, or at its end. -/
inductive Dispatching (s : Setting) (d : TaskId) : Nat → Process Unit → Prop where
  | between {j : Nat} (l : Local) : H.Settled s d j l → Dispatching s d j (dispatching s 0 l)
  | awaits {j : Nat} (l : Local) : H.Settled s d j l → Dispatching s d j (awaiting s 0 l)
  | considers {c k j f l}
      {e : Process (Except Interrupt (Unit ⊕ Unit) × Local)} : H.Settled s d c l →
      H.Takes d c k f → H.Has d (c + 1) (((considers s f).start l).bind (nextRound s 0)) →
      H.Along d (c + 1) ((considers s f).start l) j e → e.isDone = false →
      Dispatching s d j (e.bind (nextRound s 0))
  | ended {j : Nat} : (H.bench j).isCancelled = true → Dispatching s d j (.pure ())

variable {H}

lemma Visited.later {k acts} (h : H.Visited setting d i k acts)
    (hij : i ≤ j) : H.Visited setting d j k acts := by
  obtain ⟨c, e, f, l, l', he, hrest⟩ := h
  exact ⟨c, e, f, l, l', he.trans hij, hrest⟩

/-! ## How it ends -/

lemma grasp_other {k : Grasp} (hmover : H.mover n ≠ some t) (hfits : k.Fits t (H.bench n)) :
    k.Fits t (H.bench (n + 1)) := by
  cases hwho : H.mover n with
  | none =>
    have hturn : (H.bench (n + 1)).turn = (H.bench n).turn := (step_of hwho).of_none.2.1
    refine ⟨?_, fun htold => cancelled_step (hfits.told htold)⟩
    rw [hturn]
    exact hfits.held
  | some u =>
    obtain ⟨op, hchange⟩ := changed hwho
    exact hfits.of_other hchange fun heq => hmover (hwho.trans (congrArg some heq.symm))

lemma considers_disciplined (s f k) :
    Under discipline Ended k (considers s f) fun _ r => r = .inl () := by
  refine .bind (ask_disciplined trivial fun _ => rfl) fun k standing _ => ?_
  have htesting : Under discipline Ended k (testing s f) fun _ r => r = .inl () :=
    .bind (dispatchFrame_disciplined s f 0 _ k) fun k _ _ =>
      .bind (release_disciplined k) fun _ _ _ => .pure rfl
  cases standing with
  | running => exact htesting
  | paused => exact .pure rfl
  | stopped => exact htesting

lemma Along.of_considers (hH : Session.Reachable limits bus writeTime (H.session 0)) {f}
    {l l'} {k : Exit (Unit ⊕ Unit) → Process Unit} {result}
    (hi : H.Has d i (((considers setting f).start l).bind k))
    (halong : H.Along d i ((considers setting f).start l) j (.pure (result, l'))) :
    result = .ok (.inl ()) ∨ (H.bench j).isCancelled := by
  obtain ⟨grasp, hfits, -⟩ := (reachable hH i).disciplined.tasks _ hi
  obtain ⟨grasp', hfits', hkeeps⟩ := halong.keeps discipline_describes hi
    (fun m _ _ hmover k hk => grasp_other hmover hk) hfits
    (considers_disciplined setting f grasp l)
  have hleaves := hkeeps.of_pure
  cases result with
  | ok r => exact .inl (congrArg Except.ok hleaves)
  | error e => exact .inr (hfits'.told hleaves.2)

section Opened

variable (h : Session.Opened setting lines d (H.session 0))
  (hH : Session.Reachable limits bus writeTime (H.session 0))
  (hhandlers : setting.program.receiveHandlers ≠ [])

include h hhandlers

lemma place_kept (hn : ∀ op, H.Makes d n op → op.hubReader? ≠ some 0) :
    (H.bench (n + 1)).hub.place? 0 = (H.bench n).hub.place? 0 := by
  rcases H.hub_step n with hsame | ⟨t, op, hmakes, hchange⟩
  · rw [hsame]
  · have hop : op.hubReader? ≠ some 0 := by
      intro hreader
      obtain ⟨-, next, hnext⟩ := id hmakes
      obtain ⟨rfl, -⟩ := dispatcher_of_reserved h hnext
        (reserved_of_hubReader ⟨rfl, hhandlers⟩ hreader)
      exact hn op hmakes hreader
    exact (hchange.grows hop (reader_known h ⟨rfl, hhandlers⟩ n)).place

lemma place_of_considers {f l k e} (hi : H.Has d i (((considers setting f).start l).bind k))
    (halong : H.Along d i ((considers setting f).start l) j e) :
    (H.bench j).hub.place? 0 = (H.bench i).hub.place? 0 := by
  refine steady (F := fun m => (H.bench m).hub.place? 0) halong.le fun m him hmj => ?_
  refine place_kept h hhandlers fun op hmakes hreader => ?_
  rcases considers_asks h hi (hmakes.asks hi halong him hmj) with hnot | ⟨⟨a, rfl⟩, -⟩
  · exact hnot (reserved_of_hubReader ⟨rfl, hhandlers⟩ hreader)
  · cases hreader

namespace Rounds

variable {k : Nat} {l : Local}

lemma place (hrounds : H.Rounds setting d j l k) : (H.bench j).hub.place? 0 = some k := by
  induction hrounds with
  | start hplace => exact hplace
  | wait _ _ hsame ih => exact hsame.trans ih
  | visit _ htakes hbegun halong _ =>
    exact (place_of_considers h hhandlers hbegun halong).trans htakes.moves

omit hhandlers in
/-- The activations that were started are those of the frames that the dispatcher is done with, in
    order. -/
lemma started (hrounds : H.Rounds setting d j l k) (hgoing : (H.bench j).isCancelled = false) :
    ∃ acts : List (List Activation), acts.length = k ∧ H.started j = acts.flatten ∧
      ∀ k as, acts[k]? = some as → H.Visited setting d j k as := by
  induction hrounds with
  | start => exact ⟨[], rfl, rfl, by simp⟩
  | @wait j _ _ _ hasks _ ih =>
    obtain ⟨acts, hlength, hstarted, hvisited⟩ := ih (going_before (Nat.le_succ j) hgoing)
    refine ⟨acts, hlength, ?_, fun k as hk => (hvisited k as hk).later (Nat.le_succ j)⟩
    rw [started_succ, starts_eq_nil h fun a f hmakes => ?_, append_nil]
    · exact hstarted
    · cases hasks _ hmakes
  | @visit c j k f l l' _ htakes hbegun halong ih =>
    have hcj : c < j := halong.le
    obtain ⟨acts, rfl, hstarted, hvisited⟩ := ih (going_before hcj.le hgoing)
    obtain ⟨added, hadded⟩ : ∃ added, H.started j = H.started (c + 1) ++ added := by
      obtain ⟨_, hadded, -⟩ := started_of_considers h hbegun halong hgoing
      exact ⟨_, hadded⟩
    have htook : H.started (c + 1) = H.started c := by
      rw [started_succ, starts_eq_nil h fun a f hmakes => ?_, append_nil]
      cases htakes.asks.unique hmakes
    refine ⟨acts ++ [added], length_append, ?_, fun a as ha => ?_⟩
    · rw [hadded, htook, hstarted, flatten_append, flatten_singleton]
    · rcases lt_trichotomy a acts.length with hlt | rfl | hgt
      · rw [getElem?_append_left hlt] at ha
        exact (hvisited a as ha).later hcj.le
      · rw [getElem?_concat_length] at ha
        cases ha
        exact ⟨c, j, f, l, l', le_rfl, htakes, hbegun, halong, hadded⟩
      · rw [getElem?_eq_none (by simp; omega)] at ha
        cases ha

end Rounds

omit h hhandlers in
lemma Settled.later {l} (hs : H.Settled setting d n l)
    (hasks : ∀ op, H.Makes d n op → op = .receive (.hub 0))
    (hsame : (H.bench (n + 1)).hub.place? 0 = (H.bench n).hub.place? 0) :
    H.Settled setting d (n + 1) l := by
  intro hgoing hlossless
  obtain ⟨k, hrounds⟩ := hs (going_before (Nat.le_succ n) hgoing)
    fun m hm => hlossless m (Nat.lt_succ_of_lt hm)
  exact ⟨k, hrounds.wait hasks hsame⟩

lemma Settled.visit {c k f l l'} (hs : H.Settled setting d c l) (htakes : H.Takes d c k f)
    (hbegun : H.Has d (c + 1) (((considers setting f).start l).bind (nextRound setting 0)))
    (halong : H.Along d (c + 1) ((considers setting f).start l) j (.pure (.ok (.inl ()), l'))) :
    H.Settled setting d j l' := by
  intro hgoing hlossless
  have hcj : c < j := halong.le
  obtain ⟨k', hrounds⟩ := hs (going_before hcj.le hgoing) fun m hm => hlossless m (hm.trans hcj)
  cases (hrounds.place h hhandlers).symm.trans htakes.place
  exact ⟨_, hrounds.visit htakes hbegun halong⟩

namespace Dispatching

variable {p : Process Unit}

lemma stay (hp : H.Dispatching setting d n p) (hmover : H.mover n ≠ some d) :
    H.Dispatching setting d (n + 1) p := by
  have hlater : ∀ {l}, H.Settled setting d n l → H.Settled setting d (n + 1) l := fun hs =>
    hs.later (fun _ hmakes => absurd hmakes.1 hmover)
      (place_kept h hhandlers fun _ hmakes => absurd hmakes.1 hmover)
  cases hp with
  | between l hs => exact .between l (hlater hs)
  | awaits l hs => exact .awaits l (hlater hs)
  | considers hs htakes hbegun halong hgoing =>
    exact .considers hs htakes hbegun (halong.stay hmover) hgoing
  | ended hcancelled => exact .ended (cancelled_step hcancelled)

omit h hhandlers in
lemma receipt {l got b} (hs : H.Settled setting d n l) (hmakes : H.Makes d n (.receive (.hub 0)))
    (hgot : (H.bench n).receive? (.hub 0) = some (got, b))
    (hanswer : ((H.bench n).perform d (.receive (.hub 0))).answer? = some (b, some got))
    (hbench : H.bench (n + 1) = b)
    (hnext : H.Has d (n + 1) (((afterReceipt setting (some got)).start l).bind
      (nextRound setting 0))) :
    H.Dispatching setting d (n + 1) (((afterReceipt setting (some got)).start l).bind
      (nextRound setting 0)) := by
  obtain ⟨⟨got', hub⟩, hgot', heq⟩ := Option.map_eq_some_iff.mp hgot
  cases heq
  obtain ⟨k, hplace, -, -, ⟨missed, _, rfl, -⟩ | ⟨f, rfl, hframe, hmoves⟩⟩ :=
    Channel.receive?_place hgot'
  · refine .between l fun _ hlossless => ?_
    exact absurd ⟨d, _, _, missed, hmakes, hanswer⟩ (hlossless n (Nat.lt_succ_self n))
  · refine .considers hs ⟨hmakes, hplace, hframe, ?_⟩ hnext .start rfl
    rw [hbench]
    exact hmoves

include hH in
lemma move (hp : H.Dispatching setting d n p) (hhas : H.Has d n p)
    (hmover : H.mover n = some d) (hgoing : p.isDone = false) :
    H.Dispatching setting d (n + 1) (p.step (H.bench n) d) := by
  have hbench := (hhas.move hmover).1
  have hnext := (hhas.move hmover).2 hgoing
  cases hp with
  | between l hs =>
    rw [dispatching_step]
    refine .awaits l (hs.later ?_ ?_)
    · rintro op ⟨-, next, hop⟩
      cases hhas.unique hop
    · rw [hbench]
      rfl
  | awaits l hs =>
    have hmakes : H.Makes d n (.receive (.hub 0)) := ⟨hmover, _, hhas⟩
    rcases (H.bench n).receive_cases d (.hub 0) with
      ⟨hcancelled, hanswer⟩ | ⟨-, ⟨-, hanswer, hsame⟩ | ⟨got, b, hgot, hanswer⟩⟩
    · rw [awaiting, Process.step_of_answer hanswer]
      exact .ended (cancelled_step hcancelled)
    · rw [awaiting, Process.step_of_wait hanswer]
      refine .awaits l (hs.later (fun _ hop => hop.unique hmakes) ?_)
      rw [hbench]
      exact congrArg (fun b : Bench => b.hub.place? 0) hsame
    · rw [awaiting, Process.step_of_answer hanswer] at hnext ⊢
      exact receipt hs hmakes hgot hanswer (hbench.trans (Outcome.bench_of_answer hanswer)) hnext
  | @considers c k _ f l e hs htakes hbegun halong hgoing' =>
    rw [Process.step_bind hgoing']
    have hmoved := halong.move hmover hgoing'
    by_cases hdone : (e.step (H.bench n) d).isDone
    · obtain ⟨⟨result, l'⟩, hresult⟩ := Process.eq_pure_of_isDone hdone
      rw [hresult] at hmoved ⊢
      rcases hmoved.of_considers hH hbegun with rfl | hcancelled
      · exact .between l' (hs.visit h hhandlers htakes hbegun hmoved)
      · rcases result with _ | ⟨_ | _⟩
        · exact .ended hcancelled
        · exact .between l' (hs.visit h hhandlers htakes hbegun hmoved)
        · exact .ended hcancelled
    · exact .considers hs htakes hbegun hmoved (Bool.eq_false_iff.mpr hdone)
  | ended => cases hgoing

end Dispatching

omit h hhandlers in
lemma Dispatching.of_request {p op} (hp : H.Dispatching setting d n p)
    (hop : p.request? = some op) : (op = .receive (.hub 0) ∧ ∃ l, H.Settled setting d n l) ∨
    ∃ c k f l, c < n ∧ H.Takes d c k f ∧
      H.Has d (c + 1) (((CanScript.considers setting f).start l).bind (nextRound setting 0)) ∧
      H.Asks d (c + 1) ((CanScript.considers setting f).start l) n op := by
  cases hp with
  | between l hs => cases hop
  | awaits l hs => exact .inl ⟨(Option.some.inj hop).symm, l, hs⟩
  | considers hs htakes hbegun halong hgoing =>
    rw [request?_bind hgoing] at hop
    exact .inr ⟨_, _, _, _, halong.le, htakes, hbegun, _, halong, hop⟩
  | ended => cases hop

include hH

lemma Along.dispatching {q} (halong : H.Along d 0 (dispatcher setting 0) n q) :
    H.Dispatching setting d n q := by
  obtain ⟨hbegins, hplace, -⟩ := h.dispatches hhandlers
  induction halong with
  | start => exact .between {} fun _ _ => ⟨0, .start hplace⟩
  | stay _ hmover ih => exact ih.stay h hhandlers hmover
  | move hq hmover hgoing ih =>
    exact ih.move h hH hhandlers (Has.along hbegins hq) hmover hgoing

/-! ## Its place -/

/-- The place of the dispatcher does not move back. -/
lemma place_step {place} (hplace : (H.bench n).hub.place? 0 = some place) :
    ∃ place', (H.bench (n + 1)).hub.place? 0 = some place' ∧ place ≤ place' := by
  by_cases hn : ∃ op, H.Makes d n op ∧ op.hubReader? = some 0
  · obtain ⟨op, ⟨hmover, next, hnext⟩, hreader⟩ := hn
    have hreserved := reserved_of_hubReader
      (U := OfDispatcher setting) ⟨rfl, hhandlers⟩ hreader
    obtain ⟨-, -, halong⟩ := dispatcher_of_reserved h hnext hreserved
    rcases (halong.dispatching h hH hhandlers).of_request rfl with ⟨rfl, -⟩ |
        ⟨_, _, _, _, -, -, hbegun, hasks⟩
    · have hchange := ((H.bench n).perform_change d (.receive (.hub 0))).traffic.1
      have hbench : H.bench (n + 1) = ((H.bench n).perform d (.receive (.hub 0))).bench :=
        (hnext.move hmover).1
      rw [← hbench] at hchange
      generalize (H.bench (n + 1)).hub = hub at hchange
      cases hchange with
      | nothing _ => exact ⟨place, hplace, le_rfl⟩
      | got _ hr hgot =>
        cases hr
        obtain ⟨place0, place', hplace0, hmoved, hlt, -⟩ := Channel.receive?_advances hgot
        cases hplace.symm.trans hplace0
        exact ⟨place', hmoved, hlt.le⟩
    · rcases considers_asks h hbegun hasks with hnot | ⟨⟨a, rfl⟩, -⟩
      · exact absurd hreserved hnot
      · cases hreader
  · refine ⟨place, ?_, le_rfl⟩
    rw [place_kept h hhandlers fun op hmakes hreader => hn ⟨op, hmakes, hreader⟩]
    exact hplace

lemma place_later {place} (hplace : (H.bench i).hub.place? 0 = some place) (hij : i ≤ j) :
    ∃ place', (H.bench j).hub.place? 0 = some place' ∧ place ≤ place' := by
  induction hij with
  | refl => exact ⟨place, hplace, le_rfl⟩
  | step _ ih =>
    obtain ⟨place', hplace', hle⟩ := ih
    obtain ⟨place'', hplace'', hle'⟩ := place_step h hH hhandlers hplace'
    exact ⟨place'', hplace'', hle.trans hle'⟩

/-! ## When it has nothing to do -/

variable (H) in
/-- The dispatcher waits for a frame. -/
def Drained (n : Nat) : Prop :=
  ∃ t next, H.Has t n (.act (.receive (.hub 0)) next) ∧
    ((H.bench n).perform t (.receive (.hub 0))).answer? = none

omit hhandlers in
lemma Drained.settled (hn : H.Drained n) (hhandlers : setting.program.receiveHandlers ≠ []) :
    (∃ l, H.Settled setting d n l) ∧ (H.bench n).isCancelled = false ∧
    ∃ place, (H.bench n).hub.place? 0 = some place ∧ (H.bench n).hub.history.size ≤ place := by
  obtain ⟨t, next, hnext, hanswer⟩ := hn
  have hreserved : (receive (.hub 0)).Reserved (OfDispatcher setting) :=
    ⟨0, ⟨rfl, hhandlers⟩, rfl⟩
  obtain ⟨rfl, -, halong⟩ := dispatcher_of_reserved h hnext hreserved
  obtain ⟨place, hplace, -⟩ :=
    place_later h hH hhandlers (h.dispatches hhandlers).2.1 (Nat.zero_le n)
  obtain ⟨hgoing, hnone⟩ := Bench.receive_waits hanswer
  refine ⟨?_, hgoing, place, hplace,
    Channel.size_le_of_receive?_none hplace (Option.map_eq_none_iff.mp hnone)⟩
  rcases (halong.dispatching h hH hhandlers).of_request rfl with ⟨-, hs⟩ |
      ⟨_, _, _, _, -, -, hbegun, hasks⟩
  · exact hs
  · rcases considers_asks h hbegun hasks with hnot | ⟨⟨a, ha⟩, -⟩
    · exact absurd hreserved hnot
    · cases ha

omit hhandlers in
/-- An activation for a frame is started while the dispatcher is busy with the frame, which it took
    from the hub and for which it found that the run was not paused. -/
lemma source_of_starts {a g} (ha : .receive a g ∈ H.starts n) :
    setting.program.receiveHandlers ≠ [] ∧ ∃ c k l, c < n ∧ H.Takes d c k g ∧
      H.Has d (c + 1) (((CanScript.considers setting g).start l).bind (nextRound setting 0)) ∧
      H.Asks d (c + 1) ((CanScript.considers setting g).start l) n (.spawn (.receive a g)) ∧
      (H.bench n).hub.place? 0 = some (k + 1) ∧
      ∃ m, c < m ∧ m < n ∧ (H.bench m).standing = .running := by
  rcases H.starts_cases n with hnone | ⟨t, a', f', ⟨hmover, next, hnext⟩, hgoing, hstarts⟩
  · rw [hnone] at ha
    cases ha
  · rw [hstarts] at ha
    cases mem_singleton.mp ha
    obtain ⟨rfl, hhandlers, halong⟩ := dispatcher_of_reserved h hnext trivial
    rcases (halong.dispatching h hH hhandlers).of_request rfl with ⟨hreceive, -⟩ |
        ⟨c, k, f, l, hcn, htakes, hbegun, hasks⟩
    · cases hreceive
    · rcases considers_asks h hbegun hasks with hnot | ⟨⟨a, heq⟩, m, hcm, hmn, hpaused⟩
      · exact absurd trivial hnot
      · cases heq
        obtain ⟨e, halong', -⟩ := id hasks
        refine ⟨hhandlers, c, k, l, hcn, htakes, hbegun, hasks, ?_, m, hcm, hmn, ?_⟩
        · rw [place_of_considers h hhandlers hbegun halong']
          exact htakes.moves
        · -- it was not told to end either, or nothing would be started now
          have hearlier := going_before hmn.le hgoing
          cases hstanding : (H.bench m).standing with
          | running => rfl
          | paused => exact absurd hstanding hpaused
          | stopped =>
            exact absurd (hearlier.symm.trans (Bench.standing_eq_stopped_iff.mp hstanding))
              Bool.false_ne_true

lemma exists_dispatcher (hgoing : (H.bench n).isCancelled = false) :
    ∃ q, H.Has d n q ∧ H.Along d 0 (dispatcher setting 0) n q := by
  have hbegins : H.Has d 0 (dispatcher setting 0) := (h.dispatches hhandlers).1
  refine hbegins.persists (Nat.zero_le n) fun m q hmn halong => ?_
  cases halong.dispatching h hH hhandlers with
  | between l hs => rfl
  | awaits l hs => rfl
  | considers _ _ _ _ hgoes => exact Process.isDone_bind hgoes _
  | ended hcancelled =>
    have hearlier := going_before hmn.le hgoing
    cases hearlier.symm.trans hcancelled

end Opened

/-! ## Predicates without calls -/

end CanScript.History

namespace CanScript

open Eval

/-- No receive handler calls a function of the script in its predicate. -/
def Program.TestsCallNothing (p : Program) : Prop :=
  ∀ handler ∈ p.receiveHandlers, ∀ name, .call name ∈ handler.predicate.deeds →
    p.function? name = none

def Request.Prompt (op : Request) : Prop :=
  ∀ (b : Bench) t, b.turn = none → (b.perform t op).answer? ≠ none

lemma Request.prompt_acquire : acquire.Prompt := by
  intro b t hturn hwaits
  obtain ⟨-, u, hu, -⟩ := Bench.acquire_waits hwaits
  cases hturn.symm.trans hu

variable {op : Request}

section Prompt

open Process

variable {s : Setting} {call : Caller} {scope : Option ScopeId} {f : Frame}

lemma prompt_sequential : Sequential (Only Request.Prompt) :=
  Only.sequential

lemma prompt_answers (h : ∀ t, op.Immediate t := by exact fun _ _ => Option.some_ne_none _) :
    Answers (Only Request.Prompt) op :=
  Only.act fun b t _ => h t b

lemma prompt_ask (h : ∀ t, op.Immediate t := by exact fun _ _ => Option.some_ne_none _) :
    Always (Only Request.Prompt) (Eval.ask op) :=
  prompt_sequential.evalAsk (prompt_answers h)

lemma acquire_prompt : Always (Only Request.Prompt) acquire :=
  prompt_sequential.evalAcquire (Only.act Request.prompt_acquire)

lemma evalExpr_prompt {e} (hcalls : ∀ name, .call name ∈ e.deeds →
    s.program.function? name = none) (inner) :
    Always (Only Request.Prompt) (evalExpr s call (some inner) e) := by
  have hclosed := prompt_sequential.closed prompt_answers prompt_answers prompt_answers
    prompt_answers
  exact hclosed.plain hcalls call (some inner)

lemma bindFrame_prompt (scope f) : Always (Only Request.Prompt) (bindFrame scope f) :=
  prompt_sequential.evalBindFrame fun field _ => prompt_sequential.evalDefine prompt_answers
    (fun bs => prompt_answers (Request.setGlobals_immediate bs)) scope field.1 field.2

lemma frameMatches_prompt {e} (hcalls : ∀ name, .call name ∈ e.deeds →
    s.program.function? name = none) :
    Always (Only Request.Prompt) (frameMatches s call scope e f) := by
  exact prompt_sequential.evalFrameMatches (Only.act Request.prompt_acquire)
    (fun d => prompt_answers) bindFrame_prompt (evalExpr_prompt hcalls) f

lemma dispatchFrame_prompt {handlers} (hcalls : ∀ handler ∈ handlers,
    ∀ name, .call name ∈ handler.predicate.deeds → s.program.function? name = none) (n) :
    Always (Only Request.Prompt) (dispatchFrame s f n handlers) := by
  induction handlers generalizing n with
  | nil => exact prompt_sequential.evalPure ()
  | cons handler rest ih =>
    obtain ⟨hfirst, hrest⟩ := List.forall_mem_cons.mp hcalls
    refine prompt_sequential.evalBind (frameMatches_prompt hfirst) fun found => ?_
    cases found with
    | false => exact ih hrest _
    | true =>
      exact prompt_sequential.evalBind prompt_ask fun _ => ih hrest _

lemma considers_prompt (hcalls : s.program.TestsCallNothing) (f) :
    Always (Only Request.Prompt) (considers s f) := by
  have htesting : Always (Only Request.Prompt) (testing s f) :=
    prompt_sequential.evalBind (dispatchFrame_prompt hcalls 0) fun _ =>
      prompt_sequential.evalBind prompt_ask fun _ =>
        prompt_sequential.evalPure _
  refine prompt_sequential.evalBind prompt_ask fun standing => ?_
  cases standing with
  | running => exact htesting
  | paused => exact prompt_sequential.evalPure _
  | stopped => exact htesting

end Prompt

namespace History

variable {H : History} {setting : Setting} {lines : List Line} {d : TaskId} {n : Nat}
  {limits : RunConfig} {bus : Bus} {writeTime : Nat}

lemma Drained.of_waiting (h : Session.Opened setting lines d (H.session 0))
    (hH : Session.Reachable limits bus writeTime (H.session 0))
    (hhandlers : setting.program.receiveHandlers ≠ []) (hcalls : setting.program.TestsCallNothing)
    (hwaiting : (H.session n).isWaiting) (hgoing : (H.bench n).isCancelled = false) :
    H.Drained n := by
  obtain ⟨q, hq, halong⟩ := exists_dispatcher h hH hhandlers hgoing
  obtain ⟨op, next, rfl, hanswer⟩ := (Session.isWaiting_iff hwaiting).2 _ hq
  rcases (halong.dispatching h hH hhandlers).of_request rfl with ⟨rfl, -⟩ |
      ⟨_, _, f, l, -, -, -, e, halong', he⟩
  · exact ⟨d, next, hq, hanswer⟩
  · obtain ⟨_, hreaches⟩ := halong'.reaches
    have hturn := (reachable hH n).turn_free_of_going hwaiting hgoing
    exact absurd hanswer (considers_prompt hcalls f l _ e hreaches op he _ d hturn)

end History

end CanScript
