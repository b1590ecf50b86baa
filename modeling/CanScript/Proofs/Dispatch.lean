import CanScript.Proofs.Opening
import CanScript.Proofs.Pause
import CanScript.Proofs.Sending

/-! # The dispatcher

    One task of a run takes the frames from the hub, one after another.  A frame that it takes while
    the run is paused is passed over, any other one is tested against all receive handlers in order,
    and an activation is started for each that it satisfies.  No other task starts activations for
    frames. -/

namespace CanScript

open List Eval Activation

/-! ## Its rounds -/

def testing (s : Setting) (f : Frame) : Eval (Unit ⊕ Unit) := do
  dispatchFrame s f 0 s.program.receiveHandlers
  release
  return .inl ()

def afterStanding (s : Setting) (f : Frame) : Standing → Eval (Unit ⊕ Unit)
  | .paused => return .inl ()
  | _ => testing s f

/-- What the dispatcher does with a frame that it has taken. -/
def considers (s : Setting) (f : Frame) : Eval (Unit ⊕ Unit) := do
  afterStanding s f (← ask .standing)

def afterReceipt (s : Setting) : Option (Received Frame) → Eval (Unit ⊕ Unit)
  | none => return .inr ()
  | some (.lagged _) => return .inl ()
  | some (.item f) => considers s f

def dispatching (s : Setting) (r : ReaderId) (l : Local) : Process Unit :=
  ((loop (fun _ => dispatchRound s r) ()).start l).bind fun _ => .pure ()

def nextRound (s : Setting) (r : ReaderId) : Except Interrupt (Unit ⊕ Unit) × Local → Process Unit
  | (.ok (.inl _), l) => dispatching s r l
  | _ => .pure ()

def awaiting (s : Setting) (r : ReaderId) (l : Local) : Process Unit :=
  .act (.receive (.hub r)) fun got => ((afterReceipt s got).start l).bind (nextRound s r)

lemma dispatcher_eq (s r) : dispatcher s r = dispatching s r {} := rfl

lemma dispatchRound_start (s r l) : (dispatchRound s r).start l
      = .act (.receive (.hub r)) fun got => (afterReceipt s got).start l := by
  show Process.act _ _ = Process.act _ _
  congr 1
  funext got
  rcases got with _ | ⟨f⟩ | ⟨n⟩
  · rfl
  · rfl
  · rfl

variable {f : Frame} {l l' : Local}

lemma afterStanding_of_ne {s} {standing : Standing} (h : standing ≠ .paused) :
    afterStanding s f standing = testing s f := by
  cases standing with
  | running => rfl
  | paused => exact absurd rfl h
  | stopped => rfl

lemma dispatching_step (s r l b t) : (dispatching s r l).step b t = awaiting s r l := by
  have hround : awaiting s r l = ((dispatchRound s r).start l).bind (nextRound s r) := by
    rw [dispatchRound_start]
    rfl
  rw [hround]
  show (((dispatchRound s r).start l).bind _).bind _ = _
  rw [Process.bind_assoc]
  congr 1
  funext result
  obtain ⟨result, l'⟩ := result
  rcases result with _ | ⟨_ | _⟩
  · rfl
  · rfl
  · rfl

lemma Bench.receive_cases (b : Bench) (t source) :
    (b.isCancelled ∧ (b.perform t (.receive source)).answer? = some (b, none)) ∨
    b.isCancelled = false ∧
      ((b.receive? source = none ∧ (b.perform t (.receive source)).answer? = none ∧
        (b.perform t (.receive source)).bench = b) ∨
      ∃ got b', b.receive? source = some (got, b') ∧
        (b.perform t (.receive source)).answer? = some (b', some got)) := by
  rw [perform, receive]
  cases hcancelled : b.isCancelled with
  | true => exact .inl ⟨rfl, rfl⟩
  | false =>
    refine .inr ⟨rfl, ?_⟩
    cases hgot : b.receive? source with
    | none => exact .inl ⟨rfl, rfl, rfl⟩
    | some got => exact .inr ⟨got.1, got.2, rfl, rfl⟩

lemma Bench.receive_waits {b : Bench} {t source}
    (h : (b.perform t (.receive source)).answer? = none) :
    b.isCancelled = false ∧ b.receive? source = none := by
  rcases b.receive_cases t source with
    ⟨-, hanswer⟩ | ⟨hgoing, ⟨hnone, -⟩ | ⟨_, _, -, hanswer⟩⟩
  · cases h.symm.trans hanswer
  · exact ⟨hgoing, hnone⟩
  · cases h.symm.trans hanswer

/-! ## Whose requests they are -/

namespace History

variable {H : History} {setting : Setting} {lines : List Line} {d t : TaskId} {n j : Nat}

lemma traffic_step (n) : ((H.bench (n + 1)).hub = (H.bench n).hub ∧ ∀ port r,
      ((H.bench n).bus.channel port).Grows (fun f => f.port = port) r
        ((H.bench (n + 1)).bus.channel port)) ∨
    ∃ t op, H.Makes t n op ∧ (H.bench n).HubChange op (H.bench (n + 1)).hub ∧
      (H.bench n).BusChange op (H.bench (n + 1)).bus := by
  cases hmover : H.mover n with
  | none => exact .inl (step_of hmover).traffic_of_none
  | some t =>
    rcases requested hmover with hsame | ⟨op, hmakes, hchange⟩
    · rw [hsame]
      exact .inl ⟨rfl, fun _ _ => .refl _⟩
    · exact .inr ⟨t, op, hmakes, hchange.traffic⟩

lemma hub_step (n) : (H.bench (n + 1)).hub = (H.bench n).hub ∨
    ∃ t op, H.Makes t n op ∧ (H.bench n).HubChange op (H.bench (n + 1)).hub := by
  rcases H.traffic_step n with ⟨hsame, -⟩ | ⟨t, op, hmakes, hchange, -⟩
  · exact .inl hsame
  · exact .inr ⟨t, op, hmakes, hchange⟩

lemma known_mono (hij : n ≤ j) : (H.bench n).hub.nextReader ≤ (H.bench j).hub.nextReader := by
  induction hij with
  | refl => exact le_rfl
  | @step m _ ih =>
    refine le_trans ih ?_
    rcases H.hub_step m with hsame | ⟨_, _, -, hchange⟩
    · exact (congrArg Channel.nextReader hsame.symm).le
    · exact hchange.known

lemma hub_grows (hij : n ≤ j) : ∃ more,
    (H.bench j).hub.history.toList = (H.bench n).hub.history.toList ++ more := by
  induction hij with
  | refl => exact ⟨[], (append_nil _).symm⟩
  | @step m _ ih =>
    obtain ⟨more, hmore⟩ := ih
    rcases H.hub_step m with hsame | ⟨_, op, -, hchange⟩
    · exact ⟨more, by rw [Nat.succ_eq_add_one, hsame, hmore]⟩
    · refine ⟨more ++ op.published?.toList, ?_⟩
      rw [Nat.succ_eq_add_one, hchange.history, hmore, append_assoc]

lemma size_mono (hij : n ≤ j) : (H.bench n).hub.history.size ≤ (H.bench j).hub.history.size := by
  obtain ⟨more, hmore⟩ := H.hub_grows hij
  rw [← Array.length_toList, ← Array.length_toList, hmore, length_append]
  exact Nat.le_add_right _ _

lemma frame_later {k : Nat} (hf : (H.bench n).hub.history[k]? = some f) (hij : n ≤ j) :
    (H.bench j).hub.history[k]? = some f := by
  obtain ⟨more, hmore⟩ := H.hub_grows hij
  rw [← Array.getElem?_toList] at hf ⊢
  rw [hmore, getElem?_append_left (List.getElem?_eq_some_iff.mp hf).1]
  exact hf

def OfDispatcher (setting : Setting) (r : ReaderId) : Prop :=
  r = 0 ∧ setting.program.receiveHandlers ≠ []

section Opened

variable (h : Session.Opened setting lines d (H.session 0))

include h

lemma reader_known {r} (hr : OfDispatcher setting r) (n) : r < (H.bench n).hub.nextReader := by
  obtain ⟨rfl, hhandlers⟩ := hr
  exact (h.dispatches hhandlers).2.2.trans_le (known_mono (Nat.zero_le n))

lemma dispatcher_or_courteous {q} (hq : H.Has t n q) :
    (t = d ∧ setting.program.receiveHandlers ≠ [] ∧ H.Along d 0 (dispatcher setting 0) n q) ∨
    q.Courteous (OfDispatcher setting) := by
  -- a task that begins courteous stays so
  have hstays : ∀ {i : Nat} {p : Process Unit}, H.Has t i p → p.Courteous (OfDispatcher setting) →
      H.Along t i p n q → q.Courteous (OfDispatcher setting) := by
    intro i p hp hcourteous halong
    rw [← Process.bind_pure p] at hp
    exact halong.abstains hp (fun m _ _ _ hU => lt_irrefl _ (reader_known h hU m)) hcourteous
  rcases hq.since (Nat.zero_le n) with ⟨p, hp, halong⟩ | ⟨m, setting', a, -, hset, hm, halong⟩
  · cases h.parts _ hp with
    | @forwards line hline => exact .inr (hstays hp (.forwarder (fun _ hop => hop) _ _) halong)
    | dispatches hhandlers => exact .inl ⟨rfl, hhandlers, halong⟩
    | executes _ hrest =>
      refine .inr (hstays hp ?_ halong)
      rcases hrest with hmain | ⟨i, handler, -, hinterval⟩
      · rw [show p = _ from hmain]
        exact (Process.Courteous.temperate _).mainTask setting
      · rw [show p = _ from hinterval]
        exact .intervalTask (fun _ hop => hop) setting i handler
  · exact .inr (hstays hm ((Process.Courteous.temperate _).activationTask setting' a) halong)

lemma dispatcher_of_reserved {op next} (hhas : H.Has t n (.act op next))
    (hop : op.Reserved (OfDispatcher setting)) : t = d ∧ setting.program.receiveHandlers ≠ [] ∧
      H.Along d 0 (dispatcher setting 0) n (.act op next) := by
  rcases dispatcher_or_courteous h hhas with hdispatcher | hcourteous
  · exact hdispatcher
  · exact absurd hop (Regime.Keeps.of_act hcourteous).1

end Opened

/-! ## What it asks for -/

section Asks

variable {α β : Type} {i m : Nat}

variable {x : Eval α} {g : α → Eval β} {op : Request}

lemma Asks.of_ask {op'} (h : H.Asks t i ((ask op).start l) j op') : op' = op := by
  obtain ⟨e, halong, he⟩ := h
  rcases halong.of_act with rfl | ⟨_, _, _, -, -, -, -, -, hover⟩
  · exact (Option.some.inj he).symm
  · exact absurd ⟨e, hover, he⟩ (not_asks_pure _ op')

lemma Along.of_evalBind {b} (h : H.Along t i ((x >>= g).start l) j (.pure (.ok b, l'))) :
    ∃ a m l1, H.Along t i (x.start l) m (.pure (.ok a, l1)) ∧
      H.Along t m ((g a).start l1) j (.pure (.ok b, l')) := by
  rcases h.of_bind with ⟨e, hgoing, -, heq⟩ | ⟨⟨result, l1⟩, m, hfirst, hsecond⟩
  · have hgoes := Process.isDone_bind hgoing fun r => ExceptT.bindCont g r.1 r.2
    cases (congrArg Process.isDone heq).trans hgoes
  · cases result with
    | ok a => exact ⟨a, m, l1, hfirst, hsecond⟩
    | error e => cases hsecond.eq_of_pure

lemma Has.first {k : Exit β → Process Unit} (h : H.Has t i (((x >>= g).start l).bind k)) :
    H.Has t i ((x.start l).bind fun r => Process.bind (ExceptT.bindCont g r.1 r.2) k) := by
  rw [← Process.bind_assoc]
  exact h

lemma Has.second {a} {k : Exit β → Process Unit} (h : H.Has t i (((x >>= g).start l).bind k))
    (hfirst : H.Along t i (x.start l) m (.pure (.ok a, l'))) :
    H.Has t m (((g a).start l').bind k) :=
  hfirst.has h.first

lemma Makes.asks {c e} {k : α → Process Unit} (h : H.Makes t n op) (hi : H.Has t i (c.bind k))
    (halong : H.Along t i c j e) (hin : i ≤ n) (hnj : n < j) : H.Asks t i c n op := by
  obtain ⟨hmover, next, hnext⟩ := h
  obtain ⟨e', halong', hgoing⟩ := halong.between hin hnj hmover
  refine ⟨e', halong', ?_⟩
  rw [← request?_bind hgoing k, (halong'.has hi).unique hnext]
  rfl

lemma Along.of_ask {reply} (h : H.Along t i ((ask op).start l) m (.pure (.ok reply, l'))) :
    ∃ n b, i ≤ n ∧ n < m ∧ H.mover n = some t ∧
      ((H.bench n).perform t op).answer? = some (b, reply) := by
  rcases h.of_act with hsame | ⟨n, b, reply', hin, hnm, hmover, hanswer, -, hover⟩
  · cases hsame
  · cases hover.eq_of_pure
    exact ⟨n, b, hin, hnm, hmover, hanswer⟩

end Asks

section Opened

variable (h : Session.Opened setting lines d (H.session 0)) {α : Type} {i : Nat} {op : Request}

include h

lemma asks_of_courteous {c} {k : α → Process Unit} (hi : H.Has t i (c.bind k))
    (hc : c.Courteous (OfDispatcher setting)) (hasks : H.Asks t i c j op) :
    ¬ op.Reserved (OfDispatcher setting) := by
  obtain ⟨e, halong, he⟩ := hasks
  have hkeeps := halong.abstains hi (fun m _ _ _ hU => lt_irrefl _ (reader_known h hU m)) hc
  cases e with
  | pure a => cases he
  | iter body s next => cases he
  | act op' next =>
    cases he
    exact (Regime.Keeps.of_act hkeeps).1

lemma dispatchFrame_asks {handlers} {k : Exit Unit → Process Unit}
    (hi : H.Has t i (((dispatchFrame setting f n handlers).start l).bind k))
    (hasks : H.Asks t i ((dispatchFrame setting f n handlers).start l) j op) :
    ¬ op.Reserved (OfDispatcher setting) ∨ ∃ a, op = .spawn (.receive a f) := by
  induction handlers generalizing n i l k with
  | nil => exact absurd hasks (not_asks_pure _ op)
  | cons handler rest ih =>
    rcases hasks.of_bind with htest | ⟨found, m, l', htest, hrest⟩
    · refine .inl (asks_of_courteous h hi.first ?_ htest)
      exact (Process.Courteous.temperate _).examines none handler.predicate f l
    · have hm := hi.second htest
      cases found with
      | false => exact ih hm hrest
      | true =>
        rcases hrest.of_bind with hspawn | ⟨_, m', l'', hspawn, hrest⟩
        · exact .inr ⟨n, hspawn.of_ask⟩
        · exact ih (hm.second hspawn) hrest

/-- Busy with a frame, the dispatcher asks for nothing that is left to it but activations for that
    frame, and for these only if it has found that the run is not paused. -/
lemma considers_asks {k} (hi : H.Has t i (((considers setting f).start l).bind k))
    (hasks : H.Asks t i ((considers setting f).start l) j op) :
    ¬ op.Reserved (OfDispatcher setting) ∨ (∃ a, op = .spawn (.receive a f)) ∧
      ∃ n, i ≤ n ∧ n < j ∧ (H.bench n).standing ≠ .paused := by
  rcases hasks.of_bind with hstanding | ⟨standing, m, l', hstanding, hrest⟩
  · refine .inl ?_
    rw [hstanding.of_ask]
    exact Request.Ordinary.not_reserved (show Request.Ordinary .standing from trivial)
  · obtain ⟨n, b, hin, hnm, -, hanswer⟩ := hstanding.of_ask
    cases hanswer
    have hm := hi.second hstanding
    have hmj : m ≤ j := by
      obtain ⟨e, halong, -⟩ := hrest
      exact halong.le
    by_cases hpaused : (H.bench n).standing = .paused
    · rw [hpaused] at hrest
      exact absurd hrest (not_asks_pure _ op)
    · rw [afterStanding_of_ne hpaused] at hrest hm
      rcases hrest.of_bind with hdispatch | ⟨_, m', l'', hdispatch, hrest⟩
      · refine (dispatchFrame_asks h hm.first hdispatch).imp_right fun hspawn => ?_
        exact ⟨hspawn, n, hin, hnm.trans_le hmj, hpaused⟩
      · rcases hrest.of_bind with hrelease | ⟨_, _, _, -, hover⟩
        · refine .inl ?_
          rw [hrelease.of_ask]
          exact Request.Ordinary.not_reserved (show Request.Ordinary .release from trivial)
        · exact absurd hover (not_asks_pure _ op)

end Opened

/-! ## Activations for frames -/

end History

def Activation.isReceive : Activation → Bool
  | .receive _ _ => true
  | .interval _ => false

lemma Bench.Change.spawned {t b b' op} (h : Change t b op b') : b'.spawned = b.spawned ∨
    ∃ a, op = .spawn a ∧ b.isCancelled = false ∧ b'.spawned = b.spawned ++ [a] := by
  cases h with
  | spawn a hgoing => exact .inr ⟨a, rfl, hgoing, rfl⟩
  | _ => exact .inl rfl

lemma Session.Step.spawned_of_none {s s'} (h : Step none s s') :
    s'.bench.spawned = s.bench.spawned ∨ s'.bench.spawned = [] := by
  cases h with
  | spawn =>
    obtain ⟨processes, heq, -⟩ := startTasks_eq s
    rw [heq]
    exact .inr rfl
  | external hexternal => exact .inl hexternal.apart.spawned

namespace History

variable {H : History} {setting : Setting} {lines : List Line} {d t : TaskId} {n i j : Nat}

variable (H)

/-- The activations that are started between a moment and the next. -/
def spawns (n : Nat) : List Activation :=
  (H.bench (n + 1)).spawned.drop (H.bench n).spawned.length

/-- The activations for frames that are started between a moment and the next. -/
def starts (n : Nat) : List Activation :=
  ((H.bench (n + 1)).spawned.drop (H.bench n).spawned.length).filter Activation.isReceive

/-- The activations for frames that were started before a moment. -/
def started (n : Nat) : List Activation :=
  (List.range n).flatMap H.starts

variable {H}

lemma started_succ (n : Nat) : H.started (n + 1) = H.started n ++ H.starts n := by
  rw [started, range_succ, flatMap_append, flatMap_singleton]
  rfl

lemma spawns_cases (n) : H.spawns n = [] ∨
    ∃ t a, H.Makes t n (.spawn a) ∧ (H.bench n).isCancelled = false ∧ H.spawns n = [a] := by
  have hsame : (H.bench (n + 1)).spawned = (H.bench n).spawned → H.spawns n = [] := by
    intro heq
    rw [spawns, heq, drop_length]
  cases hmover : H.mover n with
  | none =>
    rcases (step_of hmover).spawned_of_none with heq | hnone
    · exact .inl (hsame heq)
    · refine .inl ?_
      rw [spawns, show (H.bench (n + 1)).spawned = [] from hnone, drop_nil]
  | some t =>
    rcases requested hmover with hstill | ⟨op, hmakes, hchange⟩
    · exact .inl (hsame (by rw [hstill]))
    · rcases hchange.spawned with heq | ⟨a, rfl, hgoing, heq⟩
      · exact .inl (hsame heq)
      · exact .inr ⟨t, a, hmakes, hgoing, by rw [spawns, heq, drop_left]⟩

lemma spawns_of_spawn {a} (hmakes : H.Makes t n (.spawn a))
    (hgoing : (H.bench n).isCancelled = false) : H.spawns n = [a] := by
  obtain ⟨hmover, next, hnext⟩ := hmakes
  have hspawned : (H.bench (n + 1)).spawned = (H.bench n).spawned ++ [a] := by
    rw [(hnext.move hmover).1]
    show (if _ then _ else _ : Bench).spawned = _
    rw [if_neg (Bool.eq_false_iff.mp hgoing)]
  rw [spawns, hspawned, drop_left]

lemma starts_cases (n) : H.starts n = [] ∨
    ∃ t i f, H.Makes t n (.spawn (.receive i f)) ∧ (H.bench n).isCancelled = false ∧
      H.starts n = [.receive i f] := by
  rcases H.spawns_cases n with hnone | ⟨t, a, hmakes, hgoing, hone⟩
  · exact .inl (congrArg (List.filter isReceive) hnone)
  · have hstarts := congrArg (List.filter isReceive) hone
    cases a with
    | receive i f => exact .inr ⟨t, i, f, hmakes, hgoing, hstarts⟩
    | interval i => exact .inl hstarts

lemma starts_of_spawn {a} (hmakes : H.Makes t n (.spawn (.receive a f)))
    (hgoing : (H.bench n).isCancelled = false) : H.starts n = [.receive a f] :=
  congrArg (List.filter isReceive) (spawns_of_spawn hmakes hgoing)

lemma steady {β : Type} {F : Nat → β} (hij : i ≤ j)
    (h : ∀ n, i ≤ n → n < j → F (n + 1) = F n) : F j = F i := by
  induction hij with
  | refl => rfl
  | @step j hij ih =>
    rw [Nat.succ_eq_add_one, h j hij (Nat.lt_succ_self j)]
    exact ih fun n hin hnj => h n hin (Nat.lt_succ_of_lt hnj)

lemma started_eq (hij : i ≤ j) (h : ∀ n, i ≤ n → n < j → H.starts n = []) :
    H.started j = H.started i := by
  refine steady hij fun n hin hnj => ?_
  rw [started_succ, h n hin hnj, append_nil]

lemma going_before (hij : i ≤ j) (h : (H.bench j).isCancelled = false) :
    (H.bench i).isCancelled = false := by
  induction hij with
  | refl => exact h
  | step _ ih => exact ih (Bool.eq_false_iff.mpr fun hcancelled =>
    Bool.false_ne_true (h.symm.trans (cancelled_step hcancelled)))

lemma Along.idle_of_pure {α : Type} {a} {e : Process α} (h : H.Along t i (.pure a) j e) :
    H.Idle t i j := by
  intro n hin hnj hmover
  obtain ⟨e', halong, hgoing⟩ := h.between hin hnj hmover
  cases hgoing.symm.trans halong.isDone_of_pure

section Opened

variable (h : Session.Opened setting lines d (H.session 0)) {α : Type}

include h

lemma starts_eq_nil (hn : ∀ a f, ¬ H.Makes d n (.spawn (.receive a f))) : H.starts n = [] := by
  rcases H.starts_cases n with hnone | ⟨t, a, f, hmakes, -⟩
  · exact hnone
  · obtain ⟨-, next, hnext⟩ := id hmakes
    obtain ⟨rfl, -⟩ := dispatcher_of_reserved h hnext trivial
    exact absurd hmakes (hn a f)

lemma started_of_idle (hij : i ≤ j) (hidle : H.Idle d i j) : H.started j = H.started i :=
  started_eq hij fun n hin hnj => starts_eq_nil h fun _ _ hmakes => hidle n hin hnj hmakes.1

lemma started_of_courteous {c e} {k : α → Process Unit} (hi : H.Has d i (c.bind k))
    (hc : c.Courteous (OfDispatcher setting)) (halong : H.Along d i c j e) :
    H.started j = H.started i := by
  refine started_eq halong.le fun n hin hnj => starts_eq_nil h fun a f hmakes => ?_
  exact asks_of_courteous h hi hc (hmakes.asks hi halong hin hnj) trivial

lemma started_of_spawn {a} {k : Exit Unit → Process Unit}
    (hi : H.Has d i (((ask (.spawn (.receive a f))).start l).bind k))
    (halong : H.Along d i ((ask (.spawn (.receive a f))).start l) j (.pure (.ok (), l')))
    (hgoing : (H.bench j).isCancelled = false) : H.started j = H.started i ++ [.receive a f] := by
  rcases halong.head with ⟨hsame, -⟩ | ⟨n, hin, hnj, hidle, hmover, -, hover⟩
  · cases hsame
  · have hpure : ((ask (.spawn (.receive a f))).start l).step (H.bench n) d
        = .pure (.ok (), l) := rfl
    have hmakes : H.Makes d n (.spawn (.receive a f)) := by
      obtain ⟨e, halong', -⟩ := halong.between hin hnj hmover
      rcases halong'.head with ⟨rfl, -⟩ | ⟨m, him, hmn, -, hmover', -⟩
      · exact ⟨hmover, _, halong'.has hi⟩
      · exact absurd hmover' (hidle m him hmn)
    rw [hpure] at hover
    rw [started_of_idle h hnj hover.idle_of_pure, started_succ,
      starts_of_spawn hmakes (going_before hnj.le hgoing), started_of_idle h hin hidle]

variable (H) in
omit h in
def Tests (t : TaskId) (s : Setting) (predicate : Expr) (f : Frame) (i j : Nat) (v : Bool) : Prop :=
  ∃ l l' k, H.Has t i (((frameMatches s s.call none predicate f).start l).bind k) ∧
    H.Along t i ((frameMatches s s.call none predicate f).start l) j (.pure (.ok v, l'))

omit h in
lemma filter_range'_succ (n len first others) :
    (List.range' n (len + 1)).filter (fun a => if a = n then first else others a)
      = ([n].filter fun _ => first) ++ (List.range' (n + 1) len).filter others := by
  rw [range'_succ, ← singleton_append, filter_append]
  congr 1
  · exact filter_congr fun a ha => if_pos (mem_singleton.mp ha)
  · exact filter_congr fun a ha => if_neg (Nat.ne_of_gt (mem_range'_1.mp ha).1)

/-- A frame that was tested against some handlers has started an activation of each that it
    satisfies, one after another. -/
lemma started_of_dispatchFrame {handlers k}
    (hi : H.Has d i (((dispatchFrame setting f n handlers).start l).bind k))
    (halong : H.Along d i ((dispatchFrame setting f n handlers).start l) j (.pure (.ok (), l')))
    (hgoing : (H.bench j).isCancelled = false) :
    ∃ verdict : Nat → Bool, H.started j = H.started i ++
        ((List.range' n handlers.length).filter verdict).map (.receive · f) ∧
      ∀ a handler, handlers[a]? = some handler → ∃ p q, i ≤ p ∧ q ≤ j ∧
        H.Tests d setting handler.predicate f p q (verdict (n + a)) := by
  induction handlers generalizing n i l k with
  | nil =>
    refine ⟨fun _ => false, ?_, by simp⟩
    rw [started_of_idle h halong.le halong.idle_of_pure]
    exact (append_nil _).symm
  | cons handler rest ih =>
    obtain ⟨found, m, l1, htest, hrest⟩ := halong.of_evalBind
    have hcourteous : Process.Courteous (OfDispatcher setting)
        ((frameMatches setting setting.call none handler.predicate f).start l) :=
      (Process.Courteous.temperate _).examines none handler.predicate f l
    have hm := hi.second htest
    have hquiet := started_of_courteous h hi.first hcourteous htest
    -- the activation is started, if any, and the other handlers are next
    have hnext : ∃ m' l2, m ≤ m' ∧ m' ≤ j ∧
        H.Has d m' (((dispatchFrame setting f (n + 1) rest).start l2).bind k) ∧
        H.Along d m' ((dispatchFrame setting f (n + 1) rest).start l2) j (.pure (.ok (), l')) ∧
        H.started m' = H.started m ++ ([n].filter fun _ => found).map (.receive · f) := by
      cases found with
      | false => exact ⟨m, l1, le_rfl, hrest.le, hm, hrest, (append_nil _).symm⟩
      | true =>
        obtain ⟨_, m', l2, hspawn, hrest⟩ := hrest.of_evalBind
        exact ⟨m', l2, hspawn.le, hrest.le, hm.second hspawn, hrest,
          started_of_spawn h hm.first hspawn (going_before hrest.le hgoing)⟩
    obtain ⟨m', l2, hmm', hm'j, hm', hrest', hstarted⟩ := hnext
    obtain ⟨verdict, hall, htests⟩ := ih hm' hrest'
    refine ⟨fun a => if a = n then found else verdict a, ?_, fun a handler' ha => ?_⟩
    · rw [hall, hstarted, hquiet, append_assoc, ← map_append, length_cons, filter_range'_succ]
    · cases a with
      | zero =>
        cases ha
        refine ⟨i, m, le_rfl, hmm'.trans hm'j, l, l1, _, hi.first, ?_⟩
        dsimp only
        rw [if_pos (Nat.add_zero n)]
        exact htest
      | succ a =>
        obtain ⟨p, q, hp, hq, htest'⟩ := htests a handler' ha
        refine ⟨p, q, htest.le.trans (hmm'.trans hp), hq, ?_⟩
        dsimp only
        rw [if_neg (by omega), show n + (a + 1) = n + 1 + a by omega]
        exact htest'

/-- The frame that the dispatcher has taken was passed over because the run was paused, or tested
    against all handlers. -/
lemma started_of_considers {r k} (hi : H.Has d i (((considers setting f).start l).bind k))
    (halong : H.Along d i ((considers setting f).start l) j (.pure (.ok r, l')))
    (hgoing : (H.bench j).isCancelled = false) :
    ∃ verdict : Nat → Bool, H.started j = H.started i ++
        ((List.range setting.program.receiveHandlers.length).filter verdict).map (.receive · f) ∧
      ((∃ n, i ≤ n ∧ n < j ∧ (H.bench n).standing = .paused ∧ ∀ a, verdict a = false) ∨
        ∀ a handler, setting.program.receiveHandlers[a]? = some handler → ∃ p q, i ≤ p ∧ q ≤ j ∧
          H.Tests d setting handler.predicate f p q (verdict a)) := by
  obtain ⟨standing, m, l1, hstanding, hrest⟩ := halong.of_evalBind
  have hquiet := started_of_courteous h hi.first
    ((Process.Courteous.temperate _).request .standing trivial l) hstanding
  have hm := hi.second hstanding
  obtain ⟨n, b, hin, hnm, -, hanswer⟩ := hstanding.of_ask
  cases hanswer
  by_cases hpaused : (H.bench n).standing = .paused
  · rw [hpaused] at hrest
    refine ⟨fun _ => false, ?_, .inl ⟨n, hin, hnm.trans_le hrest.le, hpaused, fun _ => rfl⟩⟩
    rw [started_of_idle h hrest.le hrest.idle_of_pure, hquiet]
    simp
  · rw [afterStanding_of_ne hpaused] at hrest hm
    obtain ⟨_, m1, l2, hdispatch, hrest⟩ := hrest.of_evalBind
    obtain ⟨_, m2, l3, hrelease, hover⟩ := hrest.of_evalBind
    have hm1 := hm.second hdispatch
    obtain ⟨verdict, hstarted, htests⟩ :=
      started_of_dispatchFrame h hm.first hdispatch (going_before hrest.le hgoing)
    refine ⟨verdict, ?_, .inr fun a handler ha => ?_⟩
    · rw [started_of_idle h hover.le hover.idle_of_pure, started_of_courteous h hm1.first
        ((Process.Courteous.temperate _).request .release trivial l2) hrelease, hstarted, hquiet,
        range_eq_range']
    · obtain ⟨p, q, hp, hq, htest⟩ := htests a handler ha
      rw [Nat.zero_add] at htest
      exact ⟨p, q, hstanding.le.trans hp, hq.trans hrest.le, htest⟩

end Opened

end History

end CanScript
