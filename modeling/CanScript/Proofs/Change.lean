import CanScript.Session
import Mathlib.Tactic.Lemma

/-! # What a request changes

    Of the many things on a bench, one request of one task changes at most one or two.
    `Bench.Change` says which, and under what condition, once for all requests; what a request
    leaves alone is read off from it. -/

namespace CanScript

open List

/-! ## Readers of ports -/

variable {port : String} {r : ReaderId}

namespace Bus

/-- The readers of a port. -/
def readerIds (b : Bus) (port : String) : List ReaderId :=
  (b.channel port).readers.map Prod.fst

lemma lookup_filter_ne {κ α : Type} [BEq κ] [LawfulBEq κ] {key other} (h : other ≠ key)
    (ps : List (κ × α)) : (ps.filter fun p => p.1 != key).lookup other = ps.lookup other := by
  induction ps with
  | nil => rfl
  | cons p ps ih =>
    by_cases hp : p.1 = key
    · have hother : (other == p.1) = false := by
        rw [hp]
        exact beq_eq_false_iff_ne.mpr h
      rw [filter_cons_of_neg (by simpa using hp), ih, lookup_cons, hother]
    · rw [filter_cons_of_pos (by simpa using hp), lookup_cons, lookup_cons, ih]

lemma channel_setChannel_self (b : Bus) (port c) : (b.setChannel port c).channel port = c := by
  rw [channel, setChannel]
  rw [lookup_cons, beq_self_eq_true]
  rfl

variable {other : String}

lemma channel_setChannel_ne (b : Bus) (h : other ≠ port) (c : Channel Frame) :
    (b.setChannel port c).channel other = b.channel other := by
  have hne : (other == port) = false := beq_eq_false_iff_ne.mpr h
  unfold channel setChannel
  rw [lookup_cons, hne]
  dsimp only
  rw [lookup_filter_ne h]

lemma readerIds_setChannel {b : Bus} {c} (h : ∀ r ∈ c.readers.map Prod.fst, r ∈ b.readerIds port)
    (hr : r ∈ (b.setChannel port c).readerIds other) : r ∈ b.readerIds other := by
  by_cases hport : other = port
  · subst hport
    rw [readerIds, channel_setChannel_self] at hr
    exact h r hr
  · rw [readerIds, channel_setChannel_ne b hport] at hr
    exact hr

lemma readerIds_moveTo (c : Channel Frame) (r place) :
    (c.moveTo r place).readers.map Prod.fst = c.readers.map Prod.fst := by
  rw [Channel.moveTo]
  rw [map_map]
  refine map_congr_left fun p _ => ?_
  by_cases hp : p.1 = r
  · simp [hp]
  · simp [hp]

lemma readerIds_receive {b b' : Bus} {got}
    (h : b.receive? port r = some (got, b')) : ∃ channels, b' = { b with channels } ∧
    ∀ other r', r' ∈ b'.readerIds other → r' ∈ b.readerIds other := by
  obtain ⟨⟨got', c⟩, hc, heq⟩ := Option.map_eq_some_iff.mp h
  obtain ⟨rfl, rfl⟩ := Prod.mk.inj heq
  refine ⟨_, rfl, fun other r' => readerIds_setChannel ?_⟩
  -- Receiving only moves a reader on.
  rw [Channel.receive?] at hc
  split at hc
  · cases hc
  · obtain ⟨_, _, heq⟩ := Option.map_eq_some_iff.mp hc
    rw [← (Prod.mk.inj heq).2, readerIds_moveTo]
    exact fun _ hr => hr

lemma readerIds_unsubscribe {b : Bus} {r'} (h : r' ∈ (b.unsubscribe port r).readerIds other) :
    r' ∈ b.readerIds other := by
  refine readerIds_setChannel (fun r'' hr => ?_) h
  obtain ⟨p, hp, rfl⟩ := mem_map.mp hr
  exact mem_map_of_mem (mem_filter.mp hp).1

lemma readerIds_deliver (b : Bus) (f) (h : r ∈ (b.deliver f).readerIds other) :
    r ∈ b.readerIds other :=
  readerIds_setChannel (c := (b.channel f.port).send f) (fun _ hr => hr) h

lemma readerIds_write (b : Bus) (now f) (h : r ∈ (b.write now f).1.readerIds other) :
    r ∈ b.readerIds other := by
  rw [write] at h
  split at h
  · exact h
  · dsimp only at h
    split at h
    · exact readerIds_deliver { b with sent := _ } _ h
    · exact h

end Bus

/-! ## Changes -/

namespace Request

def published? : Request → Option Frame
  | publish f => some f
  | _ => none

def hubReader? : Request → Option ReaderId
  | receive (.hub r) => some r
  | nextFrame r _ => some r
  | unlisten r => some r
  | _ => none

def portReader? : Request → Option (String × ReaderId)
  | receive (.port port r) => some (port, r)
  | leavePort port r => some (port, r)
  | _ => none

end Request

namespace Outcome

variable {op : Request}

/-- The bench that an outcome leaves. -/
def bench : Outcome op → Bench
  | done b _ => b
  | yielded b _ => b
  | wait b => b

def answer? : Outcome op → Option (Bench × op.Reply)
  | done b reply => some (b, reply)
  | yielded b reply => some (b, reply)
  | wait _ => none

lemma bench_of_answer {outcome : Outcome op} {b reply}
    (h : outcome.answer? = some (b, reply)) : outcome.bench = b := by
  cases outcome with
  | done b' reply' | yielded b' reply' =>
    cases h
    rfl
  | wait b' => cases h

end Outcome

namespace Bench

variable (b : Bench) (t : TaskId) (op : Request)

/-- What a request makes of the hub. -/
inductive HubChange (b : Bench) : Request → Channel Frame → Prop where
  | nothing {op : Request} : op.published? = none → HubChange b op b.hub
  | listen : HubChange b .listen b.hub.subscribe.1
  | unlisten (r : ReaderId) : HubChange b (.unlisten r) (b.hub.unsubscribe r)
  | got {op : Request} {r got hub} :
      op.published? = none → op.hubReader? = some r → b.hub.receive? r = some (got, hub) →
      HubChange b op hub
  | publish (f : Frame) : HubChange b (.publish f) (b.hub.send f)

/-- What a request makes of the bus. -/
inductive BusChange (b : Bench) : Request → Bus → Prop where
  | nothing (op : Request) : BusChange b op b.bus
  | leave (port : String) (r : ReaderId) :
      BusChange b (.leavePort port r) (b.bus.unsubscribe port r)
  | got {op : Request} {port r got bus} :
      op.portReader? = some (port, r) → b.bus.receive? port r = some (got, bus) → BusChange b op bus
  | transmit (f : Frame) : BusChange b (.transmit f) (b.bus.write b.now f).1

/-- What a request of a task can make of a bench. -/
inductive Change (t : TaskId) (b : Bench) : Request → Bench → Prop where
  | nothing {op : Request} : op.published? = none → Change t b op b
  | takeTurn : b.turn = none → b.isCancelled = false → Change t b .acquire { b with turn := some t }
  | leaveTurn : b.turn = some t → Change t b .release { b with turn := none }
  | globals (globals : Bindings) : b.turn = some t →
      Change t b (.setGlobals globals) { b with globals }
  | frames {op hub channels} : HubChange b op hub → BusChange b op { b.bus with channels } →
      Change t b op { b with hub, bus := { b.bus with channels } }
  | transmit (f : Frame) : Change t b (.transmit f) { b with bus := (b.bus.write b.now f).1 }
  | claims {op : Request} {port} (claims : List (String × List TaskId)) :
      op = .claimPort port ∨ op = .leaveClaim port → Change t b op { b with claims }
  | report (d : Diagnostic) : Change t b (.report d) (b.report d)
  | print (text : String) :
      Change t b (.print text) { b with log := b.log.recordOutput b.runId? text }
  | entropy (seed : Nat) : Change t b .entropy { b with seed }
  | spawn (a : Activation) : b.isCancelled = false →
      Change t b (.spawn a) { b with spawned := b.spawned ++ [a] }
  | finish : Change t b .finish { b.cancel with
      state := if b.state.isActive then .stopped else b.state, log := b.finish.log }

lemma finish_eq : b.finish = { b.cancel with
    state := if b.state.isActive then .stopped else b.state, log := b.finish.log } := by
  rw [finish]
  dsimp only
  by_cases hactive : b.state.isActive
  · have hne : b.cancel.state ≠ .stopped := by
      intro hstopped
      rw [show b.state = .stopped from hstopped] at hactive
      exact Bool.false_ne_true hactive
    rw [if_pos hactive, if_pos (show b.cancel.state.isActive = true from hactive), setState,
      if_neg hne]
  · rw [if_neg hactive, if_neg (show ¬ b.cancel.state.isActive = true from hactive)]
    rfl

variable {b} in
lemma finish_of_inactive (h : b.state.isActive = false) : b.finish = b.cancel :=
  if_neg (Bool.eq_false_iff.mp h)

lemma Change.hub {t b op hub} (h : HubChange b op hub) : Change t b op { b with hub } :=
  .frames h (.nothing op)

lemma addClaim_change (port) : Change t b (.claimPort port) (b.addClaim port t) := by
  unfold addClaim
  dsimp only
  split
  · exact .nothing rfl
  · exact .claims _ (.inl rfl)

/-- A task that asks for the turn has it already, is told that the run is to end, gets it, or waits
    for the task that has it. -/
lemma acquire_cases : b.acquire t = .done b true ∧ b.turn = some t ∨
    b.acquire t = .done b false ∧ b.turn ≠ some t ∧ b.isCancelled ∨
    b.acquire t = .done { b with turn := some t } true ∧ b.turn = none ∧ b.isCancelled = false ∨
    b.acquire t = .wait b ∧ ∃ u, b.turn = some u ∧ u ≠ t := by
  rw [acquire]
  by_cases hown : b.turn = some t
  · exact .inl ⟨if_pos hown, hown⟩
  · rw [if_neg hown]
    cases hcancelled : b.isCancelled with
    | true => exact .inr (.inl ⟨rfl, hown, rfl⟩)
    | false =>
      cases hturn : b.turn with
      | none => exact .inr (.inr (.inl ⟨rfl, rfl, rfl⟩))
      | some u => exact .inr (.inr (.inr ⟨rfl, u, rfl, fun heq => hown (heq ▸ hturn)⟩))

lemma acquire_change : Change t b .acquire (b.acquire t).bench := by
  rcases b.acquire_cases t with ⟨heq, -⟩ | ⟨heq, -⟩ | ⟨heq, hfree, hgoing⟩ | ⟨heq, -⟩
  · rw [heq]
    exact .nothing rfl
  · rw [heq]
    exact .nothing rfl
  · rw [heq]
    exact .takeTurn hfree hgoing
  · rw [heq]
    exact .nothing rfl

lemma sleepUntil_change (deadline) (heedPause : Bool) :
    Change t b (.sleepUntil deadline heedPause) (b.sleepUntil deadline heedPause).bench := by
  rw [sleepUntil]
  simp only [apply_ite Outcome.bench]
  simp only [Outcome.bench, ite_self]
  exact .nothing rfl

variable {b} in
lemma standing_of_running (hgoing : b.isCancelled = false) (hpaused : b.isPaused = false) :
    b.standing = .running := by
  rw [standing, hgoing, hpaused]
  rfl

variable {b} in
lemma standing_of_paused (hgoing : b.isCancelled = false) (hpaused : b.isPaused) :
    b.standing = .paused := by
  rw [standing, hgoing, hpaused]
  rfl

/-- The replies to a wait for a frame.  At the end of the time that is one of them, and there may be
    others. -/
inductive Delivers (b : Bench) (r : ReaderId) (deadline : Nat) : Bench → Arrival → Prop where
  | stopped (h : b.isCancelled = true) : Delivers b r deadline b .stopped
  | expired (h : b.isCancelled = false) (hdue : deadline ≤ b.now) : Delivers b r deadline b .expired
  | paused (h : b.standing = .paused) : Delivers b r deadline b .paused
  | frame {f hub} (h : b.hub.receive? r = some (.item f, hub)) :
      Delivers b r deadline { b with hub } (.frame f)
  | lagged {missed hub} (h : b.hub.receive? r = some (.lagged missed, hub)) :
      Delivers b r deadline { b with hub } (.lagged missed)

/-- A wait for a frame is replied to, or the run goes on, the deadline lies ahead and nothing has
    arrived. -/
lemma nextFrame_cases (r deadline) :
    (∃ b' reply, b.nextFrame r deadline = .done b' reply ∧ b.Delivers r deadline b' reply) ∨
    b.nextFrame r deadline = .wait b ∧ b.standing = .running ∧ b.now < deadline ∧
      b.hub.receive? r = none := by
  rw [nextFrame]
  cases hgoing : b.isCancelled with
  | true => exact .inl ⟨b, _, rfl, .stopped hgoing⟩
  | false =>
    rw [if_neg Bool.false_ne_true]
    by_cases hfavoured : deadline ≤ b.now ∧ b.favoursTime
    · rw [if_pos hfavoured]
      exact .inl ⟨b, _, rfl, .expired hgoing hfavoured.1⟩
    · rw [if_neg hfavoured]
      cases hpaused : b.isPaused with
      | true => exact .inl ⟨b, _, rfl, .paused (standing_of_paused hgoing hpaused)⟩
      | false =>
        rw [if_neg Bool.false_ne_true]
        cases hreceived : b.hub.receive? r with
        | none =>
          by_cases hdue : deadline ≤ b.now
          · exact .inl ⟨b, _, if_pos hdue, .expired hgoing hdue⟩
          · exact .inr ⟨if_neg hdue, standing_of_running hgoing hpaused, Nat.lt_of_not_le hdue, rfl⟩
        | some got =>
          obtain ⟨received, hub⟩ := got
          cases received with
          | item f => exact .inl ⟨_, _, rfl, .frame hreceived⟩
          | lagged missed => exact .inl ⟨_, _, rfl, .lagged hreceived⟩

lemma nextFrame_change (r deadline) :
    Change t b (.nextFrame r deadline) (b.nextFrame r deadline).bench := by
  rcases b.nextFrame_cases r deadline with ⟨b', reply, heq, hdelivers⟩ | ⟨heq, -⟩
  · rw [heq]
    cases hdelivers with
    | frame h | lagged h => exact .hub (.got rfl rfl h)
    | _ => exact .nothing rfl
  · rw [heq]
    exact .nothing rfl

lemma receive?_change {b b' source got} (h : b.receive? source = some (got, b')) (t) :
    Change t b (.receive source) b' := by
  cases source with
  | port port r =>
    obtain ⟨⟨_, bus⟩, hgot, heq⟩ := Option.map_eq_some_iff.mp h
    obtain ⟨channels, rfl, -⟩ := Bus.readerIds_receive hgot
    cases heq
    exact .frames (.nothing rfl) (.got rfl hgot)
  | hub r =>
    obtain ⟨⟨_, hub⟩, hgot, heq⟩ := Option.map_eq_some_iff.mp h
    cases heq
    exact .hub (.got rfl rfl hgot)

lemma receive_change (source) : Change t b (.receive source) (b.receive source).bench := by
  rw [receive]
  split
  · exact .nothing rfl
  · cases hgot : b.receive? source with
    | none => exact .nothing rfl
    | some p => exact receive?_change hgot t

lemma claimPort_change (port) : Change t b (.claimPort port) (b.claimPort t port).bench := by
  rw [claimPort]
  split
  · exact .claims _ (.inl rfl)
  · dsimp only
    split <;> exact b.addClaim_change t port

/-- A request makes one of these changes, whether it is answered or has to wait. -/
lemma perform_change : Change t b op (b.perform t op).bench := by
  cases op with
  | acquire => exact b.acquire_change t
  | release =>
    show Change t b .release (if b.turn = some t then { b with turn := none } else b)
    by_cases hown : b.turn = some t
    · rw [if_pos hown]
      exact .leaveTurn hown
    · rw [if_neg hown]
      exact .nothing rfl
  | awaitRunning =>
    rw [perform]
    cases b.standing <;> exact .nothing rfl
  | sleepUntil deadline heedPause => exact b.sleepUntil_change t deadline heedPause
  | nextFrame r deadline => exact b.nextFrame_change t r deadline
  | receive source => exact b.receive_change t source
  | listen => exact .hub .listen
  | unlisten r => exact .hub (.unlisten r)
  | publish f => exact .hub (.publish f)
  | leavePort port r => exact .frames (.nothing rfl) (.leave port r)
  | setGlobals globals =>
    unfold perform
    dsimp only
    by_cases hown : b.turn = some t
    · rw [if_pos hown]
      exact .globals globals hown
    · rw [if_neg hown]
      exact .nothing rfl
  | spawn a =>
    show Change t b _ (if b.isCancelled then b else { b with spawned := b.spawned ++ [a] })
    by_cases hcancelled : b.isCancelled
    · rw [if_pos hcancelled]
      exact .nothing rfl
    · rw [if_neg hcancelled]
      exact .spawn a (Bool.eq_false_iff.mpr hcancelled)
  | claimPort port => exact b.claimPort_change t port
  | leaveClaim port => exact .claims _ (.inr rfl)
  | report d => exact .report d
  | print text => exact .print text
  | finish =>
    show Change t b _ b.finish
    rw [finish_eq]
    exact .finish
  | entropy => exact .entropy _
  | transmit f => exact .transmit f
  | standing | yield | clock | elapsed | globals | writeTime => exact .nothing rfl

def setting? (b : Bench) : Option Setting :=
  b.run.map (·.setting)

lemma isSome_setting? : b.setting?.isSome = b.run.isSome :=
  Option.isSome_map

lemma cancel_setting? : b.cancel.setting? = b.setting? := by
  unfold setting? cancel
  cases b.run <;> rfl

lemma cancel_runId? : b.cancel.runId? = b.runId? :=
  Option.map_map _ _ _

lemma cancel_isCancelled : b.cancel.isCancelled := by
  rw [isCancelled, cancel]
  cases b.run <;> rfl

variable {b t} in
lemma awaitRunning_answer {b'} {reply : Bool}
    (h : (b.perform t .awaitRunning).answer? = some (b', reply)) :
    b' = b ∧ (reply = false ∧ b.standing = .stopped ∨ reply ∧ b.standing = .running) := by
  rw [perform] at h
  cases hstanding : b.standing with
    (rw [hstanding] at h
     cases h)
  | stopped => exact ⟨rfl, .inl ⟨rfl, rfl⟩⟩
  | running => exact ⟨rfl, .inr ⟨rfl, rfl⟩⟩

namespace Change

variable {t u : TaskId} {b b' : Bench} {op : Request} (h : Change t b op b')

include h

lemma nextTask : b'.nextTask = b.nextTask := by
  cases h <;> rfl

lemma setting? : b'.setting? = b.setting? := by
  cases h with
  | finish => exact b.cancel_setting?
  | _ => rfl

lemma turn_of_other (hturn : b.turn = some u) (hne : u ≠ t) : b'.turn = some u := by
  cases h with
  | takeTurn hfree => exact absurd (hturn.symm.trans hfree) (Option.some_ne_none u)
  | leaveTurn hown => exact absurd (Option.some.inj (hturn.symm.trans hown)) hne
  | _ => exact hturn

lemma turn_of_own (hturn : b.turn = some t) (hop : op ≠ .release) : b'.turn = some t := by
  cases h with
  | takeTurn => rfl
  | leaveTurn => exact absurd rfl hop
  | _ => exact hturn

lemma turn_eq (hacquire : op ≠ .acquire) (hrelease : op ≠ .release) : b'.turn = b.turn := by
  cases h with
  | takeTurn => exact absurd rfl hacquire
  | leaveTurn => exact absurd rfl hrelease
  | _ => rfl

lemma standing_eq (hop : op ≠ .finish) :
    b'.standing = b.standing ∧ b'.isCancelled = b.isCancelled ∧ b'.state = b.state := by
  cases h with
  | finish => exact absurd rfl hop
  | _ => exact ⟨rfl, rfl, rfl⟩

lemma now_eq : b'.now = b.now := by
  cases h <;> rfl

lemma globals_eq (hop : ∀ globals, op ≠ .setGlobals globals) : b'.globals = b.globals := by
  cases h with
  | globals globals => exact absurd rfl (hop globals)
  | _ => rfl

lemma globals_of_other (hturn : b.turn = some u) (hne : u ≠ t) : b'.globals = b.globals := by
  cases h with
  | globals globals hown => exact absurd (Option.some.inj (hturn.symm.trans hown)) hne
  | _ => rfl

lemma isCancelled (hcancelled : b.isCancelled) : b'.isCancelled := by
  cases h with
  | finish => exact b.cancel_isCancelled
  | _ => exact hcancelled

lemma spawned_of_cancelled (hcancelled : b.isCancelled) : b'.spawned = b.spawned := by
  cases h with
  | spawn a hgoing => cases hgoing.symm.trans hcancelled
  | _ => rfl

lemma traffic : HubChange b op b'.hub ∧ BusChange b op b'.bus := by
  cases h with
  | nothing hop => exact ⟨.nothing hop, .nothing _⟩
  | claims _ hop => rcases hop with rfl | rfl <;> exact ⟨.nothing rfl, .nothing _⟩
  | frames hhub hbus => exact ⟨hhub, hbus⟩
  | transmit f => exact ⟨.nothing rfl, .transmit f⟩
  | _ => exact ⟨.nothing rfl, .nothing _⟩

lemma readerIds (hr : r ∈ b'.bus.readerIds port) : r ∈ b.bus.readerIds port := by
  have hbus := h.traffic.2
  generalize b'.bus = bus at hbus hr
  cases hbus with
  | nothing => exact hr
  | leave => exact Bus.readerIds_unsubscribe hr
  | got _ hgot =>
    obtain ⟨_, -, hreaders⟩ := Bus.readerIds_receive hgot
    exact hreaders port r hr
  | transmit f => exact Bus.readerIds_write b.bus b.now f hr

end Change

end Bench

def Request.Immediate (op : Request) (t : TaskId) : Prop :=
  ∀ b : Bench, (b.perform t op).answer? ≠ none

lemma Request.setGlobals_immediate (bs t) : (Request.setGlobals bs).Immediate t := by
  intro b
  rw [Bench.perform]
  split <;> exact Option.some_ne_none _

end CanScript
