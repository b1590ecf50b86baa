import CanScript.Proofs.Course
import CanScript.Proofs.Sending
import CanScript.Proofs.Turns

/-! # Writes to a port exclude each other

    A task claims a port before it writes there, and the port is its own until the write is over or
    the run was told to end.  So the time that a write takes lies between any two frames of one
    port, whatever tasks and runs they come from, while writes to different ports may overlap. -/

namespace CanScript

open List Regime Bench

/-- The frame that a task is sending: it asks for nothing but the time until it hands the frame to
    the bus, unless it is told to end. -/
def Process.sending? {α : Type} : Process α → Option Frame
  | .act (.transmit f) _ => some f
  | .act (.sleepUntil _ false) next => (next Waking.expired).sending?
  | .act .clock next => (next (0 : Nat)).sending?
  | .act .writeTime next => (next (0 : Nat)).sending?
  | _ => none

/-! ## How far a write is -/

/-- How far a task is with a write to a port that is its own. -/
inductive Grip where
  | claimed
  | timed (time : Nat)
  | begun (time now : Nat)
  | due (time now : Nat)

/-- The port to which a task is writing, if any, and how far it is. -/
abbrev Hold := Option (String × Grip)

/-- How far a task is after a reply.  Only a write makes its requests in this order. -/
def Hold.next (k : Hold) : (op : Request) → op.Reply → Hold
  | .claimPort port, true => some (port, .claimed)
  | .writeTime, time =>
    match k with
    | some (port, .claimed) => some (port, .timed time)
    | _ => none
  | .clock, now =>
    match k with
    | some (port, .timed time) => some (port, .begun time now)
    | _ => none
  | .sleepUntil deadline false, Waking.expired =>
    match k with
    | some (port, .begun time now) =>
      if deadline = now + time then some (port, .due time now) else none
    | _ => none
  | _, _ => none

def Hold.Allows (k : Hold) (op : Request) : Prop :=
  ∀ f, op = .transmit f → ∃ time now, k = some (f.port, .due time now)

def portUse : Regime Hold where
  allows := Hold.Allows
  after k op reply k' := k' = k.next op reply

def Process.Claims {α : Type} (p : Process α) : Prop :=
  ∀ k, portUse.Keeps (fun _ _ => True) k p

namespace Process.Claims

open Eval

lemma act {op} (hop : ∀ f, op ≠ .transmit f) : Answers Claims op :=
  fun _ _ hnext _ => Keeps.act (fun f heq => absurd heq (hop f)) fun reply k' _ => hnext reply k'

lemma write (f : Frame) : Always Claims (write f) := by
  have hleave : ∀ {α : Type} (x : Eval α) (l : Local), Claims (x.start l) →
      Claims ((do
        ask (.leaveClaim f.port)
        x : Eval α).start l) := by
    intro α x l hx k
    exact Keeps.act (fun g heq => by cases heq) fun _ k' _ => hx k'
  intro l k
  refine Keeps.act (fun g heq => by cases heq) fun going k₁ hk₁ => ?_
  cases going with
  | false => exact Keeps.pure trivial
  | true =>
    refine Keeps.act (fun g heq => by cases heq) fun time k₂ hk₂ =>
      Keeps.act (fun g heq => by cases heq) fun now k₃ hk₃ =>
      Keeps.act (fun g heq => by cases heq) fun waking k₄ hk₄ => ?_
    subst hk₁ hk₂ hk₃ hk₄
    cases waking with
    | expired =>
      refine Keeps.act (fun g heq => ?_) fun taken k₅ _ =>
        hleave (pure taken) l (fun _ => Keeps.pure trivial) k₅
      cases heq
      exact ⟨time, now, if_pos rfl⟩
    | paused | stopped =>
      exact hleave (throw .stopped) l (fun _ => Keeps.pure trivial) _

lemma temperate : Temperate Claims fun _ => True where
  pure _ _ := Keeps.pure trivial
  bind hp hf k := (hp k).bind fun k' a _ => hf a k'
  ask op hop := by
    refine act fun f heq => ?_
    subst heq
    exact hop
  write f _ := write f
  setGlobals bs := act fun f heq => by cases heq
  loop hround s k := Keeps.loop (I := fun _ _ => True)
    (fun k s _ => (hround s k).mono fun _ outcome _ => by cases outcome <;> trivial) trivial
  listen _ _ hnext := act (fun f heq => by cases heq) fun r => hnext r trivial
  unlisten r _ := act fun f heq => by cases heq
  nextFrame r _ deadline := act fun f heq => by cases heq

end Process.Claims

lemma Role.claims {setting p} (h : Role setting p) : p.Claims := by
  have htemperate := Process.Claims.temperate
  cases h with
  | main => exact htemperate.mainTask setting
  | forwarder port r =>
    exact htemperate.forwarder (.act fun f heq => by cases heq) (.act fun f heq => by cases heq)
      fun g => .act fun f heq => by cases heq
  | dispatcher r =>
    exact htemperate.dispatcher (fun i g => .act fun f heq => by cases heq)
      (.act fun f heq => by cases heq) setting
  | interval i _ => exact htemperate.intervalTask (.act fun f heq => by cases heq) setting _
  | activation a => exact htemperate.activationTask setting a

/-- Whoever is sending a frame is writing to its port. -/
lemma Process.holds_of_sending {α : Type} {p f} (h : p.sending? = some f) {Q : Hold → α → Prop} {k}
    (hp : portUse.Keeps Q k p) : ∃ grip, k = some (f.port, grip) := by
  induction p generalizing k with
  | pure a => cases h
  | iter body s next => cases h
  | act op next ih =>
    obtain ⟨hop, hnext⟩ := hp.of_act
    cases op with
    | transmit g =>
      obtain rfl := Option.some.inj h
      obtain ⟨time, now, hk⟩ := hop g rfl
      exact ⟨_, hk⟩
    | clock =>
      obtain ⟨grip, hk⟩ := ih (0 : Nat) h (hnext (0 : Nat) _ rfl)
      dsimp only [Hold.next] at hk
      split at hk
      · cases hk
        exact ⟨_, rfl⟩
      · cases hk
    | writeTime =>
      obtain ⟨grip, hk⟩ := ih (0 : Nat) h (hnext (0 : Nat) _ rfl)
      dsimp only [Hold.next] at hk
      split at hk
      · cases hk
        exact ⟨_, rfl⟩
      · cases hk
    | sleepUntil deadline heedPause =>
      cases heedPause with
      | true => cases h
      | false =>
        obtain ⟨grip, hk⟩ := ih Waking.expired h (hnext Waking.expired _ rfl)
        dsimp only [Hold.next] at hk
        split at hk
        · split at hk
          · cases hk
            exact ⟨_, rfl⟩
          · cases hk
        · cases hk
    | _ => cases h

/-! ## Whose a port is -/

namespace Bench

variable {b b' : Bench} {t u : TaskId} {port other : String} {op : Request}

lemma claimsOn_setClaims_ne (h : other ≠ port) (tasks) :
    (b.setClaims port tasks).claimsOn other = b.claimsOn other := by
  show (List.lookup other ((port, tasks) :: _)).getD [] = _
  rw [lookup_cons, beq_eq_false_iff_ne.mpr h, Bus.lookup_filter_ne h]
  rfl

lemma head_addClaim (h : (b.claimsOn port).head? = some u) :
    ((b.addClaim other t).claimsOn port).head? = some u := by
  unfold addClaim
  dsimp only
  split
  · exact h
  · by_cases heq : port = other
    · subst heq
      rw [claimsOn_setClaims, head?_append, h]
      rfl
    · rw [claimsOn_setClaims_ne heq]
      exact h

lemma head_dropClaim (h : (b.claimsOn port).head? = some u) (hkeeps : t = u → other ≠ port) :
    ((b.dropClaim other t).claimsOn port).head? = some u := by
  rw [dropClaim]
  by_cases heq : port = other
  · subst heq
    obtain ⟨rest, hrest⟩ := head?_eq_some_iff.mp h
    have hne : (u != t) := bne_iff_ne.mpr fun hut => hkeeps hut.symm rfl
    rw [claimsOn_setClaims, hrest, filter_cons_of_pos (p := (· != t)) hne]
    rfl
  · rw [claimsOn_setClaims_ne heq]
    exact h

lemma Change.claims_eq (h : Change t b op b') (hclaim : ∀ port, op ≠ .claimPort port)
    (hleave : ∀ port, op ≠ .leaveClaim port) : b'.claims = b.claims := by
  cases h with
  | @claims op port claims hop => exact (hop.elim (hclaim port) (hleave port)).elim
  | _ => rfl

lemma Change.writeTime_eq (h : Change t b op b') : b'.writeTime = b.writeTime := by
  cases h <;> rfl

lemma head_perform (h : (b.claimsOn port).head? = some u) (hkeeps : t = u →
      op ≠ .leaveClaim port ∧ (op = .claimPort port → b.isCancelled = false)) :
    ((b.perform t op).bench.claimsOn port).head? = some u := by
  have hchange := b.perform_change t op
  cases op with
  | claimPort other =>
    show ((b.claimPort t other).bench.claimsOn port).head? = some u
    rw [claimPort]
    by_cases hcancelled : b.isCancelled
    · rw [if_pos hcancelled]
      refine head_dropClaim h fun htu heq => ?_
      rw [(hkeeps htu).2 (by rw [heq])] at hcancelled
      cases hcancelled
    · rw [if_neg hcancelled]
      dsimp only
      split <;> exact head_addClaim h
  | leaveClaim other =>
    exact head_dropClaim h fun htu heq => (hkeeps htu).1 (by rw [heq])
  | _ =>
    rw [claimsOn, hchange.claims_eq (fun _ heq => by cases heq) fun _ heq => by cases heq]
    exact h

lemma claimPort_head {reply : Bool} (h : (b.claimPort t port).answer? = some (b', reply))
    (hreply : reply) : (b'.claimsOn port).head? = some t := by
  rw [claimPort] at h
  split at h
  · cases h
    cases hreply
  · dsimp only at h
    split at h
    · next hhead =>
        cases h
        exact hhead
    · cases h

def Past (b : Bench) : Prop :=
  ∀ f ∈ b.bus.sent, f.timestamp ≤ b.now

lemma Past.change (hpast : b.Past) (h : Change t b op b') : b'.Past := by
  intro f hf
  rw [h.now_eq]
  rcases h.sent with hsent | ⟨g, -, hsent⟩
  · exact hpast f (hsent ▸ hf)
  · rw [hsent] at hf
    rcases Array.mem_push.mp hf with hold | rfl
    · exact hpast f hold
    · exact Nat.le_refl _

end Bench

/-- What is true of a bench when a write to a port has come to a stage. -/
def Grip.Fits (port : String) (b : Bench) : Grip → Prop
  | claimed => True
  | timed time => time = b.writeTime
  | begun time now => time = b.writeTime ∧ ∀ f ∈ b.bus.sent, f.port = port → f.timestamp ≤ now
  | due time now => time = b.writeTime ∧ now + time ≤ b.now ∧
      ∀ f ∈ b.bus.sent, f.port = port → f.timestamp ≤ now

lemma Grip.Fits.mono {port b b'} {grip : Grip} (h : grip.Fits port b)
    (hsent : ∀ f ∈ b'.bus.sent, f.port = port → f ∈ b.bus.sent) (hnow : b.now ≤ b'.now)
    (htime : b'.writeTime = b.writeTime) : grip.Fits port b' := by
  cases grip with
  | claimed => trivial
  | timed time => exact h.trans htime.symm
  | begun time now => exact ⟨h.1.trans htime.symm, fun f hf hport => h.2 f (hsent f hf hport) hport⟩
  | due time now =>
    exact ⟨h.1.trans htime.symm, h.2.1.trans hnow,
      fun f hf hport => h.2.2 f (hsent f hf hport) hport⟩

/-- A task that is writing to a port is the one that the port belongs to. -/
structure Hold.Fits (k : Hold) (t : TaskId) (b : Bench) : Prop where
  past : b.Past
  own : ∀ port grip, k = some (port, grip) → (b.claimsOn port).head? = some t ∧ grip.Fits port b

namespace Hold.Fits

variable {k : Hold} {t u : TaskId} {b b' : Bench} {op : Request}

lemma of_bench (h : k.Fits t b) (hclaims : b'.claims = b.claims)
    (hsent : b'.bus.sent = b.bus.sent) (hnow : b.now ≤ b'.now)
    (htime : b'.writeTime = b.writeTime) : k.Fits t b' := by
  refine ⟨fun f hf => (h.past f (hsent ▸ hf)).trans hnow, fun port grip hk => ?_⟩
  obtain ⟨hhead, hstage⟩ := h.own port grip hk
  refine ⟨?_, hstage.mono (fun f hf _ => hsent ▸ hf) hnow htime⟩
  rw [claimsOn, hclaims]
  exact hhead

lemma of_other {k' : Hold} (h : k.Fits u b) (hne : t ≠ u) (ht : k'.Fits t b)
    (hop : k'.Allows op) : k.Fits u (b.perform t op).bench := by
  have hchange := b.perform_change t op
  refine ⟨h.past.change hchange, fun port grip hk => ?_⟩
  obtain ⟨hhead, hstage⟩ := h.own port grip hk
  refine ⟨head_perform hhead fun heq => absurd heq hne,
    hstage.mono (fun f hf hport => ?_) hchange.now_eq.ge hchange.writeTime_eq⟩
  rcases hchange.sent with hsent | ⟨g, hg, hsent⟩
  · exact hsent ▸ hf
  · rw [hsent] at hf
    rcases Array.mem_push.mp hf with hold | rfl
    · exact hold
    · obtain ⟨time, now, hk'⟩ := hop g hg
      have howner := (ht.own _ _ hk').1
      rw [show g.port = port from hport, hhead] at howner
      exact absurd (Option.some.inj howner).symm hne

end Hold.Fits

/-- How far a write is stays true as the task goes on. -/
lemma portUse_describes : portUse.Describes Hold.Fits where
  answered {k t b b' op reply} hfits _ hanswer := by
    have hchange := b.perform_change t op
    rw [Outcome.bench_of_answer hanswer] at hchange
    refine ⟨k.next op reply, rfl, hfits.past.change hchange, fun port grip hk => ?_⟩
    cases op with
    | claimPort other =>
      cases reply with
      | true =>
        cases hk
        exact ⟨claimPort_head hanswer rfl, trivial⟩
      | false => cases hk
    | writeTime =>
      dsimp only [Hold.next] at hk
      split at hk
      · cases hk
        cases hanswer
        exact ⟨(hfits.own _ _ rfl).1, rfl⟩
      · cases hk
    | clock =>
      dsimp only [Hold.next] at hk
      split at hk
      · cases hk
        cases hanswer
        obtain ⟨hhead, htime⟩ := hfits.own _ _ rfl
        exact ⟨hhead, htime, fun f hf _ => hfits.past f hf⟩
      · cases hk
    | sleepUntil deadline heedPause =>
      cases heedPause with
      | true => cases hk
      | false =>
        cases reply with
        | paused | stopped => cases hk
        | expired =>
          obtain ⟨rfl, ⟨hstopped, -⟩ | ⟨-, hdue⟩ | ⟨-, hheeds, -⟩⟩ :=
            sleepUntil_answer hanswer
          · cases hstopped
          · dsimp only [Hold.next] at hk
            split at hk
            · split at hk
              · next hdeadline =>
                  cases hk
                  obtain ⟨hhead, htime, hbefore⟩ := hfits.own _ _ rfl
                  exact ⟨hhead, htime, hdeadline ▸ hdue, hbefore⟩
              · cases hk
            · cases hk
          · cases hheeds
    | _ => cases hk
  waits {k t b op} hfits hwaits := by
    have hchange := b.perform_change t op
    refine ⟨hfits.past.change hchange, fun port grip hk => ?_⟩
    obtain ⟨hhead, hstage⟩ := hfits.own port grip hk
    refine ⟨head_perform hhead fun _ => ⟨?_, ?_⟩, hstage.mono (fun f hf _ => ?_)
      hchange.now_eq.ge hchange.writeTime_eq⟩
    · rintro rfl
      cases hwaits
    · rintro rfl
      rw [perform, claimPort] at hwaits
      by_cases hcancelled : b.isCancelled
      · rw [if_pos hcancelled] at hwaits
        cases hwaits
      · exact Bool.eq_false_iff.mpr hcancelled
    · rcases hchange.sent with hsent | ⟨g, rfl, -⟩
      · exact hsent ▸ hf
      · cases hwaits

/-! ## Sessions -/

namespace Session

variable {s s' : Session}

/-- Whoever is writing to a port has it for itself, and the time that a write takes lies between any
    two frames of a port. -/
structure Spaced (s : Session) : Prop where
  past : s.bench.Past
  tasks : ∀ task ∈ s.tasks, ∃ k : Hold, k.Fits task.id s.bench ∧
    portUse.Keeps (fun _ _ => True) k task.rest
  apart : s.bench.bus.sent.toList.Pairwise fun f g =>
    f.port = g.port → f.timestamp + s.bench.writeTime ≤ g.timestamp

lemma Spaced.of_bench (hs : s.Spaced) {b : Bench} (hclaims : b.claims = s.bench.claims)
    (hsent : b.bus.sent = s.bench.bus.sent) (hnow : s.bench.now ≤ b.now)
    (htime : b.writeTime = s.bench.writeTime) : Spaced ⟨b, s.tasks⟩ where
  past f hf := (hs.past f (hsent ▸ hf)).trans hnow
  tasks task hmem := by
    obtain ⟨k, hfits, hkeeps⟩ := hs.tasks task hmem
    exact ⟨k, hfits.of_bench hclaims hsent hnow htime, hkeeps⟩
  apart := by
    show b.bus.sent.toList.Pairwise _
    rw [hsent, htime]
    exact hs.apart

lemma Spaced.of_tasks (hs : s.Spaced) {tasks}
    (htasks : ∀ task ∈ tasks, task ∈ s.tasks ∨ task.rest.Claims) : Spaced ⟨s.bench, tasks⟩ where
  past := hs.past
  tasks task hmem := by
    rcases htasks task hmem with hold | hnew
    · exact hs.tasks task hold
    · exact ⟨none, ⟨hs.past, fun _ _ hk => by cases hk⟩, hnew none⟩
  apart := hs.apart

/-- What a task has come to is a request that it may make, or it goes on by itself. -/
lemma after_allowed {b : Bench} {t} {p : Process Unit} {k}
    (h : portUse.Keeps (fun _ _ => True) k p) :
    ∃ op, k.Allows op ∧ b.after t p = (b.perform t op).bench := by
  cases p with
  | pure a | iter body s next => exact ⟨.standing, (fun f heq => by cases heq), rfl⟩
  | act op next => exact ⟨op, h.of_act.1, rfl⟩

lemma Spaced.move {t} (hs : s.Spaced) (horderly : s.Orderly)
    (h : Step (some t) s s') : s'.Spaced := by
  obtain ⟨p, hp, hbench, -, -, hback⟩ := h.of_some horderly
  obtain ⟨k, hfits, hkeeps⟩ := hs.tasks _ hp
  obtain ⟨op, hop, hafter⟩ := after_allowed (b := s.bench) (t := t) hkeeps
  have hchange := s.bench.perform_change t op
  rw [← hafter, ← hbench] at hchange
  refine ⟨hs.past.change hchange, fun task hmem => ?_, ?_⟩
  · rcases hback task hmem with ⟨hold, hne⟩ | ⟨-, rfl⟩
    · obtain ⟨k', hfits', hkeeps'⟩ := hs.tasks task hold
      rw [hbench, hafter]
      exact ⟨k', hfits'.of_other (Ne.symm hne) hfits hop, hkeeps'⟩
    · rw [hbench]
      exact portUse_describes.move hfits hkeeps
  · rw [hchange.writeTime_eq]
    rcases hchange.sent with hsent | ⟨f, hf, hsent⟩
    · rw [hsent]
      exact hs.apart
    · -- the frame is due, and no frame was sent to its port since the write began
      obtain ⟨time, now, hk⟩ := hop f hf
      obtain ⟨-, htime, hdue, hbefore⟩ := hfits.own _ _ hk
      rw [hsent, Array.toList_push]
      refine pairwise_append.mpr ⟨hs.apart, pairwise_singleton _ _, fun g hg f' hf' hport => ?_⟩
      rw [mem_singleton.mp hf'] at hport ⊢
      have hg' := hbefore g (Array.mem_toList_iff.mp hg) hport
      show g.timestamp + _ ≤ s.bench.now
      omega

lemma Spaced.step {who} (hs : s.Spaced) (horderly : s.Orderly) (h : Step who s s') : s'.Spaced := by
  cases who with
  | some t => exact hs.move horderly h
  | none =>
    cases h with
    | spawn =>
      obtain ⟨processes, heq, hprocesses⟩ := startTasks_eq s
      rw [heq]
      have hadded := (hs.of_bench (b := (addTasks ⟨{ s.bench with spawned := [] }, s.tasks⟩
        processes).bench) rfl rfl (Nat.le_refl _) rfl)
      refine hadded.of_tasks fun task hmem => (mem_addTasks hmem).imp_right fun hnew => ?_
      obtain ⟨run, a, -, -, hrest⟩ := hprocesses _ hnew.2
      rw [hrest]
      exact (Role.activation a).claims
    | external hexternal =>
      have hapart := hexternal.apart
      have hsent := hexternal.sent
      obtain ⟨b, rfl, hb⟩ := hexternal.influence
      refine hs.of_bench hapart.claims hsent ?_ ?_
      · cases hb with
        | clock hnow => exact hnow
        | _ => exact Nat.le_refl _
      · cases hb <;> rfl

variable {limits : RunConfig} {bus : Bus} {writeTime : Nat}

lemma Reachable.spaced (h : Reachable limits bus writeTime s) (hbus : bus.sent = #[]) :
    s.Spaced := by
  refine h.invariant (P := Spaced) ⟨?_, ?_, ?_⟩
    (fun who s s' hreachable hstep hs => hs.step hreachable.disciplined.orderly hstep)
    (fun s hs => ?_) (fun s state log _ _ hs => hs.of_bench rfl rfl (Nat.le_refl _) rfl)
    fun s hbare hs program ports => ?_
  · intro f hf
    rw [show (ofLimits limits bus writeTime).bench.bus.sent = #[] from hbus] at hf
    exact absurd hf (Array.not_mem_empty f)
  · exact forall_mem_nil _
  · rw [show (ofLimits limits bus writeTime).bench.bus.sent = #[] from hbus]
    exact .nil
  · have hsent := clear_sent s
    refine ⟨fun f hf => hs.past f (hsent ▸ hf), forall_mem_nil _, ?_⟩
    rw [hsent]
    exact hs.apart
  · have hlaunched := launch_launched hbare program ports
    have hsent := launch_sent s program ports
    obtain ⟨bus, run, hub, nextTask, heq, -⟩ := launch_bench s program ports
    obtain ⟨events, hbegun⟩ := beginRun_eq s.bench (s.settingOf program ports)
    rw [hbegun] at heq
    refine (hs.of_bench (b := (s.launch program ports).1.bench) ?_ hsent ?_ ?_).of_tasks
      fun task hmem => .inr (hlaunched.roles task hmem).claims
    · rw [heq]
    · rw [heq]
    · rw [heq]

end Session

/-- The session of a script of which every send is still at work when the next one begins. -/
def overlappingSession : Session :=
  ((Session.ofLimits {} (.ofCapacity 16) 10).start "on_interval(5) \x7b send(1, 1) \x7d"
    ["can0", "can1"]).1.advance 47

lemma overlappingSession_reachable : Session.Reachable {} (.ofCapacity 16) 10 overlappingSession :=
  (Session.Reachable.init.start _ _).steps (Session.advance_steps _ _)

lemma overlappingSession_runs :
    (overlappingSession.tasks.filterMap (·.rest.sending?)).map Frame.port = ["can1", "can0"] ∧
    overlappingSession.bench.bus.sent.toList.map (fun f => (f.port, f.timestamp))
      = [("can0", 15), ("can1", 25), ("can0", 25), ("can1", 35), ("can0", 35), ("can1", 45),
        ("can0", 45)] := by
  decide +kernel

/-- Two tasks that send frames to one port at the same time are the same task, and the time that a
    write takes lies between any two frames of one port, whatever tasks send them, and whenever runs
    are started, paused, stopped and cleared away.  Frames are sent to different ports at the same
    time. -/
theorem writes_serialized {limits : RunConfig} {bus : Bus} {writeTime : Nat} {s : Session}
    (hs : Session.Reachable limits bus writeTime s) (hbus : bus.sent = #[]) :
    (∀ task ∈ s.tasks, ∀ other ∈ s.tasks, ∀ f g, task.rest.sending? = some f →
      other.rest.sending? = some g → f.port = g.port → task = other)
    ∧ (s.bench.bus.sent.toList.Pairwise fun f g =>
      f.port = g.port → f.timestamp + writeTime ≤ g.timestamp)
    ∧ ∃ s', Session.Reachable {} (.ofCapacity 16) 10 s' ∧
      (s'.tasks.filterMap (·.rest.sending?)).map Frame.port = ["can1", "can0"] := by
  have hspaced := hs.spaced hbus
  refine ⟨?_, ?_, overlappingSession, overlappingSession_reachable, overlappingSession_runs.1⟩
  · intro task htask other hother f g hf hg hport
    obtain ⟨k, hfits, hkeeps⟩ := hspaced.tasks task htask
    obtain ⟨k', hfits', hkeeps'⟩ := hspaced.tasks other hother
    obtain ⟨grip, hk⟩ := Process.holds_of_sending hf hkeeps
    obtain ⟨grip', hk'⟩ := Process.holds_of_sending hg hkeeps'
    have hhead := (hfits.own _ _ hk).1
    rw [hport, (hfits'.own _ _ hk').1] at hhead
    exact inj_on_of_nodup_map hs.disciplined.orderly.distinct htask hother
      (Option.some.inj hhead).symm
  · have htime : s.bench.writeTime = writeTime := congrArg (·.2.1) hs.constants
    rw [← htime]
    exact hspaced.apart

/-- Frames were sent to both ports all the while, and those to one port ten milliseconds apart. -/
theorem writes_serialized_overlapping :
    overlappingSession.bench.bus.sent.toList.map (fun f => (f.port, f.timestamp))
      = [("can0", 15), ("can1", 25), ("can0", 25), ("can1", 35), ("can0", 35), ("can1", 45),
        ("can0", 45)] ∧
    overlappingSession.bench.bus.sent.toList.Pairwise fun f g =>
      f.port = g.port → f.timestamp + 10 ≤ g.timestamp :=
  ⟨overlappingSession_runs.2, (writes_serialized overlappingSession_reachable rfl).2.1⟩

end CanScript
