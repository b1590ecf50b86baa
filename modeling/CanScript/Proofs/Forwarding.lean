import CanScript.Proofs.Visits

/-! # Frames on their way to the hub

    One task for each entry of the list of ports takes the frames that arrive on its port and puts
    them into the hub.  Each has a reader of its own, so a frame enters the hub once for each entry
    that names its port. -/

namespace CanScript

open List Process Option

/-! ## Forwarders -/

def afterFetch (port : String) (r : ReaderId) : Option (Received Frame) → Process Unit
  | none => .act (.leavePort port r) fun _ => .pure ()
  | some (.lagged _) => forwarder port r
  | some (.item f) => .act (.publish f) fun _ => forwarder port r

def fetching (port : String) (r : ReaderId) : Process Unit :=
  .act (.receive (.port port r)) fun got => afterFetch port r got

lemma forwarder_step (port r b t) : (forwarder port r).step b t = fetching port r := by
  show act _ _ = act _ _
  congr 1
  funext got
  rcases got with _ | ⟨f⟩ | ⟨n⟩
  · rfl
  · rfl
  · rfl

def Request.Transports (op : Request) : Prop :=
  op.published? ≠ none ∨ op.portReader? ≠ none

variable {op : Request}

lemma Request.Scripted.not_transports (h : op.Scripted) : ¬ op.Transports := by
  cases op with
  | receive source => exact h.elim
  | leavePort port r => exact h.elim
  | publish f => exact h.elim
  | _ =>
    rintro (hpublished | hreader)
    · exact hpublished rfl
    · exact hreader rfl

lemma Role.not_transports {setting p} (h : Role setting p)
    (hother : ∀ port r, p ≠ CanScript.forwarder port r) : p.Only fun op => ¬ op.Transports := by
  refine h.only (fun _ => Request.Scripted.not_transports)
    (fun port r heq => absurd heq (hother port r)) fun r _ => ?_
  rintro (hpublished | hreader)
  · exact hpublished rfl
  · exact hreader rfl

lemma forwarder_only (port r) :
    (forwarder port r).Only fun op => ∀ p, op.portReader? = some p → p = (port, r) := by
  rw [forwarder_eq]
  refine Process.Only.loop (fun _ => Process.Only.sequential.forwardRound (Process.Only.act ?_)
    (Process.Only.act ?_) fun f => Process.Only.act ?_) ()
  · exact fun p hp => (Option.some.inj hp).symm
  · exact fun p hp => (Option.some.inj hp).symm
  · intro p hp
    cases hp

lemma ne_forwarder {p} (h : p.request? ≠ none) (port r) : p ≠ forwarder port r := by
  rintro rfl
  exact h rfl

lemma mainTask_request? (s) : (mainTask s).request? ≠ none := by
  unfold mainTask
  cases s.program.statements with
  | nil | cons stmt rest => exact some_ne_none _

lemma Bench.BusChange.history {b bus} (h : BusChange b op bus) (port) :
    ∃ more, (bus.channel port).history.toList
      = (b.bus.channel port).history.toList ++ more ∧ ∀ f ∈ more, f.port = port := by
  -- it is made for one reader at most, so another one tells
  obtain ⟨r, hr⟩ : ∃ r, op.portReader? ≠ some (port, r) := by
    cases hreader : op.portReader? with
    | none => exact ⟨0, by simp⟩
    | some p =>
      refine ⟨p.2 + 1, fun heq => ?_⟩
      have hsecond : p.2 = p.2 + 1 := congrArg Prod.snd (Option.some.inj heq)
      exact Nat.ne_of_lt (Nat.lt_succ_self p.2) hsecond
  exact (h.grows hr).history

namespace History

variable {H : History} {setting : Setting} {lines : List Line} {line : Line} {d t : TaskId}
  {n j : Nat} {port : String} {limits : RunConfig} {bus : Bus} {writeTime : Nat}

/-! ## Frames that arrive -/

variable (H) in
/-- The frames that have arrived on a port since the first moment. -/
def arrived (port : String) (n : Nat) : List Frame :=
  ((H.bench n).bus.channel port).history.toList.drop
    ((H.bench 0).bus.channel port).history.size

lemma history_step (port n) : ∃ more,
    ((H.bench (n + 1)).bus.channel port).history.toList
      = ((H.bench n).bus.channel port).history.toList ++ more ∧ ∀ f ∈ more, f.port = port := by
  rcases H.traffic_step n with ⟨-, hgrows⟩ | ⟨_, _, -, -, hchange⟩
  · exact (hgrows port 0).history
  · exact hchange.history port

lemma history_eq (port n) : ((H.bench n).bus.channel port).history.toList
      = ((H.bench 0).bus.channel port).history.toList ++ H.arrived port n ∧
    ∀ f ∈ H.arrived port n, f.port = port := by
  obtain ⟨more, hmore, hport⟩ : ∃ more, ((H.bench n).bus.channel port).history.toList
      = ((H.bench 0).bus.channel port).history.toList ++ more ∧ ∀ f ∈ more, f.port = port := by
    induction n with
    | zero => exact ⟨[], (append_nil _).symm, forall_mem_nil _⟩
    | succ n ih =>
      obtain ⟨more, hmore, hport⟩ := ih
      obtain ⟨more', hmore', hport'⟩ := H.history_step port n
      refine ⟨more ++ more', ?_, forall_mem_append.mpr ⟨hport, hport'⟩⟩
      rw [hmore', hmore, append_assoc]
  -- what has arrived is whatever was added
  have hadded : H.arrived port n = more := by
    rw [arrived, hmore, ← Array.length_toList, drop_left]
  rw [hadded]
  exact ⟨hmore, hport⟩

lemma arrived_succ {more} (h : ((H.bench (n + 1)).bus.channel port).history.toList
    = ((H.bench n).bus.channel port).history.toList ++ more) :
    H.arrived port (n + 1) = H.arrived port n ++ more := by
  rw [(H.history_eq port n).1, (H.history_eq port (n + 1)).1, append_assoc] at h
  exact append_cancel_left h

lemma arrived_mono (port) (hnj : n ≤ j) : H.arrived port n <+: H.arrived port j := by
  induction hnj with
  | refl => exact prefix_refl _
  | @step m _ ih =>
    obtain ⟨more, hmore, -⟩ := H.history_step port m
    rw [Nat.succ_eq_add_one, arrived_succ hmore]
    exact ih.trans (prefix_append _ _)

lemma arrived_of_inject {f} (h : H.session (n + 1) = ((H.session n).inject f).1) (port) :
    H.arrived port (n + 1) = H.arrived port n ++ if port = f.port then
        [if f.timestamp = 0 then { f with timestamp := (H.bench n).now } else f]
      else [] := by
  refine arrived_succ ?_
  have hbus : (H.bench (n + 1)).bus = ((H.bench n).bus.inject (H.bench n).now f).1 := by
    rw [bench, h]
    rfl
  have hport : (if f.timestamp = 0 then { f with timestamp := (H.bench n).now } else f).port
      = f.port := by
    split <;> rfl
  rw [hbus, Bus.inject]
  generalize (if f.timestamp = 0 then { f with timestamp := (H.bench n).now } else f) = g at hport ⊢
  dsimp only
  rw [Bus.deliver, hport]
  by_cases hsame : port = f.port
  · rw [if_pos hsame, hsame, Bus.channel_setChannel_self]
    exact Array.toList_push
  · rw [if_neg hsame, Bus.channel_setChannel_ne _ hsame, append_nil]

/-! ## Frames that are put into the hub -/

variable (H) in
def puts (t : TaskId) (n : Nat) : List Frame :=
  if H.mover n = some t then
    (H.bench (n + 1)).hub.history.toList.drop (H.bench n).hub.history.size
  else []

variable (H) in
def putBy (t : TaskId) (n : Nat) : List Frame :=
  (List.range n).flatMap (H.puts t)

lemma putBy_succ (t n) : H.putBy t (n + 1) = H.putBy t n ++ H.puts t n := by
  rw [putBy, range_succ, flatMap_append, flatMap_singleton]
  rfl

lemma putBy_of_ne (h : H.mover n ≠ some t) : H.putBy t (n + 1) = H.putBy t n := by
  rw [putBy_succ, puts, if_neg h, append_nil]

lemma hub_of_move {p} (hp : H.Has t n p) (hmover : H.mover n = some t) :
    (H.bench (n + 1)).hub.history.toList
      = (H.bench n).hub.history.toList ++ (p.request?.bind Request.published?).toList := by
  rw [(hp.move hmover).1]
  cases p with
  | pure a | iter body s next => exact (append_nil _).symm
  | act op next => exact ((H.bench n).perform_change t op).traffic.1.history

lemma puts_of_move {p} (hp : H.Has t n p) (hmover : H.mover n = some t) :
    H.puts t n = (p.request?.bind Request.published?).toList := by
  rw [puts, if_pos hmover, hub_of_move hp hmover, ← Array.length_toList, drop_left]

lemma hub_succ (n) : (H.bench (n + 1)).hub.history.toList = (H.bench n).hub.history.toList ∨
    ∃ t f, H.Makes t n (.publish f) ∧ H.puts t n = [f] ∧
      (H.bench (n + 1)).hub.history.toList = (H.bench n).hub.history.toList ++ [f] := by
  rcases H.hub_step n with hsame | ⟨t, op, hmakes, hchange⟩
  · exact .inl (by rw [hsame])
  · obtain ⟨hmover, next, hnext⟩ := id hmakes
    have hhub := hub_of_move hnext hmover
    have hputs := puts_of_move hnext hmover
    cases op with
    | publish f => exact .inr ⟨t, f, hmakes, hputs, hhub⟩
    | _ => exact .inl (hhub.trans (append_nil _))

section Opened

variable (h : Session.Opened setting lines d (H.session 0))

include h

lemma line_of_transport {next} (hnext : H.Has t n (.act op next)) (hop : op.Transports) :
    ∃ line ∈ lines, t = line.task ∧
      H.Along t 0 (forwarder line.port line.reader) n (.act op next) := by
  have hnone : ∀ {setting : Setting} {i : Nat} {p : Process Unit}, Role setting p →
      (∀ port r, p ≠ forwarder port r) → ¬ H.Along t i p n (.act op next) := by
    intro setting i p hrole hother halong
    obtain ⟨_, hreaches⟩ := halong.reaches
    exact hrole.not_transports hother _ _ hreaches op rfl hop
  rcases hnext.since (Nat.zero_le n) with ⟨p, hp, halong⟩ | ⟨m, setting', a, -, -, -, halong⟩
  · cases h.parts _ hp with
    | @forwards line hline => exact ⟨line, hline, rfl, halong⟩
    | dispatches _ =>
      refine absurd halong (hnone (.dispatcher 0) fun port r heq => ?_)
      -- they make different requests when they begin
      have hfirst := congrArg (fun p => (p.step (H.bench 0) d).request?) heq
      rw [dispatcher_eq, dispatching_step, forwarder_step] at hfirst
      cases hfirst
    | executes _ hrest =>
      rcases hrest with hmain | ⟨i, handler, hmem, hinterval⟩
      · rw [show p = _ from hmain] at halong
        exact absurd halong (hnone .main (ne_forwarder (mainTask_request? setting)))
      · rw [show p = _ from hinterval] at halong
        exact absurd halong (hnone (.interval i hmem) (ne_forwarder (some_ne_none _)))
  · exact absurd halong (hnone (.activation a) (ne_forwarder (some_ne_none _)))

lemma task_of_reader (hline : line ∈ lines) {next} (hnext : H.Has t n (.act op next))
    (hreader : op.portReader? = some (line.port, line.reader)) : t = line.task := by
  obtain ⟨line', hline', rfl, halong⟩ :=
    line_of_transport h hnext (.inr (by rw [hreader]; exact some_ne_none _))
  obtain ⟨_, hreaches⟩ := halong.reaches
  have hsame := forwarder_only line'.port line'.reader _ _ hreaches op rfl _ hreader
  rw [inj_on_of_nodup_map h.readers hline hline' hsame]

lemma reader_grows (hline : line ∈ lines)
    (hn : ∀ op, H.Makes line.task n op → op.portReader? ≠ some (line.port, line.reader)) :
    ((H.bench n).bus.channel line.port).Grows (fun f => f.port = line.port) line.reader
      ((H.bench (n + 1)).bus.channel line.port) := by
  rcases H.traffic_step n with ⟨-, hgrows⟩ | ⟨t, op, hmakes, -, hchange⟩
  · exact hgrows _ _
  · refine hchange.grows fun hreader => ?_
    obtain ⟨-, next, hnext⟩ := id hmakes
    cases task_of_reader h hline hnext hreader
    exact hn op hmakes hreader

/-! ## Where a forwarder is -/

variable (H) in
omit h in
def PassedOn (line : Line) (j : Nat) (hand : List Frame) : Prop :=
  (H.bench j).isCancelled = false → ∃ k,
    ((H.bench j).bus.channel line.port).place? line.reader
      = some (((H.bench 0).bus.channel line.port).history.size + k) ∧
    ((∀ n, n < j → ¬ H.Overruns n) → k ≤ (H.arrived line.port j).length ∧
      H.putBy line.task j ++ hand = (H.arrived line.port j).take k)

variable (H) in
omit h in
/-- Where a forwarder is at a moment: before a round, at its request for a frame, with a frame in
    hand, about to leave its port, or at its end. -/
inductive Forwarding (line : Line) : Nat → Process Unit → Prop where
  | between {j : Nat} : H.PassedOn line j [] → Forwarding line j (forwarder line.port line.reader)
  | awaits {j : Nat} : H.PassedOn line j [] → Forwarding line j (fetching line.port line.reader)
  | holds {j : Nat} {f : Frame} : f.port = line.port → H.PassedOn line j [f] →
      Forwarding line j (.act (.publish f) fun _ => forwarder line.port line.reader)
  | leaves {j : Nat} : (H.bench j).isCancelled = true →
      Forwarding line j (.act (.leavePort line.port line.reader) fun _ => .pure ())
  | ended {j : Nat} : (H.bench j).isCancelled = true → Forwarding line j (.pure ())

omit h in
lemma PassedOn.later {hand hand'} (hs : H.PassedOn line n hand)
    (hgrows : ((H.bench n).bus.channel line.port).Grows (fun f => f.port = line.port) line.reader
      ((H.bench (n + 1)).bus.channel line.port))
    (hputs : H.putBy line.task (n + 1) ++ hand' = H.putBy line.task n ++ hand) :
    H.PassedOn line (n + 1) hand' := by
  intro hgoing
  obtain ⟨k, hplace, hrest⟩ := hs (going_before (Nat.le_succ n) hgoing)
  refine ⟨k, hgrows.place.trans hplace, fun hlossless => ?_⟩
  obtain ⟨hk, heq⟩ := hrest fun m hm => hlossless m (Nat.lt_succ_of_lt hm)
  obtain ⟨more, hmore, -⟩ := hgrows.history
  rw [arrived_succ hmore, hputs, heq, take_append_of_le_length hk, length_append]
  exact ⟨Nat.le_add_right_of_le hk, rfl⟩

omit h in
/-- What a forwarder gets from its port when it asks. -/
lemma PassedOn.fetch {got b} (hs : H.PassedOn line n [])
    (hmakes : H.Makes line.task n (.receive (.port line.port line.reader)))
    (hgot : (H.bench n).receive? (.port line.port line.reader) = some (got, b))
    (hbench : H.bench (n + 1) = b) (hgoing : (H.bench n).isCancelled = false) :
    (∃ missed, got = .lagged missed ∧ (H.Overruns n → H.PassedOn line (n + 1) [])) ∨
    ∃ f, got = .item f ∧ f.port = line.port ∧ H.PassedOn line (n + 1) [f] := by
  obtain ⟨⟨got', bus⟩, hbus, heq⟩ := map_eq_some_iff.mp hgot
  cases heq
  obtain ⟨⟨got', c⟩, hc, heq⟩ := map_eq_some_iff.mp hbus
  cases heq
  obtain ⟨k, hplace, hrest⟩ := hs hgoing
  have hchannel : (H.bench (n + 1)).bus.channel line.port = c := by
    rw [hbench]
    exact Bus.channel_setChannel_self _ _ _
  obtain ⟨place, hplace', hhistory, -, hgets⟩ := Channel.receive?_place hc
  cases hplace.symm.trans hplace'
  have harrived : H.arrived line.port (n + 1) = H.arrived line.port n := by
    rw [arrived, hchannel, hhistory]
    rfl
  have hputs : H.putBy line.task (n + 1) = H.putBy line.task n := by
    obtain ⟨hmover, next, hnext⟩ := id hmakes
    rw [putBy_succ, puts_of_move hnext hmover]
    exact append_nil _
  rcases hgets with ⟨missed, place', rfl, hlt, -, hmoved⟩ | ⟨f, rfl, hframe, hmoved⟩
  · refine .inl ⟨missed, rfl, fun hoverruns _ => ?_⟩
    obtain ⟨more, rfl⟩ := Nat.exists_eq_add_of_le hlt.le
    refine ⟨k + more, ?_, fun hlossless => absurd hoverruns (hlossless n (Nat.lt_succ_self n))⟩
    rw [hchannel, hmoved, Nat.add_assoc]
  · have hnext : (H.arrived line.port n)[k]? = some f := by
      rw [← Array.getElem?_toList, (H.history_eq line.port n).1, ← Array.length_toList,
        getElem?_append_right (Nat.le_add_right _ _), Nat.add_sub_cancel_left] at hframe
      exact hframe
    refine .inr ⟨f, rfl, (H.history_eq line.port n).2 f (mem_of_getElem? hnext), fun _ => ?_⟩
    refine ⟨k + 1, ?_, fun hlossless => ?_⟩
    · rw [hchannel, hmoved, Nat.add_assoc]
    · obtain ⟨-, heq⟩ := hrest fun m hm => hlossless m (Nat.lt_succ_of_lt hm)
      rw [append_nil] at heq
      rw [harrived, hputs, heq, take_add_one, hnext]
      exact ⟨(List.getElem?_eq_some_iff.mp hnext).1, rfl⟩

namespace Forwarding

variable {p : Process Unit}

lemma stay (hline : line ∈ lines) (hp : H.Forwarding line n p)
    (hmover : H.mover n ≠ some line.task) : H.Forwarding line (n + 1) p := by
  have hlater : ∀ {hand : List Frame}, H.PassedOn line n hand → H.PassedOn line (n + 1) hand := by
    intro hand hs
    refine hs.later (reader_grows h hline fun _ hmakes => absurd hmakes.1 hmover) ?_
    rw [putBy_of_ne hmover]
  cases hp with
  | between hs => exact .between (hlater hs)
  | awaits hs => exact .awaits (hlater hs)
  | holds hport hs => exact .holds hport (hlater hs)
  | leaves hcancelled => exact .leaves (cancelled_step hcancelled)
  | ended hcancelled => exact .ended (cancelled_step hcancelled)

lemma move (hline : line ∈ lines) (hp : H.Forwarding line n p) (hhas : H.Has line.task n p)
    (hmover : H.mover n = some line.task) :
    H.Forwarding line (n + 1) (p.step (H.bench n) line.task) := by
  have hbench := (hhas.move hmover).1
  have hputs := puts_of_move hhas hmover
  cases hp with
  | between hs =>
    rw [forwarder_step]
    refine .awaits (hs.later (reader_grows h hline ?_) ?_)
    · rintro op ⟨-, next, hnext⟩
      cases hhas.unique hnext
    · rw [putBy_succ, hputs]
      exact congrArg (· ++ _) (append_nil _)
  | awaits hs =>
    have hmakes : H.Makes line.task n (.receive (.port line.port line.reader)) :=
      ⟨hmover, _, hhas⟩
    rcases (H.bench n).receive_cases line.task (.port line.port line.reader) with
      ⟨hcancelled, hanswer⟩ | ⟨hgoing, ⟨-, hanswer, hsame⟩ | ⟨got, b, hgot, hanswer⟩⟩
    · rw [fetching, step_of_answer hanswer]
      exact .leaves (cancelled_step hcancelled)
    · have hkept : H.bench (n + 1) = H.bench n := hbench.trans hsame
      rw [fetching, step_of_wait hanswer]
      refine .awaits (hs.later (hkept ▸ .refl _) ?_)
      rw [putBy_succ, hputs]
      exact congrArg (· ++ _) (append_nil _)
    · rw [fetching, step_of_answer hanswer]
      have hafter : H.bench (n + 1) = b := hbench.trans (Outcome.bench_of_answer hanswer)
      rcases hs.fetch hmakes hgot hafter hgoing with
        ⟨missed, rfl, hlagged⟩ | ⟨f, rfl, hport, hitem⟩
      · exact .between (hlagged ⟨_, _, _, missed, hmakes, hanswer⟩)
      · exact .holds hport hitem
  | @holds f hport hs =>
    refine .between (hs.later (reader_grows h hline ?_) ?_)
    · rintro op ⟨-, next, hnext⟩
      cases hhas.unique hnext
      intro hreader
      cases hreader
    · rw [putBy_succ, hputs, append_nil]
      rfl
  | leaves hcancelled | ended hcancelled => exact .ended (cancelled_step hcancelled)

end Forwarding

lemma Along.forwarding (hline : line ∈ lines) {q}
    (halong : H.Along line.task 0 (forwarder line.port line.reader) n q) :
    H.Forwarding line n q := by
  have hbegins : H.Has line.task 0 (forwarder line.port line.reader) := h.forwarders line hline
  induction halong with
  | start => exact .between fun _ => ⟨0, h.ready line hline, fun _ => ⟨Nat.zero_le _, rfl⟩⟩
  | stay _ hmover ih => exact ih.stay h hline hmover
  | move hq hmover _ ih => exact ih.move h hline (hbegins.along hq) hmover

lemma exists_forwarder (hline : line ∈ lines) (hgoing : (H.bench n).isCancelled = false) :
    ∃ q, H.Has line.task n q ∧ H.Along line.task 0 (forwarder line.port line.reader) n q := by
  have hbegins : H.Has line.task 0 (forwarder line.port line.reader) := h.forwarders line hline
  refine hbegins.persists (Nat.zero_le n) fun m q hmn halong => ?_
  cases halong.forwarding h hline with
  | between hs => rfl
  | awaits hs => rfl
  | holds hport hs => rfl
  | leaves hcancelled => rfl
  | ended hcancelled =>
    have hearlier := going_before hmn.le hgoing
    cases hearlier.symm.trans hcancelled

lemma putBy_of_waiting (hline : line ∈ lines) (hwaiting : (H.session n).isWaiting)
    (hgoing : (H.bench n).isCancelled = false) (hlossless : ∀ m, m < n → ¬ H.Overruns m) :
    H.putBy line.task n = H.arrived line.port n := by
  obtain ⟨q, hq, halong⟩ := exists_forwarder h hline hgoing
  obtain ⟨op, next, rfl, hanswer⟩ := (Session.isWaiting_iff hwaiting).2 _ hq
  have hpoint := halong.forwarding h hline
  generalize hrest : act op next = q at hpoint
  cases hpoint with
  | between hs => cases hrest
  | awaits hs =>
    cases hrest
    obtain ⟨k, hplace, hpassed⟩ := hs hgoing
    obtain ⟨-, heq⟩ := hpassed hlossless
    have hnone := (Bench.receive_waits hanswer).2
    have hend := Channel.size_le_of_receive?_none hplace
      (map_eq_none_iff.mp (map_eq_none_iff.mp hnone))
    rw [← Array.length_toList, (H.history_eq line.port n).1, length_append,
      Array.length_toList] at hend
    rw [append_nil] at heq
    rw [heq, take_of_length_le (Nat.le_of_add_le_add_left hend)]
  | holds hport hs =>
    cases hrest
    cases hanswer
  | leaves hcancelled => cases hgoing.symm.trans hcancelled
  | ended hcancelled => cases hrest

/-! ## What the hub holds -/

lemma port_of_hub {f} (hf : f ∈ (H.bench n).hub.history.toList) : f.port ∈ setting.ports := by
  induction n with
  | zero =>
    rw [show (H.bench 0).hub.history = #[] from h.hub] at hf
    cases hf
  | succ n ih =>
    rcases H.hub_succ n with hsame | ⟨t, g, ⟨hmover, next, hnext⟩, -, hadded⟩
    · exact ih (hsame ▸ hf)
    · rw [hadded] at hf
      rcases mem_append.mp hf with hold | hnew
      · exact ih hold
      · cases mem_singleton.mp hnew
        obtain ⟨line, hline, rfl, halong⟩ :=
          line_of_transport h hnext (.inl (some_ne_none _))
        have hport : f.port = line.port := by
          have hpoint := halong.forwarding h hline
          generalize hrest : act (.publish f) next = q at hpoint
          cases hpoint with
          | holds hport _ =>
            cases hrest
            exact hport
          | _ => cases hrest
        rw [hport, ← h.ports]
        exact mem_map_of_mem hline

omit h in
lemma perm_flatMap_append {α β κ : Type} {xs : List α} {key : α → κ} (hkeys : (xs.map key).Nodup)
    {x} (hx : x ∈ xs) {F G : α → List β} {added} (hself : G x = F x ++ added)
    (hother : ∀ y, key y ≠ key x → G y = F y) : (xs.flatMap G).Perm (xs.flatMap F ++ added) := by
  induction xs with
  | nil => cases hx
  | cons y ys ih =>
    obtain ⟨hy, hys⟩ := nodup_cons.mp hkeys
    rw [flatMap_cons, flatMap_cons, append_assoc]
    rcases mem_cons.mp hx with rfl | hmem
    · have hrest : ys.flatMap G = ys.flatMap F := by
        refine congrArg List.flatten (map_congr_left fun z hz => hother z fun heq => ?_)
        exact hy (heq ▸ mem_map_of_mem hz)
      rw [hself, hrest, append_assoc]
      exact perm_append_comm.append_left _
    · rw [hother y fun heq => hy (heq ▸ mem_map_of_mem hmem)]
      exact (ih hys hmem).append_left _

lemma hub_perm_putBy (n : Nat) :
    (H.bench n).hub.history.toList.Perm (lines.flatMap fun line => H.putBy line.task n) := by
  induction n with
  | zero =>
    rw [show (H.bench 0).hub.history = #[] from h.hub]
    exact .of_eq (flatMap_eq_nil_iff.mpr fun _ _ => rfl).symm
  | succ n ih =>
    rcases H.hub_succ n with hsame | ⟨t, f, ⟨hmover, next, hnext⟩, hputs, hadded⟩
    · have hnone : ∀ line : Line, H.putBy line.task (n + 1) = H.putBy line.task n := by
        intro line
        rw [putBy_succ, puts, hsame, ← Array.length_toList, drop_length, ite_self, append_nil]
      rw [hsame, funext hnone]
      exact ih
    · obtain ⟨line, hline, rfl, -⟩ := line_of_transport h hnext (.inl (some_ne_none _))
      rw [hadded]
      refine (ih.append_right [f]).trans (perm_flatMap_append h.numbers hline ?_ ?_).symm
      · rw [putBy_succ, hputs]
      · intro other hne
        refine putBy_of_ne fun heq => hne ?_
        exact (Option.some.inj (hmover.symm.trans heq)).symm

lemma hub_perm_arrived (hwaiting : (H.session n).isWaiting)
    (hgoing : (H.bench n).isCancelled = false) (hlossless : ∀ m, m < n → ¬ H.Overruns m) :
    (H.bench n).hub.history.toList.Perm (setting.ports.flatMap fun port => H.arrived port n) := by
  refine (hub_perm_putBy h n).trans (.of_eq ?_)
  rw [← h.ports, flatMap_map, flatMap_def, flatMap_def]
  refine congrArg List.flatten (map_congr_left fun line hline => ?_)
  exact putBy_of_waiting h hline hwaiting hgoing hlossless

end Opened

end History

end CanScript
