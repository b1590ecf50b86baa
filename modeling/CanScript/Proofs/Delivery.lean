import CanScript.Proofs.Course
import CanScript.Proofs.Forwarding

/-! # What an entry in the list of ports counts for

    A send writes one frame for each entry of the list, in its order, and there is one forwarder for
    each entry.  Neither looks for entries that name one port twice. -/

namespace CanScript

open List Eval

def Process.WritesNothing {α : Type} (p : Process α) : Prop :=
  p.Only fun op => ∀ f, op ≠ .transmit f

lemma Process.WritesNothing.ask {op} (h : ∀ f, op ≠ .transmit f) (l : Local) :
    Process.WritesNothing ((Eval.ask op).start l) :=
  Process.Only.act h fun _ => Process.Only.pure _

lemma Process.WritesNothing.orStopped (going : Bool) (l) :
    Process.WritesNothing ((Eval.orStopped going).start l) := by
  cases going with
  | true | false => exact Process.Only.pure _

namespace History

variable {H : History} {α β : Type} {t : TaskId} {n i j m : Nat}

/-! ## Frames that a task writes -/

variable (H) in
def writes (t : TaskId) (n : Nat) : List Frame :=
  if H.mover n = some t then
    (H.bench (n + 1)).bus.sent.toList.drop (H.bench n).bus.sent.size
  else []

variable (H) in
/-- The frames that a task writes from one moment up to another, apart from their times. -/
def written (t : TaskId) (i j : Nat) : List Frame :=
  ((List.range' i (j - i)).flatMap (H.writes t)).map fun f => { f with timestamp := 0 }

lemma written_append (him : i ≤ m) (hmj : m ≤ j) :
    H.written t i j = H.written t i m ++ H.written t m j := by
  rw [written, flatMap_moments _ him hmj, map_append]
  rfl

lemma written_one (t n) :
    H.written t n (n + 1) = (H.writes t n).map fun f => { f with timestamp := 0 } := by
  rw [written, Nat.add_sub_cancel_left]
  exact congrArg (List.map _) (append_nil _)

lemma written_eq_nil (h : ∀ n, i ≤ n → n < j → H.writes t n = []) : H.written t i j = [] := by
  rw [written, flatMap_eq_nil_iff.mpr, map_nil]
  intro n hn
  obtain ⟨hin, hnj⟩ := mem_range'_1.mp hn
  exact h n hin (by omega)

lemma writes_of_idle (h : H.mover n ≠ some t) : H.writes t n = [] :=
  if_neg h

lemma writes_eq_nil (h : ∀ f, ¬ H.Makes t n (.transmit f)) : H.writes t n = [] := by
  by_cases hmover : H.mover n = some t
  · have hsame : (H.bench (n + 1)).bus.sent = (H.bench n).bus.sent := by
      rcases requested hmover with hstill | ⟨op, hmakes, hchange⟩
      · rw [hstill]
      · rcases hchange.sent with hsame | ⟨f, rfl, -⟩
        · exact hsame
        · exact absurd hmakes (h f)
    rw [writes, if_pos hmover, hsame, ← Array.length_toList, drop_length]
  · exact writes_of_idle hmover

lemma written_of_idle (hidle : H.Idle t i j) : H.written t i j = [] :=
  written_eq_nil fun n hin hnj => writes_of_idle (hidle n hin hnj)

lemma written_of_nothing {c e} {k : α → Process Unit} (hi : H.Has t i (c.bind k))
    (hc : c.WritesNothing) (halong : H.Along t i c j e) : H.written t i j = [] := by
  refine written_eq_nil fun n hin hnj => writes_eq_nil fun f hmakes => ?_
  obtain ⟨e', halong', he'⟩ := hmakes.asks hi halong hin hnj
  obtain ⟨_, hreaches⟩ := halong'.reaches
  exact hc _ _ hreaches _ he' f rfl

variable {l l' : Local} {f : Frame} {k : Exit Unit → Process Unit}
  {extended : Bool}

lemma Along.written_second {x} {g : α → Eval β} {b}
    {k : Exit β → Process Unit} (hi : H.Has t i (((x >>= g).start l).bind k))
    (halong : H.Along t i ((x >>= g).start l) j (.pure (.ok b, l')))
    (hx : ∀ l, Process.WritesNothing (x.start l)) : ∃ a m l1, i ≤ m ∧
      H.Has t m (((g a).start l1).bind k) ∧ H.Along t m ((g a).start l1) j (.pure (.ok b, l')) ∧
      H.written t i j = H.written t m j := by
  obtain ⟨a, m, l1, hfirst, hsecond⟩ := halong.of_evalBind
  refine ⟨a, m, l1, hfirst.le, hi.second hfirst, hsecond, ?_⟩
  rw [written_append hfirst.le hsecond.le, written_of_nothing hi.first (hx l) hfirst, nil_append]

/-- A frame that is handed to a port that accepts it is written once. -/
lemma written_of_transmit {taken : Bool} {k} (hi : H.Has t i (((ask (.transmit f)).start l).bind k))
    (halong : H.Along t i ((ask (.transmit f)).start l) j (.pure (.ok taken, l')))
    (htakes : ∀ n, i ≤ n → n < j → (H.bench n).bus.isFailing f.port = false) :
    taken ∧ H.written t i j = [{ f with timestamp := 0 }] := by
  rcases halong.head with ⟨hsame, -⟩ | ⟨n, hin, hnj, hidle, hmover, -, hover⟩
  · cases hsame
  · obtain ⟨htaken, -, hsent⟩ := Bus.write_of_takes (htakes n hin hnj) (H.bench n).now
    have hn : H.Has t n (((ask (.transmit f)).start l).bind k) := by
      obtain ⟨e, halong', -⟩ := halong.between hin hnj hmover
      rcases halong'.head with ⟨rfl, -⟩ | ⟨m, him, hmn, -, hmover', -⟩
      · exact halong'.has hi
      · exact absurd hmover' (hidle m him hmn)
    have hstep : ((ask (.transmit f)).start l).step (H.bench n) t
        = .pure (.ok ((H.bench n).bus.write (H.bench n).now f).2, l) := rfl
    rw [hstep, htaken] at hover
    have hadded : (H.bench (n + 1)).bus.sent
        = (H.bench n).bus.sent.push { f with timestamp := (H.bench n).now } := by
      rw [(hn.move hmover).1]
      exact hsent
    have hwrites : H.writes t n = [{ f with timestamp := (H.bench n).now }] := by
      rw [writes, if_pos hmover, hadded, Array.toList_push, ← Array.length_toList, drop_left]
    cases hover.eq_of_pure
    refine ⟨rfl, ?_⟩
    rw [written_append hin hnj.le, written_append (Nat.le_add_right n 1) hnj,
      written_of_idle hidle, written_of_idle hover.idle_of_pure, nil_append, append_nil,
      written_one, hwrites]
    rfl

/-- A write to a port that accepts it writes one frame. -/
lemma written_of_write {taken k} (hi : H.Has t i (((write f).start l).bind k))
    (halong : H.Along t i ((write f).start l) j (.pure (.ok taken, l')))
    (htakes : ∀ n, i ≤ n → n < j → (H.bench n).bus.isFailing f.port = false) :
    taken ∧ H.written t i j = [{ f with timestamp := 0 }] := by
  -- up to the end of the wait nothing is written
  obtain ⟨going, m1, l1, h1, hi1, halong1, hw1⟩ := halong.written_second hi (.ask (by simp))
  obtain ⟨-, m2, l2, h2, hi2, halong2, hw2⟩ := halong1.written_second hi1 (.orStopped going)
  obtain ⟨time, m3, l3, h3, hi3, halong3, hw3⟩ := halong2.written_second hi2 (.ask (by simp))
  obtain ⟨now, m4, l4, h4, hi4, halong4, hw4⟩ := halong3.written_second hi3 (.ask (by simp))
  obtain ⟨waking, m5, l5, h5, hi5, halong5, hw5⟩ := halong4.written_second hi4 (.ask (by simp))
  have hbegun : i ≤ m5 := by omega
  rw [hw1, hw2, hw3, hw4, hw5]
  cases waking with
  | expired =>
    obtain ⟨taken', m, l₆, htransmit, hrest⟩ := halong5.of_evalBind
    have hm := hi5.second htransmit
    obtain ⟨rfl, hwritten⟩ := written_of_transmit hi5.first htransmit fun n hn hnm =>
      htakes n (hbegun.trans hn) (hnm.trans_le hrest.le)
    obtain ⟨_, m', l₇, -, -, hover, hw⟩ := hrest.written_second hm (.ask (by simp))
    cases hover.eq_of_pure
    rw [written_append htransmit.le hrest.le, hwritten, hw, written_of_idle hover.idle_of_pure]
    exact ⟨rfl, rfl⟩
  | paused | stopped =>
    obtain ⟨_, _, _, -, hover⟩ := halong5.of_evalBind
    cases hover.eq_of_pure

lemma written_of_writeAll {pos id data ports}
    (hi : H.Has t i (((writeAll pos id data extended ports).start l).bind k))
    (halong : H.Along t i ((writeAll pos id data extended ports).start l) j (.pure (.ok (), l')))
    (htakes : ∀ port ∈ ports, ∀ n, i ≤ n → n < j → (H.bench n).bus.isFailing port = false) :
    H.written t i j = ports.map (⟨id, data, extended, ·, 0⟩) := by
  induction ports generalizing i l with
  | nil => exact written_of_idle halong.idle_of_pure
  | cons port ports ih =>
    obtain ⟨hfirst, hothers⟩ := forall_mem_cons.mp htakes
    obtain ⟨taken, m, l1, hwrite, hrest⟩ := halong.of_evalBind
    have hm := hi.second hwrite
    obtain ⟨rfl, hwritten⟩ := written_of_write hi.first hwrite fun n hn hnm =>
      hfirst n hn (hnm.trans_le hrest.le)
    rw [written_append hwrite.le hrest.le, hwritten, map_cons]
    exact congrArg _ (ih hm hrest fun port hmem n hn hnj =>
      hothers port hmem n (hwrite.le.trans hn) hnj)

section Sends

variable {s : Setting} {call : Caller} {scope : Option ScopeId} {pos : Pos} {id : Expr}
  {data : List Expr} {raw : Int64} {bs : List UInt8}

lemma written_of_writing (hi : H.Has t i (((writing s pos raw bs extended).start l).bind k))
    (halong : H.Along t i ((writing s pos raw bs extended).start l) j (.pure (.ok (), l')))
    (htakes : ∀ port ∈ s.ports, ∀ n, i ≤ n → n < j → (H.bench n).bus.isFailing port = false) :
    H.written t i j = s.ports.map
      (⟨raw.toInt.toNat, bs, extended || Frame.maxStandardId < raw.toInt.toNat, ·, 0⟩) := by
  obtain ⟨_, m, l1, him, hm, hrest, hw⟩ := halong.written_second hi (.ask (by simp))
  obtain ⟨_, m', l2, hwrite, hacquire⟩ := hrest.of_evalBind
  have hm' := hm.second hwrite
  have hwritten := written_of_writeAll hm.first hwrite fun port hmem n hn hnm =>
    htakes port hmem n (him.trans hn) (hnm.trans_le hacquire.le)
  obtain ⟨going, m'', l3, -, -, hover, hw'⟩ := hacquire.written_second hm' (.ask (by simp))
  have hlast : H.written t m'' j = [] := by
    cases going with
    | true | false => exact written_of_idle hover.idle_of_pure
  rw [hw, written_append hwrite.le hacquire.le, hwritten, hw', hlast, append_nil]

/-- A send that has come to its end had its arguments accepted, and was writing then. -/
lemma Along.accepted
    (hi : H.Has t i (((sendFrame s call scope pos id data extended).start l).bind k))
    (halong : H.Along t i ((sendFrame s call scope pos id data extended).start l) j
      (.pure (.ok (), l'))) : ∃ raw bs m l1, i ≤ m ∧ H.Accepts t i s call scope id data l m raw bs ∧
      H.Has t m (((writing s pos raw bs extended).start l1).bind k) ∧
      H.Along t m ((writing s pos raw bs extended).start l1) j (.pure (.ok (), l')) := by
  rw [sendFrame_eq] at hi halong
  obtain ⟨v, m, l1, hid, hafter⟩ := halong.of_evalBind
  have hm := hi.second hid
  cases hraw : v.asInt with
  | error e =>
    rw [afterId, hraw] at hafter
    cases hafter.eq_of_pure
  | ok raw =>
    by_cases hrange : raw.toInt < 0 ∨ (Frame.maxExtendedId : Int) < raw.toInt
    · rw [afterId, hraw, show (ofResult id.pos (.ok raw) : Eval Int64) = pure raw from rfl,
        pure_bind, if_pos hrange] at hafter
      cases hafter.eq_of_pure
    · rw [afterId_accepted hraw hrange] at hafter hm
      obtain ⟨bs, m', l2, hdata, hlast⟩ := hafter.of_evalBind
      have hm' := hm.second hdata
      by_cases hroom : Frame.maxPayload < bs.length
      · rw [if_pos hroom] at hlast
        cases hlast.eq_of_pure
      · rw [if_neg hroom] at hlast hm'
        refine ⟨raw, bs, m', l2, hid.le.trans hdata.le, ?_, hm', hlast⟩
        exact ⟨⟨v, l1, m, l2, hid, hraw, hdata⟩, by omega, by omega, not_lt.mp hroom⟩

lemma written_of_send {extended flow k}
    (hi : H.Has t i (((execStmt s call scope (.send pos id data extended)).start l).bind k))
    (halong : H.Along t i ((execStmt s call scope (.send pos id data extended)).start l) j
      (.pure (.ok flow, l')))
    (htakes : ∀ port ∈ s.ports, ∀ n, i ≤ n → n < j → (H.bench n).bus.isFailing port = false) :
    ∃ raw bs m, i ≤ m ∧ m ≤ j ∧ H.Accepts t i s call scope id data l m raw bs ∧
      H.written t m j = s.ports.map (⟨raw.toInt.toNat, bs,
        extended.isSome || Frame.maxStandardId < raw.toInt.toNat, ·, 0⟩) := by
  rw [execStmt] at hi halong
  obtain ⟨_, m', l1, hsend, hover⟩ := halong.of_evalBind
  obtain ⟨raw, bs, m, l2, him, haccepts, hm, hwriting⟩ := hsend.accepted hi.first
  refine ⟨raw, bs, m, him, hwriting.le.trans hover.le, haccepts, ?_⟩
  rw [written_append hwriting.le hover.le, written_of_idle hover.idle_of_pure, append_nil]
  exact written_of_writing hm hwriting fun port hmem n hn hnm =>
    htakes port hmem n (him.trans hn) (hnm.trans_le hover.le)

end Sends

/-! ## Frames of the hub -/

variable (H) in
/-- What has become of a frame of the hub: it was passed over because the run was paused, or tested
    against all receive handlers, and has started one activation of each that it satisfies. -/
def Handled (s : Setting) (j k : Nat) (f : Frame) (acts : List Activation) : Prop :=
  ∃ verdict : Nat → Bool,
    acts = ((List.range s.program.receiveHandlers.length).filter verdict).map (.receive · f) ∧
    ((∃ n, n < j ∧ k < (H.bench n).hub.history.size ∧ (H.bench n).standing = .paused ∧
        ∀ a, verdict a = false) ∨
      ∀ a handler, s.program.receiveHandlers[a]? = some handler → ∃ t p q,
        k < (H.bench p).hub.history.size ∧ q ≤ j ∧
        H.Tests t s handler.predicate f p q (verdict a))

section Opened

variable {setting : Setting} {lines : List Line} {d : TaskId} {limits : RunConfig} {bus : Bus}
  {writeTime : Nat} (h : Session.Opened setting lines d (H.session 0))

include h

lemma Visited.handled {k acts} (hvisited : H.Visited setting d j k acts)
    (hgoing : (H.bench j).isCancelled = false) (hf : (H.bench j).hub.history[k]? = some f) :
    H.Handled setting j k f acts := by
  obtain ⟨c, e, f', l, l', hej, htakes, hbegun, halong, hadded⟩ := hvisited
  have hce : c < e := halong.le
  cases hf.symm.trans (frame_later htakes.frame (hce.trans_le hej).le)
  have hin : ∀ {n : Nat}, c + 1 ≤ n → k < (H.bench n).hub.history.size := by
    intro n hn
    have hk := (Array.getElem?_eq_some_iff.mp htakes.frame).1
    exact lt_of_lt_of_le hk (size_mono (le_of_lt hn))
  obtain ⟨verdict, hstarted, hfate⟩ :=
    started_of_considers h hbegun halong (going_before hej hgoing)
  refine ⟨verdict, append_cancel_left (hadded.symm.trans hstarted), ?_⟩
  rcases hfate with ⟨n, hcn, hne, hpaused, hnone⟩ | htested
  · exact .inl ⟨n, hne.trans_le hej, hin hcn, hpaused, hnone⟩
  · refine .inr fun a handler ha => ?_
    obtain ⟨p, q, hp, hq, htest⟩ := htested a handler ha
    exact ⟨d, p, q, hin hp, hq.trans hej, htest⟩

/-- When the dispatcher waits for a frame, the activations that were started are those of all frames
    of the hub. -/
lemma handled_of_drained (hH : Session.Reachable limits bus writeTime (H.session 0))
    (hdone : setting.program.receiveHandlers ≠ [] → H.Drained n)
    (hlossless : ∀ m, m < n → ¬ H.Overruns m) :
    ∃ acts : List (List Activation), acts.length = (H.bench n).hub.history.size ∧
      H.started n = acts.flatten ∧ ∀ k f, (H.bench n).hub.history[k]? = some f →
        ∃ as, acts[k]? = some as ∧ H.Handled setting n k f as := by
  by_cases hhandlers : setting.program.receiveHandlers = []
  · -- without handlers nothing is started
    refine ⟨List.replicate (H.bench n).hub.history.size [], length_replicate, ?_,
      fun k f hf => ⟨[], ?_, fun _ => false, ?_, .inr ?_⟩⟩
    · rw [flatten_replicate_nil, started]
      refine flatMap_eq_nil_iff.mpr fun m _ => starts_eq_nil h fun a f hmakes => ?_
      obtain ⟨-, next, hnext⟩ := hmakes
      exact (dispatcher_of_reserved h hnext trivial).2.1 hhandlers
    · rw [getElem?_replicate, if_pos (Array.getElem?_eq_some_iff.mp hf).1]
    · rw [hhandlers]
      rfl
    · rw [hhandlers]
      intro a handler ha
      cases ha
  · obtain ⟨⟨l, hsettled⟩, hgoing, place, hplace, hsize⟩ :=
      (hdone hhandlers).settled h hH hhandlers
    obtain ⟨k, hrounds⟩ := hsettled hgoing hlossless
    cases hplace.symm.trans (hrounds.place h hhandlers)
    obtain ⟨acts, rfl, hstarted, hvisited⟩ := hrounds.started h hgoing
    have hlength : acts.length = (H.bench n).hub.history.size := by
      refine (Nat.le_of_not_lt fun hlt => ?_).antisymm hsize
      obtain ⟨c, e, f, l, l', hen, htakes, -, halong, -⟩ :=
        hvisited _ _ (getElem?_eq_getElem hlt)
      have hf := frame_later htakes.frame (le_trans (le_of_lt halong.le) hen)
      exact lt_irrefl _ (Array.getElem?_eq_some_iff.mp hf).1
    refine ⟨acts, hlength, hstarted, fun k f hf => ?_⟩
    have hk : k < acts.length := hlength ▸ (Array.getElem?_eq_some_iff.mp hf).1
    have has := getElem?_eq_getElem hk
    exact ⟨_, has, (hvisited k _ has).handled h hgoing hf⟩

end Opened

end History

/-! ## Ports that are listed twice -/

def Received.isLagged {α : Type} : Received α → Bool
  | .item _ => false
  | .lagged _ => true

def Bench.misses (b : Bench) : Request → Bool
  | .receive source => (b.receive? source).any (·.1.isLagged)
  | _ => false

def Session.isBehind (s : Session) : Bool :=
  s.tasks.any (·.rest.request?.any s.bench.misses)

lemma History.not_overruns {H : History} {n} (h : (H.session n).isBehind = false) :
    ¬ H.Overruns n := by
  rintro ⟨t, source, b, missed, ⟨-, next, hnext⟩, hanswer⟩
  have hgot : (H.bench n).receive? source = some (.lagged missed, b) := by
    rcases (H.bench n).receive_cases t source with
      ⟨-, hanswer'⟩ | ⟨-, ⟨-, hanswer', -⟩ | ⟨got, b', hgot, hanswer'⟩⟩
    · cases hanswer.symm.trans hanswer'
    · cases hanswer.symm.trans hanswer'
    · cases hanswer.symm.trans hanswer'
      exact hgot
  refine any_eq_false.mp h _ hnext ?_
  show ((H.bench n).receive? source).any _
  rw [hgot]
  rfl

/-- A program that sends a frame and has a receive handler for all frames. -/
def sendingProgram : Program where
  statements := [.send ⟨1, 1⟩ (.literal ⟨1, 6⟩ (.int 7)) [] none]
  receiveHandlers := [⟨⟨2, 1⟩, .literal ⟨2, 12⟩ (.bool true), []⟩]

def repeatedHistory : History :=
  .ofRun ⟨sendingProgram, ["can0", "can1", "can0"], {}⟩ <|
    [.move 0, .move 1, .move 2] ++ movesOf 4 24 ++ [.inject ⟨1, [], false, "can0", 0⟩] ++
    movesOf 0 3 ++ movesOf 2 3 ++ movesOf 3 37 ++ [.spawn] ++ movesOf 5 15 ++ movesOf 6 15 ++
    movesOf 3 2

def doubledScript : String :=
  "send(7)\non_receive(true) \x7b print(id) \x7d"

/-- The session after a frame has arrived on a port that is listed twice. -/
def doubledSession : Session :=
  let s := ((Session.ofLimits {} (.ofCapacity 16)).start doubledScript ["can0", "can0"]).1
  Machine.advance (Session.inject (Machine.advance s 1) ⟨1, [], false, "can0", 0⟩).1 1

end CanScript
