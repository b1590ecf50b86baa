import CanScript.Proofs.Reach

/-! # Frames that reach the bus

    A send evaluates its identifier and its data, checks both, and only then writes to the ports,
    one after another.  So no frame is handed to the bus that the checks would not let through, and
    a send that fails has written nothing. -/

namespace CanScript

open Eval CanScript.Frame

/-! ## What tasks hand to the bus -/

def Request.Lawful (op : Request) : Prop :=
  ∀ f, op = .transmit f → f.Legal

lemma Request.Scripted.lawful {op : Request} (h : op.Scripted) : op.Lawful := by
  rintro f rfl
  exact h

lemma Role.lawful {setting p} (h : Role setting p) : p.Only Request.Lawful := by
  refine h.only (fun _ => Request.Scripted.lawful) (fun port r _ => ⟨?_, ?_, fun f => ?_⟩)
    fun r _ => ?_
  all_goals
    intro f heq
    cases heq

lemma Bench.Change.sent {t b b' op} (h : Change t b op b') : b'.bus.sent = b.bus.sent ∨
    ∃ f, op = .transmit f ∧ b'.bus.sent = b.bus.sent.push { f with timestamp := b.now } := by
  cases h with
  | transmit f =>
    show (b.bus.write b.now f).1.sent = _ ∨ _
    rw [Bus.write]
    split
    · exact .inl rfl
    · refine .inr ⟨f, rfl, ?_⟩
      dsimp only
      split <;> rfl
  | _ => exact .inl rfl

namespace Session

variable {limits : RunConfig} {bus : Bus} {writeTime : Nat} {s : Session}

lemma transmit_legal (hs : Reachable limits bus writeTime s) {task : Task}
    (hmem : task ∈ s.tasks) {f} (h : task.rest.request? = some (.transmit f)) : f.Legal :=
  hs.throughout Role.lawful hmem _ h f rfl

lemma External.sent {s'} (h : External s s') : s'.bench.bus.sent = s.bench.bus.sent := by
  obtain ⟨b, rfl, hb⟩ := h.influence
  cases hb <;> rfl

lemma launch_sent (s : Session) (program ports) :
    (s.launch program ports).1.bench.bus.sent = s.bench.bus.sent := by
  obtain ⟨bus, run, hub, nextTask, heq, hsent, -⟩ := launch_bench s program ports
  rw [heq]
  exact hsent

lemma clear_sent (s) : (clear s).bench.bus.sent = s.bench.bus.sent :=
  leavePorts_keeps (P := fun bus => bus.sent = s.bench.bus.sent) (fun hbus _ _ => hbus) rfl

/-- Every frame that was sent was sent before the first run, or is legal. -/
lemma sent_legal (hs : Reachable limits bus writeTime s) :
    ∀ f ∈ s.bench.bus.sent, f ∈ bus.sent ∨ f.Legal := by
  refine hs.invariant (P := fun s => ∀ f ∈ s.bench.bus.sent, f ∈ bus.sent ∨ f.Legal)
    (fun f hf => .inl hf) ?_ ?_ (fun _ _ _ _ _ h => h) ?_
  · intro who s s' hreachable hstep h
    cases hstep with
    | @move b before task behind =>
      -- only a transmission adds a frame, and what a task transmits is legal
      have hmem : task ∈ before ++ task :: behind := by simp
      intro f hf
      cases hrest : task.rest with
      | pure a | iter body state next =>
        rw [hrest] at hf
        exact h f hf
      | act op next =>
        rw [hrest] at hf
        rcases (b.perform_change task.id op).sent with hsame | ⟨g, rfl, hpush⟩
        · exact h f (hsame ▸ hf)
        · have hg : g.Legal := transmit_legal hreachable hmem (by rw [hrest]; rfl)
          rcases Array.mem_push.mp (hpush ▸ hf) with hold | rfl
          · exact h f hold
          · exact .inr ⟨hg.id, hg.data, hg.extended⟩
    | spawn =>
      obtain ⟨processes, heq, -⟩ := startTasks_eq s
      rw [heq]
      exact h
    | external hexternal =>
      rw [hexternal.sent]
      exact h
  · intro s h
    rw [clear_sent]
    exact h
  · intro s _ h program ports
    rw [launch_sent]
    exact h

end Session

/-! ## Executions that do not fail -/

namespace Eval

variable {α β : Type}

def Unfailing (p : Process (Except Interrupt α × Local)) : Prop :=
  ∀ n d l, ¬ Process.Reaches n p (.pure (.error (.error d), l))

namespace Unfailing

lemma ok (a : α) (l : Local) : Unfailing (.pure (.ok a, l)) := by
  intro n d l' h
  cases h

lemma stopped (l) : Unfailing (α := α) (.pure (.error .stopped, l)) := by
  intro n d l' h
  cases h

lemma act {op} {next : op.Reply → Process (Exit α)} (h : ∀ reply, Unfailing (next reply)) :
    Unfailing (.act op next) := by
  intro n d l hreaches
  cases hreaches with
  | act reply hrest => exact h reply _ d l hrest

lemma bindCont {p} {f : α → Eval β} (hp : Unfailing p) (hf : ∀ a l, Unfailing ((f a).start l)) :
    Unfailing (p.bind fun r => ExceptT.bindCont f r.1 r.2) := by
  intro n d l h
  -- what follows a result of the first: the second, or nothing
  have hafter : ∀ {k m : Nat} {r : Exit α}, Process.Reaches k p (.pure r) →
      ¬ Process.Reaches m (ExceptT.bindCont f r.1 r.2 : Process _)
        (.pure (.error (.error d), l)) := by
    intro k m r hr hrest
    obtain ⟨result, l'⟩ := r
    cases result with
    | ok a => exact hf a l' m d l hrest
    | error e =>
      cases hrest
      exact hp k d l' hr
  rcases h.of_bind with ⟨p', hp', heq⟩ | ⟨r, k, m, -, hr, hrest⟩
  · cases p' with
    | pure r => exact hafter hp' (m := 0) (heq ▸ .refl _)
    | act op next => cases heq
    | iter body s next => cases heq
  · exact hafter hr hrest

lemma bind {x} {f : α → Eval β} {l} (hx : Unfailing (x.start l))
    (hf : ∀ a l', Unfailing ((f a).start l')) : Unfailing ((x >>= f).start l) :=
  bindCont hx hf

lemma ask (op l) : Unfailing ((Eval.ask op).start l) :=
  act fun reply => ok reply l

lemma orStopped (going l) : Unfailing ((Eval.orStopped going).start l) := by
  cases going with
  | true => exact ok () l
  | false => exact stopped l

lemma acquire (l : Local) : Unfailing (Eval.acquire.start l) :=
  bind (ask .acquire l) fun going l' => orStopped going l'

lemma write (f) (l : Local) : Unfailing ((Eval.write f).start l) := by
  refine bind (ask _ l) fun _ l => bind (orStopped _ l) fun _ l => bind (ask _ l) fun _ l =>
    bind (ask _ l) fun _ l => bind (ask (.sleepUntil _ _) l) fun waking l => ?_
  cases waking with
  | expired => exact bind (ask _ l) fun _ l => bind (ask _ l) fun _ l => ok _ l
  | paused | stopped => exact bind (ask _ l) fun _ l => stopped l

lemma writeAll (pos id data extended ports l) :
    Unfailing ((Eval.writeAll pos id data extended ports).start l) := by
  have hcomposes : Composes (.of fun x => ∀ l, Unfailing (x.start l)) :=
    ⟨ok, fun hx hf l => bind (hx l) hf⟩
  exact hcomposes.writeAll (n := 0) (fun d => ask (.report d)) ports (fun _ _ => write _) l

end Unfailing

lemma writeAll_only (pos id data extended ports) :
    Always (Process.Only fun op => ∀ f, op = .transmit f →
      ∃ port ∈ ports, f = ⟨id, data, extended, port, 0⟩) (writeAll pos id data extended ports) := by
  let O (op : Request) := ∀ f, op = .transmit f → ∃ port ∈ ports, f = ⟨id, data, extended, port, 0⟩
  have hsequential : Process.Sequential (Process.Only O) := Process.Only.sequential
  have hplain : ∀ op, op.Plain → Process.Answers (Process.Only O) op := by
    intro op hop
    refine Process.Only.act ?_
    rintro f rfl
    exact hop.elim
  refine hsequential.composes.writeAll (n := 0) (fun d => hsequential.evalAsk (hplain _ trivial))
    ports fun port hport => hsequential.evalWrite (fun op hop => hplain op hop.plain) ?_
  refine Process.Only.act fun f heq => ?_
  cases heq
  exact ⟨port, hport, rfl⟩

end Eval

/-! ## Sends in a history -/

namespace History

variable {H : History} {α β : Type} {t : TaskId} {i j m : Nat} {f : Frame}

variable (H)

def Asks (t : TaskId) (i : Nat) (c : Process α) (j : Nat) (op : Request) : Prop :=
  ∃ e, H.Along t i c j e ∧ e.request? = some op

/-- In the course of something that a task began at one moment, it is about to hand a frame to its
    port at another. -/
def Transmits (t : TaskId) (i : Nat) (c : Process α) (j : Nat) (f : Frame) : Prop :=
  ∃ d, H.Along t i c j d ∧ d.request? = some (.transmit f)

/-- A send that a task began at one moment has evaluated its arguments at another, with an
    identifier in range and no more bytes than a frame carries. -/
structure Accepts (t : TaskId) (i : Nat) (s : Setting) (call : Caller) (scope : Option ScopeId)
    (id : Expr) (data : List Expr) (l : Local) (j : Nat) (raw : Int64) (bs : List UInt8) :
    Prop where
  evaluated : ∃ v l1 m l2,
    H.Along t i ((evalExpr s call scope id).start l) m (.pure (.ok v, l1)) ∧ v.asInt = .ok raw ∧
    H.Along t m ((evalPayload s call scope data).start l1) j (.pure (.ok bs, l2))
  lower : 0 ≤ raw.toInt
  upper : raw.toInt ≤ Frame.maxExtendedId
  room : bs.length ≤ Frame.maxPayload

variable {H}

lemma not_asks_pure (a : α) (op : Request) : ¬ H.Asks t i (.pure a) j op := by
  rintro ⟨e, halong, he⟩
  rw [halong.eq_of_pure] at he
  cases he

lemma not_transmits_pure (a : α) : ¬ H.Transmits t i (.pure a) j f :=
  not_asks_pure a _

lemma request?_bind {p : Process α} (h : p.isDone = false) (g : α → Process β) :
    (p.bind g).request? = p.request? := by
  cases p with
  | pure a => cases h
  | act op next => rfl
  | iter body s next => rfl

lemma Asks.of_bind {x} {g : α → Eval β} {l op}
    (h : H.Asks t i ((x >>= g).start l) j op) : H.Asks t i (x.start l) j op ∨
    ∃ a m l', H.Along t i (x.start l) m (.pure (.ok a, l')) ∧ H.Asks t m ((g a).start l') j op := by
  obtain ⟨e, halong, he⟩ := h
  rcases halong.of_bind with ⟨e', hgoing, he', rfl⟩ | ⟨⟨result, l'⟩, m, hfirst, hsecond⟩
  · rw [request?_bind hgoing] at he
    exact .inl ⟨e', he', he⟩
  · cases result with
    | ok a => exact .inr ⟨a, m, l', hfirst, e, hsecond, he⟩
    | error e' => exact absurd ⟨e, hsecond, he⟩ (not_asks_pure _ op)

lemma Transmits.of_bind {x} {g : α → Eval β} {l}
    (h : H.Transmits t i ((x >>= g).start l) j f) : H.Transmits t i (x.start l) j f ∨
    ∃ a m l', H.Along t i (x.start l) m (.pure (.ok a, l')) ∧
      H.Transmits t m ((g a).start l') j f :=
  Asks.of_bind h

lemma Along.bind {c d} (h : H.Along t i c j d) (g : α → Process β) :
    H.Along t i (c.bind g) j (d.bind g) := by
  induction h with
  | start => exact .start
  | stay _ hmover ih => exact ih.stay hmover
  | move _ hmover hgoing ih =>
    rw [← Process.step_bind hgoing]
    exact ih.move hmover (Process.isDone_bind hgoing g)

section Sends

variable {s : Setting} {call : Caller} {scope : Option ScopeId} {pos : Pos} {id : Expr}
  {data : List Expr} {l l1 : Local} {raw : Int64} {bs : List UInt8}

def writing (s : Setting) (pos : Pos) (raw : Int64) (bs : List UInt8) (extended : Bool) :
    Eval Unit := do
  release
  writeAll pos raw.toInt.toNat bs (extended || Frame.maxStandardId < raw.toInt.toNat) s.ports
  acquire

/-- What a send does once it has the identifier. -/
def afterId (s : Setting) (call : Caller) (scope : Option ScopeId) (pos : Pos) (id : Expr)
    (data : List Expr) (extended : Bool) (v : Value) : Eval Unit := do
  let raw ← ofResult id.pos v.asInt
  if raw.toInt < 0 ∨ (Frame.maxExtendedId : Int) < raw.toInt then
    fail id.pos (.idOutOfRange raw)
  else
    let bs ← evalPayload s call scope data
    if Frame.maxPayload < bs.length then fail pos (.payloadTooLong bs.length)
    else writing s pos raw bs extended

lemma sendFrame_eq (extended : Bool) : sendFrame s call scope pos id data extended
    = evalExpr s call scope id >>= afterId s call scope pos id data extended := rfl

lemma afterId_accepted {v} (hraw : v.asInt = .ok raw)
    (hrange : ¬ (raw.toInt < 0 ∨ (maxExtendedId : Int) < raw.toInt)) (extended) :
    afterId s call scope pos id data extended v = evalPayload s call scope data >>= fun bs =>
        if maxPayload < bs.length then fail pos (.payloadTooLong bs.length)
        else writing s pos raw bs extended := by
  rw [afterId, hraw]
  exact if_neg hrange

lemma Accepts.writes (h : H.Accepts t i s call scope id data l j raw bs) (pos extended) :
    ∃ l', H.Along t i ((sendFrame s call scope pos id data extended).start l) j
      ((writing s pos raw bs extended).start l') := by
  obtain ⟨v, l1, m, l2, hid, hraw, hdata⟩ := h.evaluated
  have hrange : ¬ (raw.toInt < 0 ∨ (maxExtendedId : Int) < raw.toInt) := by
    have hlower := h.lower
    have hupper := h.upper
    omega
  have hafter : H.Along t i ((sendFrame s call scope pos id data extended).start l) m
      ((afterId s call scope pos id data extended v).start l1) :=
    hid.bind fun r => ExceptT.bindCont (afterId s call scope pos id data extended) r.1 r.2
  rw [afterId_accepted hraw hrange] at hafter
  refine ⟨l2, hafter.trans ?_⟩
  have hpassed := hdata.bind fun r => ExceptT.bindCont (fun bs =>
    if maxPayload < bs.length then fail pos (.payloadTooLong bs.length)
    else writing s pos raw bs extended) r.1 r.2
  have hroom : (if maxPayload < bs.length then fail pos (.payloadTooLong bs.length)
      else writing s pos raw bs extended) = writing s pos raw bs extended :=
    if_neg h.room.not_gt
  rw [← hroom]
  exact hpassed

lemma Transmits.of_writing {extended}
    (h : H.Transmits t i ((writing s pos raw bs extended).start l) j f) : ∃ port ∈ s.ports,
      f = ⟨raw.toInt.toNat, bs, extended || maxStandardId < raw.toInt.toNat, port, 0⟩ := by
  rcases h.of_bind with ⟨d, halong, hd⟩ | ⟨_, m, l1, -, hrest⟩
  · rcases halong.of_act with rfl | ⟨m, b, reply, -, -, -, -, -, hover⟩
    · cases hd
    · exact absurd ⟨d, hover, hd⟩ (not_transmits_pure _)
  rcases hrest.of_bind with ⟨d, halong, hd⟩ | ⟨_, m', l2, -, hacquire⟩
  · obtain ⟨n, hreaches⟩ := halong.reaches
    exact writeAll_only pos _ bs _ s.ports l1 n d hreaches _ hd f rfl
  · rcases hacquire.of_bind with ⟨d, halong, hd⟩ | ⟨going, _, _, -, hlast⟩
    · rcases halong.of_act with rfl | ⟨_, _, _, -, -, -, -, -, hover⟩
      · cases hd
      · exact absurd ⟨d, hover, hd⟩ (not_transmits_pure _)
    · cases going with
      | true | false => exact absurd hlast (not_transmits_pure _)

lemma writing_unfailing (extended : Bool) : Unfailing ((writing s pos raw bs extended).start l) :=
  .bind (.ask .release l) fun _ l => .bind (.writeAll _ _ _ _ _ l) fun _ l => .acquire l

lemma Accepts.not_fails (h : H.Accepts t i s call scope id data l j raw bs) (extended : Bool)
    {n d l'} : ¬ H.Along t i ((sendFrame s call scope pos id data extended).start l) n
      (.pure (.error (.error d), l')) := by
  intro hfails
  obtain ⟨l2, hwrites⟩ := h.writes pos extended
  rcases le_total j n with hjn | hnj
  · obtain ⟨e, hfirst, hrest⟩ := hfails.split hwrites.le hjn
    rw [← hwrites.unique hfirst] at hrest
    obtain ⟨k, hreaches⟩ := hrest.reaches
    exact writing_unfailing extended k d l' hreaches
  · obtain ⟨e, hfirst, hrest⟩ := hwrites.split hfails.le hnj
    rw [← hfails.unique hfirst] at hrest
    cases hrest.eq_of_pure

/-- Whatever a send hands to a port, it does while it evaluates its identifier or its data, or it
    writes the frame that they make. -/
lemma Transmits.of_send {extended}
    (h : H.Transmits t i ((sendFrame s call scope pos id data extended).start l) j f) :
    H.Transmits t i ((evalExpr s call scope id).start l) j f ∨
    (∃ v m l', H.Along t i ((evalExpr s call scope id).start l) m (.pure (.ok v, l')) ∧
      H.Transmits t m ((evalPayload s call scope data).start l') j f) ∨
    ∃ raw bs m, m ≤ j ∧ H.Accepts t i s call scope id data l m raw bs ∧
      ∃ port ∈ s.ports,
        f = ⟨raw.toInt.toNat, bs, extended || maxStandardId < raw.toInt.toNat, port, 0⟩ := by
  rw [sendFrame_eq] at h
  rcases h.of_bind with hid | ⟨v, m, l1, hid, hafter⟩
  · exact .inl hid
  refine .inr ?_
  cases hraw : v.asInt with
  | error e =>
    rw [afterId, hraw] at hafter
    exact absurd hafter (not_transmits_pure _)
  | ok raw =>
    by_cases hrange : raw.toInt < 0 ∨ (maxExtendedId : Int) < raw.toInt
    · rw [afterId, hraw, show (ofResult id.pos (.ok raw) : Eval Int64) = pure raw from rfl,
        pure_bind, if_pos hrange] at hafter
      exact absurd hafter (not_transmits_pure _)
    · -- the identifier has passed, so the data are next
      rw [afterId_accepted hraw hrange] at hafter
      rcases hafter.of_bind with hdata | ⟨bs, n, l2, hdata, hlast⟩
      · exact .inl ⟨v, m, l1, hid, hdata⟩
      · by_cases hroom : maxPayload < bs.length
        · rw [if_pos hroom] at hlast
          exact absurd hlast (not_transmits_pure _)
        · rw [if_neg hroom] at hlast
          have hle : n ≤ j := by
            obtain ⟨d, halong, -⟩ := hlast
            exact halong.le
          exact .inr ⟨raw, bs, n, hle, ⟨⟨v, l1, m, l2, hid, hraw, hdata⟩, by omega, by omega,
            not_lt.mp hroom⟩, hlast.of_writing⟩

end Sends

end History

/-! ## Only legal frames -/

/-- Whatever a program does, the frames that were sent since the first start are legal, and so is
    every frame that a task is about to hand to its port.  A send hands over nothing, outside of the
    evaluation of its arguments, unless its identifier and its data were evaluated and passed the
    checks; then it writes the frame that they make to target ports, and does not fail. -/
theorem only_legal_frames {limits : RunConfig} {bus : Bus} {writeTime : Nat} {s : Session}
    (hs : Session.Reachable limits bus writeTime s) :
    (∀ f ∈ s.bench.bus.sent, f ∈ bus.sent ∨ f.Legal) ∧
    (∀ task ∈ s.tasks, ∀ f, task.rest.request? = some (.transmit f) → f.Legal) ∧
    ∀ (H : History) t i j (setting : Setting) call scope pos id data extended l f,
      H.Transmits t i ((execStmt setting call scope (.send pos id data extended)).start l) j f →
        H.Transmits t i ((evalExpr setting call scope id).start l) j f ∨
        (∃ v m l', H.Along t i ((evalExpr setting call scope id).start l) m (.pure (.ok v, l')) ∧
          H.Transmits t m ((evalPayload setting call scope data).start l') j f) ∨
        ∃ raw bs m, m ≤ j ∧ H.Accepts t i setting call scope id data l m raw bs ∧
          (∃ port ∈ setting.ports, f = ⟨raw.toInt.toNat, bs,
            extended.isSome || Frame.maxStandardId < raw.toInt.toNat, port, 0⟩) ∧
          ∀ n d l', ¬ H.Along t i
            ((execStmt setting call scope (.send pos id data extended)).start l) n
            (.pure (.error (.error d), l')) := by
  refine ⟨Session.sent_legal hs, fun task hmem f => Session.transmit_legal hs hmem, ?_⟩
  intro H t i j setting call scope pos id data extended l f h
  rw [execStmt] at h ⊢
  rcases h.of_bind with hsend | ⟨_, m, l', -, hover⟩
  · rcases hsend.of_send with hid | hdata | ⟨raw, bs, m, hle, haccepts, hframe⟩
    · exact .inl hid
    · exact .inr (.inl hdata)
    · -- a send that was accepted can only end well
      refine .inr (.inr ⟨raw, bs, m, hle, haccepts, hframe, fun n d l' hfails => ?_⟩)
      rcases hfails.of_bind with ⟨d', hgoing, -, heq⟩ | ⟨⟨result, l₁⟩, k, hfirst, hsecond⟩
      · have hgoes := Process.isDone_bind hgoing fun r =>
          ExceptT.bindCont (fun _ => (return .normal : Eval Flow)) r.1 r.2
        cases (congrArg Process.isDone heq).trans hgoes
      · cases result with
        | ok u => cases hsecond.eq_of_pure
        | error e =>
          cases hsecond.eq_of_pure
          exact haccepts.not_fails extended.isSome hfirst
  · exact absurd hover (History.not_transmits_pure _)

def sendingScript : String :=
  "send(0x800, 1)\nsend(0x20000000, 1)\nsend(1, 256)"

/-- The session after the script has ended. -/
def sendingSession : Session :=
  Machine.settle ((Session.ofLimits {} (.ofCapacity 16)).start sendingScript ["can0", "can1"]).1

/-- One frame reached both ports, marked extended, and the other sends are in the log. -/
theorem only_legal_frames_sending :
    sendingSession.bench.bus.sent.map (fun f => (f.id, f.extended, f.port))
      = #[(0x800, true, "can0"), (0x800, true, "can1")] ∧
    sendingSession.bench.log.errors.size = 2 ∧
    ∀ f ∈ sendingSession.bench.bus.sent, f.Legal := by
  have hreachable : Session.Reachable {} (.ofCapacity 16) 0 sendingSession :=
    (Session.Reachable.init.start sendingScript ["can0", "can1"]).steps
      (Session.settleWithin_steps _ _)
  obtain ⟨hsent, -⟩ := only_legal_frames hreachable
  refine ⟨by decide +kernel, by decide +kernel, fun f hf => (hsent f hf).resolve_left ?_⟩
  exact Array.not_mem_empty f

end CanScript
