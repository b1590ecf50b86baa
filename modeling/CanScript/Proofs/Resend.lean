import CanScript.Proofs.Conversion
import CanScript.Proofs.Course

/-! # Recorded frames are sent again

    A trace becomes a script that waits and sends.  Here the script is executed: the frames of the
    trace are written in order, as they were recorded, and no error is reported. -/

namespace CanScript

open List Eval Number Stmt Value

/-! ## Numbers -/

lemma toInt_ofNat_small {n : Nat} (h : n ≤ maxWord64 / 1000) :
    (Int64.ofNat n).toInt = n := by
  have hmax : maxWord64 / 1000 ≤ 18446744073709551 := by decide
  exact Int64.toInt_ofNat_of_lt (by omega)

lemma compareScaled_zero (k : Nat) (e) : Number.Exact.compareScaled k e 0 0 ≠ .lt := by
  rw [Number.Exact.compareScaled, Int.zero_mul, Ne, Int.compare_eq_lt, Int.not_lt]
  exact Int.mul_nonneg (Int.natCast_nonneg _) (Int.natCast_nonneg _)

lemma asMillis_of_nonneg {n} (h : 0 ≤ n.toInt) : ∃ millis, (int n).asMillis = .ok millis := by
  have hsign : decide (n.toInt < 0) = false := decide_eq_false (Int.not_lt.mpr h)
  have hcompare : ∀ k e,
      Number.Exact.compare? (.finite false k e) (.ofInt 0) ≠ some .lt :=
    fun k e heq => compareScaled_zero k e (Option.some.inj heq)
  refine ⟨((Number.Exact.nearest n.toInt).truncate 0 maxMillis).toNat, ?_⟩
  show millisOf _ (Number.Exact.nearest n.toInt) = _
  rw [millisOf, if_neg]
  rw [beq_iff_eq, Number.Exact.nearest, hsign]
  exact hcompare _ _

lemma payload_of_byte (b) : (int (Int64.ofNat b.toNat)).payload = .ok [b] := by
  have hn := toInt_ofNat_small (Trace.byte_in_range b)
  have hlt := b.toNat_lt
  rw [payload, hn, if_pos (by omega)]
  simp

/-! ## Statements -/

variable {frames : List Frame} {statements : List Stmt}

section Statements

variable {t : TaskId} {l : Local} {v : Bench} {s : Setting} {call : Caller}
  {scope : Option ScopeId} {port : String}

variable {α : Type} {a : α} {frames' : List Frame} {st : Stmt} {f : Frame}

lemma ofResult_does {r} (h : r = .ok a) (pos) : Does t (ofResult pos r) l v a l v := by
  subst h
  exact .pure

lemma number_does {e : Expr} {n} (h : e.unplaced = Trace.numberExpr n) :
    Does t (evalExpr s call scope e) l v (.int (Int64.ofNat n)) l v := by
  cases e with
  | literal pos literal =>
    cases h
    rw [evalExpr]
    exact .pure
  | _ => cases h

lemma payload_does {data} {bytes : List UInt8}
    (h : Expr.allUnplaced data = bytes.map fun b => Trace.numberExpr b.toNat) :
    Does t (evalPayload s call scope data) l v bytes l v := by
  induction data generalizing bytes with
  | nil =>
    obtain rfl : bytes = [] := map_eq_nil_iff.mp h.symm
    rw [evalPayload]
    exact .pure
  | cons e data ih =>
    cases bytes with
    | nil => cases h
    | cons b bytes =>
      obtain ⟨he, hdata⟩ := List.cons.inj h
      rw [evalPayload]
      exact (number_does he).bind ((ofResult_does (payload_of_byte b) _).bind
        ((ih hdata).bind .pure))

/-- The task can go on, and the port takes what it writes. -/
structure Ready (t : TaskId) (port : String) (v : Bench) : Prop extends Undisturbed t v where
  unclaimed : v.claimsOn port = []
  takes : v.bus.isFailing port = false

/-- What a frame says, wherever and whenever it is sent. -/
def Frame.content (f : Frame) : Nat × List UInt8 × Bool :=
  (f.id, f.data, f.extended)

/-- Between two states of the bench frames were sent on a port, in order, and nothing was recorded.
    -/
structure Sent (port : String) (frames : List Frame) (v v' : Bench) : Prop where
  log : v'.log = v.log
  sent : ∃ added : List Frame, v'.bus.sent.toList = v.bus.sent.toList ++ added
    ∧ added.map Frame.content = frames.map Frame.content ∧ ∀ f ∈ added, f.port = port

lemma Sent.trans {v' v''} (h : Sent port frames v v') (h' : Sent port frames' v' v'') :
    Sent port (frames ++ frames') v v'' := by
  obtain ⟨added, hsent, hadded, hport⟩ := h.sent
  obtain ⟨added', hsent', hadded', hport'⟩ := h'.sent
  refine ⟨h'.log.trans h.log, added ++ added', ?_, ?_, forall_mem_append.mpr ⟨hport, hport'⟩⟩
  · rw [hsent', hsent, append_assoc]
  · rw [map_append, map_append, hadded, hadded']

lemma Sent.nothing {v' : Bench} (hlog : v'.log = v.log) (hbus : v'.bus = v.bus) :
    Sent port [] v v' :=
  ⟨hlog, [], by rw [hbus, append_nil], rfl, nofun⟩

def Delivers (t : TaskId) (port : String) {α : Type} (x : Eval α) (l : Local) (v : Bench) (a : α)
    (frames : List Frame) : Prop :=
  ∃ l' v', Does t x l v a l' v' ∧ Ready t port v' ∧ Sent port frames v v'

lemma Delivers.bind {β : Type} {x} {g : α → Eval β} {b} (hx : Delivers t port x l v a frames)
    (hg : ∀ l' v', Ready t port v' → Delivers t port (g a) l' v' b frames') :
    Delivers t port (x >>= g) l v b (frames ++ frames') := by
  obtain ⟨l', v', hdoes, hready, hsent⟩ := hx
  obtain ⟨l'', v'', hdoes', hready', hsent'⟩ := hg l' v' hready
  exact ⟨l'', v'', hdoes.bind hdoes', hready', hsent.trans hsent'⟩

lemma checkpoint_delivers (h : Ready t port v) (yieldEvery) :
    Delivers t port (checkpoint yieldEvery) l v () [] := by
  obtain ⟨l', hdoes⟩ := checkpoint_does (l := l) h.toUndisturbed yieldEvery
  exact ⟨l', _, hdoes, ⟨h.setTurn (.inr rfl), h.unclaimed, h.takes⟩, .nothing rfl rfl⟩

lemma delay_delivers (h : Ready t port v) {gap} (hgap : gap ≤ maxWord64 / 1000)
    (hst : st.unplaced = .delay .start (Trace.numberExpr gap)) :
    Delivers t port (execStmt s call scope st) l v .normal [] := by
  cases st with
  | delay pos e =>
    have he : e.unplaced = Trace.numberExpr gap := (delay.inj hst).2
    obtain ⟨millis, hmillis⟩ := asMillis_of_nonneg (n := Int64.ofNat gap)
      (by rw [toInt_ofNat_small hgap]; exact Int.natCast_nonneg _)
    have hreleased := h.setTurn (.inl rfl)
    have hslept : Undisturbed t { v with turn := none, now := v.now + millis } :=
      ⟨h.going, h.state, .inl rfl⟩
    refine ⟨l, { v with turn := some t, now := v.now + millis }, ?_,
      ⟨⟨h.going, h.state, .inr rfl⟩, h.unclaimed, h.takes⟩, .nothing rfl rfl⟩
    rw [execStmt]
    exact (number_does he).bind ((ofResult_does hmillis _).bind
      ((release_does h.toUndisturbed).bind ((sleep_does hreleased millis).bind
        ((acquire_does hslept).bind .pure))))
  | _ => cases hst

lemma afterWrite_sent (h : Ready t port v) (hport : f.port = port) :
    Ready t port { v.afterWrite t f with turn := some t }
      ∧ Sent port [f] v { v.afterWrite t f with turn := some t } := by
  subst hport
  obtain ⟨-, hfailing, hsent⟩ := Bus.write_of_takes h.takes (v.now + v.writeTime)
  refine ⟨⟨⟨h.going, h.state, .inr rfl⟩, v.claimsOn_afterWrite t f, ?_⟩, rfl,
    [{ f with timestamp := v.now + v.writeTime }], ?_, rfl, forall_mem_singleton.mpr rfl⟩
  · have htakes := h.takes
    rw [Bus.isFailing] at htakes ⊢
    rw [← htakes]
    exact congrArg (·.contains f.port) hfailing
  · show (v.bus.write (v.now + v.writeTime) f).1.sent.toList = _
    rw [hsent, Array.toList_push]

lemma extended_eq (hf : Trace.Recorded f) {x : Option Pos} (hx : (x.map fun _ => Pos.start)
      = if f.extended && f.id ≤ Frame.maxStandardId then some .start else none) :
    (x.isSome || decide (Frame.maxStandardId < f.id)) = f.extended := by
  have hsome : x.isSome = (f.extended && decide (f.id ≤ Frame.maxStandardId)) := by
    rw [← Option.isSome_map (f := fun _ => Pos.start), hx]
    split <;> simp_all
  rw [hsome]
  by_cases hid : Frame.maxStandardId < f.id
  · simp [hid, hf.extended hid]
  · simp [hid, not_lt.mp hid]

/-- The statement that sends a frame sends it. -/
lemma send_delivers (h : Ready t port v) (hports : s.ports = [port]) (hf : Trace.Recorded f)
    (hst : st.unplaced = Trace.sendStmt f) :
    Delivers t port (execStmt s call scope st) l v .normal [f] := by
  cases st with
  | send pos id data x =>
    obtain ⟨-, hid, hdata, hx⟩ := send.inj hst
    have hraw := toInt_ofNat_small (Trace.id_in_range hf.id_le)
    have hreleased : Ready t port { v with turn := none } :=
      ⟨h.setTurn (.inl rfl), h.unclaimed, h.takes⟩
    have hwritten : Undisturbed t
        (({ v with turn := none } : Bench).afterWrite t ⟨f.id, f.data, f.extended, port, 0⟩) :=
      ⟨h.going, h.state, .inl rfl⟩
    obtain ⟨hready, hsent⟩ :=
      afterWrite_sent hreleased (f := ⟨f.id, f.data, f.extended, port, 0⟩) rfl
    refine ⟨l, _, ?_, hready, hsent.log, hsent.sent⟩
    rw [execStmt, sendFrame]
    refine .bind (a := ()) ((number_does hid).bind ((ofResult_does rfl _).bind ?_)) .pure
    -- Identifier and payload are in range, so that neither check fails.
    have hidRange := hf.id_le
    have hlength := hf.payload
    rw [if_neg (by omega)]
    refine (payload_does hdata).bind ?_
    rw [if_neg (by omega)]
    dsimp only
    rw [hraw, Int.toNat_natCast, extended_eq hf hx, hports]
    exact (release_does h.toUndisturbed).bind
      ((writeAll_does hreleased.toUndisturbed h.unclaimed h.takes _ _ _ _).bind
        (acquire_does hwritten))
  | _ => cases hst

/-! ## The main sequence -/

lemma Delivers.attempt {x} (h : Delivers t port x l v a frames) :
    Delivers t port (attempt x) l v (.ok a) frames := by
  obtain ⟨l', v', hdoes, hready, hsent⟩ := h
  exact ⟨l', v', hdoes.attempt, hready, hsent⟩

lemma mainSequence_cons {rest flow} (h : Ready t port v)
    (hst : ∀ l v, Ready t port v → Delivers t port (execStmt s s.call none st) l v flow frames)
    (hrest : ∀ l v, Ready t port v → Delivers t port (mainSequence s rest) l v () frames') :
    Delivers t port (mainSequence s (st :: rest)) l v () (frames ++ frames') := by
  have hfirst : Delivers t port
      (do checkpoint s.limits.yieldEvery; execStmt s s.call none st) l v flow frames :=
    (checkpoint_delivers h s.limits.yieldEvery).bind hst
  rw [mainSequence]
  exact hfirst.attempt.bind hrest

/-- The statements for frames, each after a time without one, send the frames. -/
lemma mainSequence_delivers (hports : s.ports = [port]) {plays : List (Nat × Frame)}
    (hplays : ∀ p ∈ plays, p.1 ≤ maxWord64 / 1000 ∧ Trace.Recorded p.2)
    (hstatements : statements.map unplaced
      = plays.flatMap fun p => Trace.playStmts p.1 p.2) (h : Ready t port v) :
    Delivers t port (mainSequence s statements) l v () (plays.map Prod.snd) := by
  induction plays generalizing statements l v with
  | nil =>
    obtain rfl : statements = [] := map_eq_nil_iff.mp hstatements
    rw [mainSequence]
    exact ⟨l, _, release_does h.toUndisturbed, ⟨h.setTurn (.inl rfl), h.unclaimed, h.takes⟩,
      .nothing rfl rfl⟩
  | cons p plays ih =>
    obtain ⟨⟨hgap, hf⟩, hplays⟩ := forall_mem_cons.mp hplays
    rw [flatMap_cons, Trace.playStmts] at hstatements
    -- With or without a delay, the frame and those after it are sent alike.
    have hsend : ∀ {statements : List Stmt}, statements.map unplaced
          = Trace.sendStmt p.2 :: plays.flatMap (fun p => Trace.playStmts p.1 p.2) →
        ∀ l v, Ready t port v →
          Delivers t port (mainSequence s statements) l v () (p.2 :: plays.map Prod.snd) := by
      intro statements hstatements l v hv
      obtain ⟨st, rest, rfl, hst, hrest⟩ := map_eq_cons_iff.mp hstatements
      exact mainSequence_cons hv (fun _ _ hv => send_delivers hv hports hf hst)
        fun _ _ hv => ih hplays hrest hv
    -- A delay comes before the frame only if there is a time to wait.
    split at hstatements
    · obtain ⟨st, rest, rfl, hst, hrest⟩ := map_eq_cons_iff.mp hstatements
      exact mainSequence_cons h (fun _ _ hv => delay_delivers hv hgap hst) (hsend hrest)
    · exact hsend hstatements l v h

lemma Bench.finish_of_running {b : Bench} (h : b.state = .running) :
    b.finish.state = .stopped ∧ b.finish.bus = b.bus ∧ b.finish.log.errors = b.log.errors
      ∧ b.finish.log.dropped = b.log.dropped := by
  have hactive : b.cancel.state.isActive := by
    show b.state.isActive
    rw [h]
    rfl
  have hother : ¬ b.cancel.state = .stopped := by
    show ¬ b.state = .stopped
    rw [h]
    exact nofun
  rw [finish, if_pos hactive, setState, if_neg hother]
  exact ⟨rfl, rfl, rfl, rfl⟩

lemma mainTask_comes (hhandlers : s.program.hasHandlers = false)
    (hmain : Delivers t port (mainSequence s s.program.statements) {} v () frames) :
    ∃ u, Sent port frames v u ∧ u.state = .running ∧ Comes t v (mainTask s) u.finish := by
  obtain ⟨l', u, hdoes, hready, hsent⟩ := hmain
  have hfinish : Does t (do if !s.program.hasHandlers then ask .finish) l' u () l' u.finish := by
    rw [hhandlers]
    exact .ask rfl rfl
  exact ⟨u, hsent, hready.state, (hdoes.bind hfinish) (fun _ => .pure ()) _ (.ends .refl)⟩

end Statements

/-! ## Runs -/

lemma Trace.length_gapsAfter (time frames) : (gapsAfter time frames).length = frames.length := by
  induction frames generalizing time with
  | nil => rfl
  | cons f frames ih => exact congrArg (· + 1) (ih f.timestamp)

lemma Trace.length_gaps (frames : List Frame) : (gaps frames).length = frames.length := by
  cases frames with
  | nil => rfl
  | cons f frames => exact congrArg (· + 1) (length_gapsAfter f.timestamp frames)

lemma Trace.gapsAfter_le (h : ∀ f ∈ frames, Recorded f) (time) :
    ∀ gap ∈ gapsAfter time frames, gap ≤ maxWord64 / 1000 := by
  induction frames generalizing time with
  | nil => exact nofun
  | cons f frames ih =>
    obtain ⟨hf, hframes⟩ := forall_mem_cons.mp h
    exact forall_mem_cons.mpr ⟨(Nat.sub_le _ _).trans hf.timestamp, ih hframes f.timestamp⟩

lemma Trace.gaps_le (h : ∀ f ∈ frames, Recorded f) :
    ∀ gap ∈ gaps frames, gap ≤ maxWord64 / 1000 := by
  cases frames with
  | nil => exact nofun
  | cons f frames =>
    exact forall_mem_cons.mpr ⟨Nat.zero_le _, gapsAfter_le (forall_mem_cons.mp h).2 f.timestamp⟩

namespace Session

lemma start_ready (limits) {bus} (writeTime) {port source}
    (hsource : Program.ofSource source = ({ statements }, []))
    (hport : bus.isFailing port = false) :
    ∃ s id, (ofLimits limits bus writeTime).start source [port] = (s, .ok id)
      ∧ s.Runs 1 s.bench (mainTask ⟨{ statements }, [port], limits⟩)
      ∧ Ready 1 port s.bench ∧ s.bench.bus.sent = bus.sent ∧ s.bench.spawned = []
      ∧ s.bench.log.errors = #[] ∧ s.bench.log.dropped = 0 := by
  refine ⟨((ofLimits limits bus writeTime).update fun b => { b with log := b.log.reset }).launch
    { statements } [port] |>.1, 1, ?_, ⟨rfl, [⟨0, forwarder port (bus.subscribe port).2⟩], rfl, ?_⟩,
    ⟨⟨rfl, rfl, .inl rfl⟩, rfl, hport⟩, rfl, rfl, rfl, rfl⟩
  · have hrefusal : (ofLimits limits bus writeTime).startRefusal? [port] = none := rfl
    rw [start, hrefusal, hsource]
    rfl
  · exact forall_mem_singleton.mpr ⟨port, _, 0, .refl _⟩

/-- Puts a frame on the bus after a time without one. -/
def playAfter (s : Session) (port? : Option String) (gap : Nat) (f : Frame) : Session :=
  let s : Session := if 0 < gap then s.advance gap else s
  (s.inject { f with port := port?.getD f.port, timestamp := 0 }).1

lemma replayAfter_eq (s) (port? : Option String) (time frames) :
    s.replayAfter port? none time frames = (((Trace.gapsAfter time frames).zip frames).foldl
          (fun s p => playAfter s port? p.1 p.2) s, frames.length) := by
  induction frames generalizing s time with
  | nil => rfl
  | cons f frames ih =>
    rw [replayAfter, Trace.gapsAfter, zip_cons_cons, foldl_cons, length_cons]
    dsimp only [Option.filter]
    rw [ih]
    rfl

lemma replay_eq (s) (port? : Option String) (h : ∀ f ∈ frames.head?, f.timestamp = 0) :
    s.replay frames port? none = (((Trace.gaps frames).zip frames).foldl
          (fun s p => playAfter s port? p.1 p.2) s, frames.length) := by
  have hgaps : Trace.gaps frames = Trace.gapsAfter 0 frames := by
    cases frames with
    | nil => rfl
    | cons f frames =>
      rw [Trace.gaps, Trace.gapsAfter, h f rfl]
  rw [hgaps]
  exact replayAfter_eq s port? 0 frames

end Session

namespace Trace

/-- A run on a port has ended and has sent frames in order, in addition to what was on the bus
    before, and no error was recorded. -/
structure Resent (bus : Bus) (port : String) (frames : List Frame) (b : Bench) : Prop where
  state : b.state = .stopped
  errors : b.log.errors = #[]
  dropped : b.log.dropped = 0
  sent : ∃ added : List Frame, b.bus.sent.toList = bus.sent.toList ++ added
    ∧ added.map Frame.content = frames.map Frame.content ∧ ∀ f ∈ added, f.port = port

/-- What sends recorded frames is done when enough time has passed. -/
lemma resendStmts_run (hframes : ∀ f ∈ frames, Recorded f) {source}
    (hsource : Program.ofSource source = ({ statements }, []))
    (hstatements : statements.map unplaced = resendStmts (gaps frames) frames) (limits) {bus}
    (writeTime) {port} (hport : bus.isFailing port = false) :
    ∃ s id enough, (Session.ofLimits limits bus writeTime).start source [port] = (s, .ok id)
      ∧ ∀ passes limit, enough ≤ passes → enough ≤ limit →
        Resent bus port frames (Machine.settleRunWithin passes s limit).bench := by
  obtain ⟨s, id, hstart, hruns, hready, hbus, hspawned, herrors, hdropped⟩ :=
    Session.start_ready limits writeTime hsource hport
  have hplays : ∀ p ∈ (gaps frames).zip frames,
      p.1 ≤ maxWord64 / 1000 ∧ Recorded p.2 := fun p hp =>
    ⟨gaps_le hframes p.1 (of_mem_zip hp).1, hframes p.2 (of_mem_zip hp).2⟩
  -- The task by itself: it sends the frames and then ends the run.
  have hmain := mainSequence_delivers (s := ⟨{ statements }, [port], limits⟩) (l := {}) rfl hplays
    hstatements hready
  rw [map_snd_zip (length_gaps frames).ge] at hmain
  obtain ⟨u, hsent, hstate, hcomes⟩ := mainTask_comes rfl hmain
  obtain ⟨hstopped, hfinishBus, hfinishErrors, hfinishDropped⟩ := Bench.finish_of_running hstate
  -- The task among the others, given enough passes and time.
  obtain ⟨enough, hrun⟩ := hcomes.passTime (hcomes.spawned_eq.trans hspawned)
    (by rw [hstopped]; rfl)
  refine ⟨s, id, max enough (u.finish.now - s.bench.now), hstart, ?_⟩
  intro passes limit hpasses hlimit
  have hover := hrun passes (by omega) s hruns (s.bench.now + limit) (by omega) (limit + 1)
    (by omega)
  have hlog : (Machine.settleRunWithin passes s limit).bench.log = u.finish.log :=
    (congrArg Bench.log hover :)
  have hsame : (Machine.settleRunWithin passes s limit).bench.bus.sent = u.finish.bus.sent :=
    (congrArg (fun b : Bench => b.bus.sent) hover :)
  obtain ⟨added, hadded⟩ := hsent.sent
  refine ⟨(congrArg Bench.state hover : _).trans hstopped, ?_, ?_, added, ?_⟩
  · rw [hlog, hfinishErrors, hsent.log, herrors]
  · rw [hlog, hfinishDropped, hsent.log, hdropped]
  · rw [hsame, hfinishBus, ← hbus]
    exact hadded

/-- **A converted trace sends what was recorded.**  The script of a trace is
    read without a fault and has nothing but a main sequence: for each frame a wait for the time
    since the frame before, if there is any, and a `send`. A replay waits for the same times.  Run
    on a port that takes frames, the script sends those of the trace in order and ends without an
    error. -/
theorem convert_resends {text : String} {frames : List Frame} (h : read text = .ok frames)
    (limits : RunConfig) (bus : Bus) (writeTime : Nat) (port : String)
    (hport : bus.isFailing port = false) :
    ∃ script statements, convert text = .ok script
      ∧ Program.ofSource script = ({ statements }, [])
      ∧ statements.map Stmt.unplaced = resendStmts (gaps frames) frames
      ∧ (∀ (s : Session) (port? : Option String), s.replay frames port? none
          = (((gaps frames).zip frames).foldl
              (fun s p => Session.playAfter s port? p.1 p.2) s, frames.length))
      ∧ ∃ s id enough, (Session.ofLimits limits bus writeTime).start script [port] = (s, .ok id)
          ∧ ∀ passes limit, enough ≤ passes → enough ≤ limit →
            Resent bus port frames (Machine.settleRunWithin passes s limit).bench := by
  have hframes := readLines_recorded (Nat.zero_le _) h
  obtain ⟨statements, hsource, hstatements⟩ := ofSource_toScript hframes
  refine ⟨toScript frames, statements, by rw [convert, h]; rfl, hsource, hstatements, ?_,
    resendStmts_run hframes hsource hstatements limits writeTime hport⟩
  intro s port?
  refine Session.replay_eq s port? fun f hf => ?_
  cases frames with
  | nil => cases hf
  | cons g frames =>
    cases hf
    exact readLines_head h

/-- A recording in both notations, with a pause of five milliseconds and an extended frame that only
    its four digits mark. -/
def twoPorts : String :=
  "(1.000000) can0 123#AABB\n(1.005) can1 0012 [1] 01\n"

theorem convert_resends_twoPorts :
    (∃ frames, read twoPorts = .ok frames ∧ gaps frames = [0, 5]
      ∧ frames.map Frame.content = [(0x123, [0xAA, 0xBB], false), (0x12, [0x01], true)])
    ∧ ∃ script statements, convert twoPorts = .ok script
      ∧ Program.ofSource script = ({ statements }, []) ∧ statements.length = 3
      ∧ ∃ s id enough,
        (Session.ofLimits {} (.ofCapacity 16)).start script ["vcan0"] = (s, .ok id)
        ∧ ∀ passes limit, enough ≤ passes → enough ≤ limit →
          (Machine.settleRunWithin passes s limit).bench.bus.sent.toList.map Frame.content
            = [(0x123, [0xAA, 0xBB], false), (0x12, [0x01], true)] := by
  have hoption : (read twoPorts).toOption
      = some [⟨0x123, [0xAA, 0xBB], false, "can0", 0⟩, ⟨0x12, [0x01], true, "can1", 5⟩] := by
    decide +kernel
  have hread : read twoPorts
      = .ok [⟨0x123, [0xAA, 0xBB], false, "can0", 0⟩, ⟨0x12, [0x01], true, "can1", 5⟩] := by
    cases hframes : read twoPorts with
    | error e =>
      rw [hframes] at hoption
      cases hoption
    | ok frames =>
      rw [hframes] at hoption
      exact congrArg Except.ok (Option.some.inj hoption)
  obtain ⟨script, statements, hconvert, hsource, hstatements, -, s, id, enough, hstart, hrun⟩ :=
    convert_resends hread {} (.ofCapacity 16) 0 "vcan0" rfl
  refine ⟨⟨_, hread, rfl, rfl⟩, script, statements, hconvert, hsource, ?_, s, id, enough, hstart,
    ?_⟩
  · rw [← length_map (f := Stmt.unplaced), hstatements]
    rfl
  · intro passes limit hpasses hlimit
    obtain ⟨added, hsent, hadded, -⟩ := (hrun passes limit hpasses hlimit).sent
    rw [hsent, map_append, hadded]
    rfl

end Trace

end CanScript
