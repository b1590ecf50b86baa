import CanScript.Proofs.Conduct
import CanScript.Proofs.History

/-! # How far a task can get

    A task begins as one of a few processes and goes on from there, whatever replies it gets.  So
    what holds of those processes wherever they can have got to holds of every task of every
    session. -/

namespace CanScript

def Request.Scripted : Request → Prop
  | .transmit f => f.Legal
  | .receive _ => False
  | .leavePort _ _ => False
  | .publish _ => False
  | _ => True

/-! ## Moves of a process -/

namespace Process

variable {α β σ : Type}

/-- What a process can have left to do after a number of moves. -/
inductive Reaches : Nat → Process α → Process α → Prop where
  | refl (p : Process α) : Reaches 0 p p
  | act {op : Request} {next : op.Reply → Process α} {n q} (reply : op.Reply) :
      Reaches n (next reply) q → Reaches (n + 1) (.act op next) q
  | iter {σ β : Type} {body : σ → Process (σ ⊕ β)} {s} {next : β → Process α} {n}
      {q} : Reaches n (unfold body s next) q → Reaches (n + 1) (.iter body s next) q

variable {p : Process α} {f : α → Process β}

lemma Reaches.of_bind {n q} (h : Reaches n (p.bind f) q) : (∃ p', Reaches n p p' ∧ q = p'.bind f) ∨
    ∃ a k m, k + m = n ∧ Reaches k p (.pure a) ∧ Reaches m (f a) q := by
  induction n generalizing p with
  | zero =>
    cases h
    exact .inl ⟨p, .refl p, rfl⟩
  | succ n ih =>
    cases p with
    | pure a => exact .inr ⟨a, 0, n + 1, Nat.zero_add _, .refl _, h⟩
    | act op next =>
      cases h with
      | act reply h =>
        rcases ih h with ⟨p', hp', heq⟩ | ⟨a, k, m, hkm, hfirst, hsecond⟩
        · exact .inl ⟨p', .act reply hp', heq⟩
        · exact .inr ⟨a, k + 1, m, by omega, .act reply hfirst, hsecond⟩
    | iter body s next =>
      cases h with
      | iter h =>
        rw [← unfold_bind] at h
        rcases ih h with ⟨p', hp', heq⟩ | ⟨a, k, m, hkm, hfirst, hsecond⟩
        · exact .inl ⟨p', .iter hp', heq⟩
        · exact .inr ⟨a, k + 1, m, by omega, .iter hfirst, hsecond⟩

lemma Reaches.step {q n} (h : Reaches n p q) (b t) : ∃ m, Reaches m p (q.step b t) := by
  induction h with
  | act reply _ ih =>
    obtain ⟨m, hm⟩ := ih
    exact ⟨m + 1, .act reply hm⟩
  | iter _ ih =>
    obtain ⟨m, hm⟩ := ih
    exact ⟨m + 1, .iter hm⟩
  | refl p =>
    cases p with
    | pure a => exact ⟨0, .refl _⟩
    | iter body s next => exact ⟨1, .iter (.refl _)⟩
    | act op next =>
      cases hanswer : (b.perform t op).answer? with
      | none =>
        rw [step_of_wait hanswer]
        exact ⟨0, .refl _⟩
      | some answer =>
        rw [step_of_answer hanswer]
        exact ⟨1, .act answer.2 (.refl _)⟩

/-! ## Wherever a process has got to -/

def Throughout (G : {α : Type} → Process α → Prop) (p : Process α) : Prop :=
  ∀ n q, Reaches n p q → G q

namespace Throughout

variable {G : {α : Type} → Process α → Prop}

lemma here (h : Throughout G p) : G p :=
  h 0 p (.refl p)

lemma pure {a : α} (h : G (.pure a)) : Throughout G (.pure a) := by
  intro n q hq
  cases hq
  exact h

lemma act {op : Request} {next : op.Reply → Process α} (h : G (.act op next))
    (hnext : ∀ reply, Throughout G (next reply)) : Throughout G (.act op next) := by
  intro n q hq
  cases hq with
  | refl => exact h
  | act reply hq => exact hnext reply _ q hq

lemma bind (hp : Throughout G p) (hG : ∀ {q}, G q → G (q.bind f))
    (hf : ∀ a, Throughout G (f a)) : Throughout G (p.bind f) := by
  intro n q h
  rcases h.of_bind with ⟨p', hp', rfl⟩ | ⟨a, k, m, -, -, hsecond⟩
  · exact hG (hp n p' hp')
  · exact hf a m q hsecond

lemma loop {body : σ → Process (σ ⊕ β)} (hbody : ∀ s, Throughout G (body s))
    (hG : ∀ {f : σ ⊕ β → Process β} {q}, (∀ outcome, G (f outcome)) → G q →
      G (q.bind f)) (hloop : ∀ s, G (Process.loop body s)) (hpure : ∀ b : β, G (.pure b)) (s) :
    Throughout G (Process.loop body s) := by
  intro n
  -- on the number of moves, of which each round takes some
  induction n using Nat.strongRecOn generalizing s with
  | ind n ih =>
    intro q h
    cases h with
    | refl => exact hloop s
    | iter h =>
      rcases Reaches.of_bind h with ⟨p', hp', rfl⟩ | ⟨outcome, k, m, hkm, -, hrest⟩
      · refine hG (fun outcome => ?_) (hbody s _ p' hp')
        cases outcome with
        | inl s' => exact hloop s'
        | inr b => exact hpure b
      · cases outcome with
        | inl s' => exact ih m (by omega) s' q hrest
        | inr b => exact Throughout.pure (hpure b) m q hrest

end Throughout

/-! ## The requests of a process -/

def Only (O : Request → Prop) (p : Process α) : Prop :=
  Throughout (fun q => ∀ op, q.request? = some op → O op) p

namespace Only

variable {O : Request → Prop}

lemma pure (a : α) : Only O (.pure a) :=
  Throughout.pure (by simp [request?])

lemma act {op} (hop : O op) : Answers (Only O) op := by
  intro α next hnext
  refine Throughout.act (fun op' hop' => ?_) hnext
  cases hop'
  exact hop

lemma request_bind {q : Process α} (hf : ∀ a op, (f a).request? = some op → O op)
    (hq : ∀ op, q.request? = some op → O op) : ∀ op, (q.bind f).request? = some op → O op := by
  cases q with
  | pure a => exact hf a
  | act op next => exact hq
  | iter body s next => exact hq

lemma bind (hp : Only O p) (hf : ∀ a, Only O (f a)) : Only O (p.bind f) :=
  Throughout.bind hp (request_bind fun a => (hf a).here) hf

lemma sequential : Sequential (Only O) :=
  ⟨Only.pure, Only.bind⟩

lemma loop {body : σ → Process (σ ⊕ β)} (hbody : ∀ s, Only O (body s)) (s) :
    Only O (Process.loop body s) :=
  Throughout.loop hbody request_bind (fun _ _ h => by cases h) (fun _ _ h => by cases h) s

lemma pervasive (hO : ∀ op, op.Scripted → O op) (s : Setting) : Pervasive s (Only O) := by
  have hplain : ∀ op, op.Plain → Answers (Only O) op := by
    intro op hop
    refine Only.act (hO op ?_)
    cases op with
    | transmit f => exact hop.elim
    | receive source => exact hop
    | leavePort port r => exact hop
    | publish f => exact hop
    | _ => trivial
  exact Indifferent.pervasive ⟨Only.sequential, hplain, fun f hf =>
    Only.sequential.evalWrite (fun op hop => hplain op hop.plain) (Only.act (hO _ hf))⟩ Only.loop s

end Only

end Process

/-! ## Whatever a task is there for -/

namespace Process.Pervasive

open Eval

variable {s : Setting} {Q : {α : Type} → Process α → Prop} (h : Pervasive s Q)
  (hset : ∀ bs, Answers Q (.setGlobals bs))

include h hset

lemma conductsAll : Conducts s (fun _ => True) (.of (fun x => Always Q x)) := by
  have hglobals : Answers Q .globals := h.ask _ trivial
  exact h.conducts (fun id name v => h.evalDefine hglobals hset (some id) name v)
    (fun name v _ => h.evalDefine hglobals hset none name v) (fun _ _ _ _ => trivial)
    (fun pos name op _ _ => h.sober.execAssign hset pos name op)

lemma role {p} (hforwarder : ∀ port r, p = forwarder port r → Q p)
    (hdispatcher : ∀ r, p = dispatcher s r → Q p)
    (hinterval : ∀ i millis, Always Q (Eval.loop (fun _ => CanScript.intervalRound i millis) ()))
    (hrole : Role s p) : Q p := by
  have hconducts := h.conductsAll hset
  have hprogram := s.program.unrestricted
  cases hrole with
  | main =>
    rw [mainTask_eq]
    exact h.toProcess (h.sober.mainRest hconducts.toAttends hprogram.allows fun _ _ => trivial)
  | forwarder port r => exact hforwarder port r rfl
  | dispatcher r => exact hdispatcher r rfl
  | interval i hmem => exact h.sober.intervalTask (hconducts.period hprogram hmem) (hinterval i)
  | activation a => exact h.sober.activationTask hconducts.toAttends hprogram a

end Process.Pervasive

open Process in
lemma Role.only {setting p} (h : Role setting p) {O : Request → Prop}
    (hscript : ∀ op, op.Scripted → O op) (hforwarder : ∀ port r, p = CanScript.forwarder port r →
      O (.receive (.port port r)) ∧ O (.leavePort port r) ∧ ∀ f, O (.publish f))
    (hdispatcher : ∀ r, p = CanScript.dispatcher setting r → O (.receive (.hub r))) : p.Only O := by
  have hp := Only.pervasive hscript setting
  have hset : ∀ bs, Answers (Only O) (.setGlobals bs) := fun bs => Only.act (hscript _ trivial)
  refine hp.role hset (fun port r heq => ?_) (fun r heq => ?_) (fun i millis => ?_) h
  · obtain ⟨hreceive, hleave, hpublish⟩ := hforwarder port r heq
    rw [heq]
    exact Only.loop (fun _ => hp.forwardRound (Only.act hreceive) (Only.act hleave)
      fun f => Only.act (hpublish f)) ()
  · have hround := hp.dispatchRound (hp.conductsAll hset) setting.program.unrestricted
      (Only.act (hdispatcher r heq))
    rw [heq]
    exact hp.toProcess (hp.evalLoop (fun _ => hround) Only.loop ())
  · exact hp.evalLoop (fun _ => hp.intervalRound i millis) Only.loop ()

/-! ## Where tasks have come from -/

lemma History.Along.reaches {H : History} {α : Type} {t i j} {c d : Process α}
    (h : H.Along t i c j d) : ∃ n, Process.Reaches n c d := by
  induction h with
  | start => exact ⟨0, .refl c⟩
  | stay _ _ ih => exact ih
  | move _ _ _ ih =>
    obtain ⟨n, hn⟩ := ih
    exact hn.step _ _

namespace Session

def Descends (s : Session) (p : Process Unit) : Prop :=
  ∃ setting origin n, s.bench.setting? = some setting ∧ Role setting origin ∧
    Process.Reaches n origin p

lemma Descends.of_setting {s s' : Session} (h : s'.bench.setting? = s.bench.setting?)
    {p} (hp : s.Descends p) : s'.Descends p := by
  obtain ⟨setting, origin, n, hsetting, hrest⟩ := hp
  exact ⟨setting, origin, n, h.trans hsetting, hrest⟩

/-- Every task of a session has come from what a task of its run is there for. -/
lemma Reachable.descends {limits bus writeTime s}
    (h : Reachable limits bus writeTime s) : ∀ task ∈ s.tasks, s.Descends task.rest := by
  refine h.invariant (P := fun s => ∀ task ∈ s.tasks, s.Descends task.rest)
    (List.forall_mem_nil _) ?_ (fun _ _ => List.forall_mem_nil _) (fun _ _ _ _ _ hs => hs) ?_
  · intro who s s' _ hstep hs
    have hsame : ∀ task ∈ s.tasks, s'.Descends task.rest :=
      fun task hmem => (hs task hmem).of_setting hstep.setting?
    cases hstep with
    | @move b before task behind =>
      -- the task that moves has come further from the same origin
      obtain ⟨hbefore, hrest⟩ := List.forall_mem_append.mp hsame
      obtain ⟨htask, hbehind⟩ := List.forall_mem_cons.mp hrest
      refine List.forall_mem_append.mpr ⟨List.forall_mem_append.mpr ⟨hbefore, ?_⟩, hbehind⟩
      intro moved hmoved
      rw [Task.moved] at hmoved
      split at hmoved
      · cases hmoved
      · rw [List.mem_singleton.mp hmoved]
        obtain ⟨setting, origin, n, hsetting, hrole, hreaches⟩ := htask
        obtain ⟨m, hm⟩ := hreaches.step b task.id
        exact ⟨setting, origin, m, hsetting, hrole, hm⟩
    | spawn =>
      obtain ⟨processes, heq, hprocesses⟩ := startTasks_eq s
      intro task hmem
      rw [heq] at hmem
      rcases mem_addTasks hmem with hold | ⟨-, hnew⟩
      · exact hsame task hold
      · obtain ⟨run, a, hrun, -, hactivation⟩ := hprocesses _ hnew
        rw [hactivation]
        refine ⟨run.setting, _, 0, ?_, .activation a, .refl _⟩
        rw [heq]
        exact congrArg (Option.map _) hrun
    | external hexternal =>
      rw [hexternal.apart.tasks]
      exact hsame
  · intro s hbare _ program ports task hmem
    have hlaunched := launch_launched hbare program ports
    obtain ⟨run, hrun, -, hsetting⟩ := hlaunched.run
    refine ⟨_, _, 0, ?_, hlaunched.roles task hmem, .refl _⟩
    rw [Bench.setting?, hrun, ← hsetting]
    rfl

lemma Reachable.throughout {limits bus writeTime s} (h : Reachable limits bus writeTime s) {G}
    (hG : ∀ {setting p}, Role setting p → Process.Throughout G p) {task} (hmem : task ∈ s.tasks) :
    G task.rest := by
  obtain ⟨setting, origin, n, -, hrole, hreaches⟩ := h.descends task hmem
  exact hG hrole n task.rest hreaches

end Session

end CanScript
