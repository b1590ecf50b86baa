import CanScript.Proofs.Silence
import CanScript.Proofs.Turns

/-! # Tasks that a pause holds up

    While a run is paused every task is held up before its next statement, the next round of a loop,
    its next sleep or its next frame.  Only what was in the middle of a write when the pause began
    goes on up to such a point. -/

namespace CanScript

open Bench

/-! ## Tasks that are held up -/

/-- What a task that is held up knows. -/
inductive Stance where
  /-- It does not have the turn. -/
  | free
  /-- It does not have the turn, and the run was told to end. -/
  | told
  /-- It has the turn, and these are the variables. -/
  | held (globals : Bindings)

namespace Stance

variable {b : Bench}

def globals? : Stance → Option Bindings
  | held globals => some globals
  | _ => none

/-- After the turn was given back. -/
def release : Stance → Stance
  | held _ => free
  | k => k

def heed : Stance → Standing → Stance
  | free, .stopped => told
  | k, _ => k

def Acquires : Stance → Bool → Stance → Prop
  | free, true, k => ∃ globals, k = held globals
  | free, false, k => k = told
  | told, going, k => going = false ∧ k = told
  | held globals, going, k => going = true ∧ k = held globals

/-- What a task knows is true of a bench whose run does not go on. -/
structure Fits (k : Stance) (t : TaskId) (b : Bench) : Prop where
  standing : b.standing ≠ .running
  free : k.globals? = none → b.turn ≠ some t
  held : ∀ globals, k.globals? = some globals → b.turn = some t ∧ b.globals = globals
  told : k = told → b.isCancelled = true

lemma exists_fits (t) (h : b.standing ≠ .running) : ∃ k : Stance, k.Fits t b := by
  by_cases hturn : b.turn = some t
  · refine ⟨.held b.globals, h, ?_, ?_, ?_⟩
    · rintro ⟨⟩
    · rintro globals ⟨⟩
      exact ⟨hturn, rfl⟩
    · rintro ⟨⟩
  · refine ⟨.free, h, fun _ => hturn, ?_, ?_⟩
    · rintro globals ⟨⟩
    · rintro ⟨⟩

lemma Fits.of_free {t} (hstanding : b.standing ≠ .running) (hturn : b.turn ≠ some t) :
    Fits .free t b := by
  refine ⟨hstanding, fun _ => hturn, ?_, ?_⟩
  · rintro globals ⟨⟩
  · rintro ⟨⟩

lemma Fits.of_told {t} (hcancelled : b.isCancelled) (hturn : b.turn ≠ some t) : Fits .told t b := by
  refine ⟨?_, fun _ => hturn, ?_, fun _ => hcancelled⟩
  · rw [standing_eq_stopped_iff.mpr hcancelled]
    simp
  · rintro globals ⟨⟩

end Stance

/-- What a task may ask for that is held up: nothing that a script could be seen to do. -/
def Request.Withheld (k : Stance) : Request → Prop
  | .standing => True
  | .acquire => True
  | .release => True
  | .awaitRunning => True
  | .clock => True
  | .receive _ => True
  | .leavePort _ _ => True
  | .publish _ => True
  | .globals => True
  | .setGlobals bs => ∀ bs', k.globals? = some bs' → bs = bs'
  | _ => False

/-- The replies of a run that does not go on, and what they tell. -/
def Stance.After (k : Stance) : (op : Request) → op.Reply → Stance → Prop
  | .standing, reply, k' => (reply : Standing) ≠ .running ∧ k' = k.heed reply
  | .acquire, reply, k' => k.Acquires reply k'
  | .release, _, k' => k' = k.release
  | .awaitRunning, reply, k' => (reply : Bool) = false ∧ k' = k
  | .globals, reply, k' => (reply : Option Bindings) = k.globals? ∧ k' = k
  | .setGlobals _, reply, k' => (reply : Bool) = k.globals?.isSome ∧ k' = k
  | _, _, k' => k' = k

def withholding : Regime Stance where
  allows k op := op.Withheld k
  after k op reply k' := k.After op reply k'

/-! ## What they know is true -/

namespace Stance.Fits

variable {k : Stance} {t : TaskId} {b b' : Bench} {op : Request}

lemma of_same (h : k.Fits t b) (hstanding : b'.standing = b.standing)
    (hcancelled : b'.isCancelled = b.isCancelled) (hturn : b'.turn = b.turn)
    (hglobals : b'.globals = b.globals) : k.Fits t b' where
  standing := by
    rw [hstanding]
    exact h.standing
  free := by
    rw [hturn]
    exact h.free
  held := by
    rw [hturn, hglobals]
    exact h.held
  told := by
    rw [hcancelled]
    exact h.told

lemma of_change (h : k.Fits t b) (hchange : Bench.Change t b op b') (hacquire : op ≠ .acquire)
    (hrelease : op ≠ .release) (hfinish : op ≠ .finish) (hset : ∀ bs, op ≠ .setGlobals bs) :
    k.Fits t b' := by
  obtain ⟨hstanding, hcancelled, -⟩ := hchange.standing_eq hfinish
  exact h.of_same hstanding hcancelled (hchange.turn_eq hacquire hrelease) (hchange.globals_eq hset)

lemma acquire {going} (h : k.Fits t b) (hanswer : (b.acquire t).answer? = some (b', going)) :
    ∃ k', k.Acquires going k' ∧ k'.Fits t b' := by
  rcases acquire_answer hanswer with
    ⟨hown, rfl, rfl⟩ | ⟨hne, hcancelled, rfl, rfl⟩ | ⟨hnone, hgoing, rfl, rfl⟩
  · cases k with
    | free | told => exact absurd hown (h.free rfl)
    | held bs => exact ⟨.held bs, ⟨rfl, rfl⟩, h⟩
  · have htold : Fits .told t b' := .of_told hcancelled hne
    cases k with
    | free => exact ⟨.told, rfl, htold⟩
    | told => exact ⟨.told, ⟨rfl, rfl⟩, htold⟩
    | held bs => exact absurd (h.held bs rfl).1 hne
  · cases k with
    | free =>
      refine ⟨.held b.globals, ⟨_, rfl⟩, h.standing, ?_, ?_, ?_⟩
      · rintro ⟨⟩
      · rintro bs ⟨⟩
        exact ⟨rfl, rfl⟩
      · rintro ⟨⟩
    | told => cases hgoing.symm.trans (h.told rfl)
    | held bs => cases hnone.symm.trans (h.held bs rfl).1

lemma release (h : k.Fits t b) :
    k.release.Fits t (if b.turn = some t then { b with turn := none } else b) := by
  cases k with
  | free | told =>
    rw [if_neg (h.free rfl)]
    exact h
  | held bs =>
    rw [if_pos (h.held bs rfl).1]
    exact .of_free h.standing (by simp)

lemma heed (h : k.Fits t b) : (k.heed b.standing).Fits t b := by
  cases k with
  | free =>
    cases hstanding : b.standing with
    | stopped =>
      exact .of_told (standing_eq_stopped_iff.mp hstanding) (h.free rfl)
    | paused => exact h
    | running => exact h
  | told => exact h
  | held bs => exact h

end Stance.Fits

/-- What a task that is held up knows stays true as it goes on. -/
lemma withholding_describes : withholding.Describes Stance.Fits where
  answered {k t b b' op reply} hfits hop hanswer := by
    have hchange := b.perform_change t op
    rw [Outcome.bench_of_answer hanswer] at hchange
    cases op with
    | standing =>
      cases hanswer
      exact ⟨_, ⟨hfits.standing, rfl⟩, hfits.heed⟩
    | acquire => exact hfits.acquire hanswer
    | release =>
      cases hanswer
      exact ⟨_, rfl, hfits.release⟩
    | awaitRunning =>
      obtain ⟨rfl, ⟨hreply, -⟩ | ⟨-, hrunning⟩⟩ := awaitRunning_answer hanswer
      · exact ⟨k, ⟨hreply, rfl⟩, hfits⟩
      · exact absurd hrunning hfits.standing
    | globals =>
      cases hanswer
      refine ⟨k, ⟨?_, rfl⟩, hfits⟩
      show (if b.turn = some t then some b.globals else none) = k.globals?
      cases hglobals : k.globals? with
      | none => rw [if_neg (hfits.free hglobals)]
      | some bs =>
        obtain ⟨hown, hsame⟩ := hfits.held bs hglobals
        rw [if_pos hown, hsame]
    | setGlobals bs =>
      -- a task that has the turn stores the variables that are there
      rw [perform] at hanswer
      cases hglobals : k.globals? with
      | none =>
        rw [if_neg (hfits.free hglobals)] at hanswer
        cases hanswer
        exact ⟨k, ⟨by rw [hglobals]; rfl, rfl⟩, hfits⟩
      | some bs' =>
        obtain ⟨hown, hsame⟩ := hfits.held bs' hglobals
        rw [if_pos hown] at hanswer
        cases hanswer
        refine ⟨k, ⟨by rw [hglobals]; rfl, rfl⟩, hfits.of_same rfl rfl rfl ?_⟩
        exact (hop bs' hglobals).trans hsame.symm
    | clock => exact ⟨k, rfl, hfits.of_change hchange (by simp) (by simp) (by simp) (by simp)⟩
    | receive source | leavePort port r | publish f =>
      exact ⟨k, rfl, hfits.of_change hchange (by simp) (by simp) (by simp) (by simp)⟩
    | _ => exact hop.elim
  waits {k t b op} hfits hwaits := by
    have hchange := b.perform_change t op
    by_cases hacquire : op = .acquire
    · subst hacquire
      rw [show (b.perform t .acquire).bench = b from (acquire_waits hwaits).1]
      exact hfits
    · refine hfits.of_change hchange hacquire ?_ ?_ fun bs => ?_
      · rintro rfl
        cases hwaits
      · rintro rfl
        cases hwaits
      · rintro rfl
        rw [perform] at hwaits
        split at hwaits <;> cases hwaits

/-! ## Processes that are held up by a pause -/

/-- The replies that hold a task up when the run does not go on: to the question how it stands, or
    to a wait for the run, for a moment that heeds pauses, or for a frame. -/
def Request.Breaks : (op : Request) → op.Reply → Prop
  | .standing, reply => (reply : Standing) ≠ .running
  | .awaitRunning, reply => (reply : Bool) = false
  | .sleepUntil _ true, reply => (reply : Waking) ≠ .expired
  | .nextFrame _ _, reply => (reply : Arrival) = .paused ∨ (reply : Arrival) = .stopped
  | .receive _, _ => True
  | _, _ => False

lemma Request.Steady.not_breaks {op : Request} (h : op.Steady) (reply) : ¬ op.Breaks reply := by
  cases op with
  | standing => exact h.elim
  | awaitRunning => exact h.elim
  | nextFrame r deadline => exact h.elim
  | receive source => exact h.elim
  | sleepUntil deadline heedPause =>
    cases h
    exact id
  | _ => exact id

def Stance.Idle (k : Stance) : Prop :=
  k = .free ∨ k = .told

namespace Process

open Regime

variable {α β σ : Type} {D : Grasp → α → Prop} {Q : Stance → α → Prop}

def Admits (D : Grasp → α → Prop) (p : Process α) (k : Stance) : Prop :=
  k.Idle ∨ ∃ told, discipline.Keeps D ⟨true, told⟩ p

def Breaks (D : Grasp → α → Prop) (Q : Stance → α → Prop) (p : Process α) : Prop :=
  ∀ op next, p = .act op next → ∀ reply, op.Breaks reply → ∀ k k', p.Admits D k →
    k.After op reply k' → withholding.Keeps Q k' (next reply)

def Heeds (D : Grasp → α → Prop) (Q : Stance → α → Prop) (p : Process α) : Prop :=
  ∀ n q, Reaches n p q → q.Breaks D Q

lemma Admits.idle {op next k} (h : (Process.act op next).Admits D k) (hop : ¬ op.Proper true) :
    k.Idle := by
  rcases h with hidle | ⟨told, hkeeps⟩
  · exact hidle
  · exact absurd hkeeps.of_act.1 hop

lemma Breaks.bind {D' Q'} {p : Process α} {f : α → Process β}
    (hp : p.Breaks (fun k a => discipline.Keeps D' k (f a)) Q)
    (hQ : ∀ k a, Q k a → withholding.Keeps Q' k (f a)) (hf : ∀ a, (f a).Breaks D' Q') :
    (p.bind f).Breaks D' Q' := by
  cases p with
  | pure a => exact hf a
  | iter body s next =>
    intro op next' heq
    cases heq
  | act op next =>
    intro op' next' heq reply hreply k k' hk hafter
    cases heq
    refine (hp op next rfl reply hreply k k' (hk.imp_right ?_) hafter).bind hQ
    rintro ⟨told, hkeeps⟩
    exact ⟨told, hkeeps.of_bind⟩

namespace Heeds

lemma pure (a : α) : Heeds D Q (.pure a) := by
  intro n q hq op next heq
  cases hq
  cases heq

lemma act {op next} (hbreaks : ∀ reply, op.Breaks reply → ∀ k k', (Process.act op next).Admits D k →
      k.After op reply k' → withholding.Keeps Q k' (next reply))
    (hnext : ∀ reply, Heeds D Q (next reply)) : Heeds D Q (.act op next) := by
  intro n q hq
  cases hq with
  | refl =>
    intro op' next' heq
    cases heq
    exact hbreaks
  | act reply hq => exact hnext reply _ q hq

lemma bind {D'} {Q' : Stance → β → Prop} {p} {f : α → Process β}
    (hp : Heeds (fun k a => discipline.Keeps D' k (f a)) Q p)
    (hQ : ∀ k a, Q k a → withholding.Keeps Q' k (f a)) (hf : ∀ a, Heeds D' Q' (f a)) :
    Heeds D' Q' (p.bind f) := by
  intro n q hq
  rcases hq.of_bind with ⟨p', hp', rfl⟩ | ⟨a, k, m, -, -, hsecond⟩
  · exact (hp n p' hp').bind hQ fun a => hf a 0 _ (.refl _)
  · exact hf a m q hsecond

/-- A loop is held up if its rounds are, by a result or before the next round. -/
lemma loop {I : Stance → σ → Prop} {D Q} {body : σ → Process (σ ⊕ β)}
    (hbody : ∀ s, Heeds (fun k => Sum.elim (fun s => discipline.Keeps D k (Process.loop body s))
      fun b => discipline.Keeps D k (.pure b)) (fun k => Sum.elim (I k) (Q k)) (body s))
    (hI : ∀ k s, I k s → withholding.Keeps Q k (Process.loop body s)) (s) :
    Heeds D Q (Process.loop body s) := by
  intro n
  -- on the number of moves, of which each round takes some
  induction n using Nat.strongRecOn generalizing s with
  | ind n ih =>
    intro q hq
    cases hq with
    | refl =>
      intro op next heq
      cases heq
    | iter hq =>
      rcases Reaches.of_bind hq with ⟨p', hp', rfl⟩ | ⟨outcome, k, m, hkm, -, hrest⟩
      · refine Breaks.bind (Q := fun k => Sum.elim (I k) (Q k))
          (fun op next heq reply hreply k k' hk => ?_) (fun k outcome houtcome => ?_)
          fun outcome op next heq => ?_
        · refine hbody s _ p' hp' op next heq reply hreply k k' (hk.imp_right ?_)
          rintro ⟨told, hkeeps⟩
          refine ⟨told, hkeeps.mono fun k outcome houtcome => ?_⟩
          cases outcome with
          | inl s' | inr b => exact houtcome
        · cases outcome with
          | inl s' => exact hI k s' houtcome
          | inr b =>
            have hend : withholding.Keeps Q k (.pure b) := .pure houtcome
            exact hend
        · cases outcome with
          | inl s' | inr b => cases heq
      · cases outcome with
        | inl s' => exact ih m (by omega) s' q hrest
        | inr b => exact Heeds.pure b m q hrest

end Heeds

end Process

/-! ## Executions that are held up by a pause -/

namespace Eval

open Process Regime

variable {α β σ : Type} {Q : Stance → α → Prop}

def HeldUp (_ : Stance) (e : Interrupt) : Prop :=
  e = .stopped

def Heeds (Q : Stance → α → Prop) (x : Eval α) : Prop :=
  ∀ l D, Process.Heeds D (Leaving HeldUp Q) (x.start l)

/-- An execution that goes no further when it is held up. -/
abbrev Pausable (x : Eval α) : Prop :=
  Heeds (fun _ _ => False) x

lemma awaitRunning_withheld (k f) :
    Under withholding HeldUp k (ask .awaitRunning >>= fun going => orStopped going >>= f) Q := by
  refine .askBind trivial fun going k' hafter => ?_
  obtain ⟨hgoing, -⟩ := hafter
  cases hgoing
  exact .throw rfl

namespace Heeds

variable {body : σ → Eval (σ ⊕ β)} {x : Eval α}

lemma pure (a : α) : Heeds Q (Pure.pure a : Eval α) :=
  fun _ _ => .pure _

lemma throw (e) : Heeds Q (throw e : Eval α) :=
  fun _ _ => .pure _

lemma bind {Q'} {f : α → Eval β} (hx : Heeds Q x)
    (hQ : ∀ k a, Q k a → Under withholding HeldUp k (f a) Q') (hf : ∀ a, Heeds Q' (f a)) :
    Heeds Q' (x >>= f) := by
  intro l D
  refine Process.Heeds.bind (hx l _) (fun k r hr => ?_) fun r => ?_
  · obtain ⟨result, l'⟩ := r
    cases result with
    | ok a => exact hQ k a hr l'
    | error e => exact Keeps.pure hr
  · obtain ⟨result, l'⟩ := r
    cases result with
    | ok a => exact hf a l' D
    | error e => exact .pure _

lemma andThen {Q' : Stance → β → Prop} {f} (hx : Pausable x) (hf : ∀ a, Heeds Q' (f a)) :
    Heeds Q' (x >>= f) :=
  hx.bind (fun _ _ h => h.elim) hf

lemma ask (op) {Q} (hop : ∀ reply, ¬ op.Breaks reply) : Heeds Q (Eval.ask op) :=
  fun _ _ => .act (fun reply hreply => absurd hreply (hop reply)) fun _ => .pure _

lemma askBind {op f}
    (hbreaks : ∀ reply, op.Breaks reply → ∀ k, Under withholding HeldUp k (f reply) Q)
    (hf : ∀ reply, Heeds Q (f reply)) : Heeds Q (Eval.ask op >>= f) :=
  fun l D => .act (fun reply hreply _ k _ _ => hbreaks reply hreply k l) fun reply => hf reply l D

lemma next {op : Request} {f : op.Reply → Eval α} (hop : ∀ reply, ¬ op.Breaks reply)
    (hf : ∀ reply, Heeds Q (f reply)) : Heeds Q (Eval.ask op >>= f) :=
  .askBind (fun reply hreply => absurd hreply (hop reply)) hf

lemma inScope {parent body} (hbody : ∀ id, Heeds Q (body id)) : Heeds Q (inScope parent body) :=
  fun _ _ => .bind (hbody _ _ _) (fun _ _ hr => Keeps.pure (hr.elsewhere _)) fun _ => .pure _

lemma deeper (hx : Heeds Q x) : Heeds Q (deeper x) :=
  fun _ _ => .bind (hx _ _) (fun _ _ hr => Keeps.pure (hr.elsewhere _)) fun _ => .pure _

lemma attempt (hx : Pausable x) : Pausable (attempt x) := by
  intro l D
  refine Process.Heeds.bind (hx l _) (fun k r hr => ?_) fun r => ?_
  · obtain ⟨result, l'⟩ := r
    cases result with
    | ok a => exact hr.elim
    | error e =>
      cases hr
      exact Keeps.pure rfl
  · obtain ⟨result, l'⟩ := r
    cases result with
    | ok a => exact .pure _
    | error e =>
      cases e with
      | error d | stopped => exact .pure _

lemma loopFrom {I : Stance → σ → Prop} {F : Grasp → Prop} {Q}
    (hF : ∀ k s l D, discipline.Keeps D k ((Eval.loop body s).start l) → F k)
    (hbody : ∀ s l D, (∀ k s l, D k (.ok (.inl s), l) → F k) →
      Process.Heeds D (Leaving HeldUp fun k => Sum.elim (I k) (Q k)) ((body s).start l))
    (hI : ∀ k s, I k s → Under withholding HeldUp k (Eval.loop body s) Q) (s) :
    Heeds Q (Eval.loop body s) := by
  intro l D
  refine Process.Heeds.loop (I := fun k (state : σ × Local) => I k state.1) (fun state => ?_)
    (fun k state hstate => hI k state.1 hstate state.2) (s, l)
  -- a round ends with the state for the next one or with a result, or it breaks off
  refine Process.Heeds.bind (hbody state.1 state.2 _ fun k s l hkeeps => ?_) (fun k r hr => ?_)
    fun r => ?_
  · exact hF k s l D hkeeps.of_pure
  · obtain ⟨result, l'⟩ := r
    cases result with
    | ok outcome =>
      cases outcome with
      | inl s' | inr b => exact Keeps.pure hr
    | error e => exact Keeps.pure hr
  · obtain ⟨result, l'⟩ := r
    cases result with
    | ok outcome =>
      cases outcome with
      | inl s' | inr b => exact .pure _
    | error e => exact .pure _

lemma loop {I : Stance → σ → Prop} {Q : Stance → β → Prop}
    (hbody : ∀ s, Heeds (fun k => Sum.elim (I k) (Q k)) (body s))
    (hI : ∀ k s, I k s → Under withholding HeldUp k (Eval.loop body s) Q) (s : σ) :
    Heeds Q (Eval.loop body s) :=
  .loopFrom (F := fun _ => True) (fun _ _ _ _ _ => trivial) (fun s l D _ => hbody s l D) hI s

lemma mono {Q' : Stance → α → Prop} (hx : Heeds Q x) (himp : ∀ k a, Q k a → Q' k a) :
    Heeds Q' x := by
  intro l D n q hq op next heq reply hreply k k' hk hafter
  exact (hx l D n q hq op next heq reply hreply k k' hk hafter).mono fun k _ hr => hr.mono (himp k)

lemma loopPausable (hbody : ∀ s, Pausable (body s)) (s : σ) : Pausable (Eval.loop body s) :=
  .loop (I := fun _ _ => False) (fun s => (hbody s).mono fun _ _ h => h.elim)
    (fun _ _ h => h.elim) s

lemma stateful : Stateful True Pausable where
  own hx l D := by
    obtain ⟨a, l', heq⟩ := hx l
    rw [heq]
    exact .pure _
  throw e _ := .throw e
  bind := andThen

lemma asks (op : Request) (hop : op.Steady) : Asks True Pausable op :=
  fun _ _ hf => .next hop.not_breaks fun reply => hf reply fun _ => trivial

lemma awaitRunning {f} (hf : ∀ u, Heeds Q (f u)) :
    Heeds Q (Eval.ask .awaitRunning >>= fun going => Eval.orStopped going >>= f) := by
  refine .askBind (fun going hbreaks k => ?_) fun going =>
    (stateful.orStopped fun _ => trivial).andThen hf
  cases hbreaks
  exact .throw rfl

lemma acquire : Pausable acquire :=
  stateful.acquire (asks _ trivial)

lemma release : Pausable release :=
  ask .release fun _ h => h

lemma checkpoint (yieldEvery) : Pausable (checkpoint yieldEvery) := by
  have hrest : Pausable (do
      if ← Eval.countStatement yieldEvery then
        Eval.release
        Eval.ask .yield
      Eval.acquire) := by
    refine (stateful.countStatement yieldEvery).andThen fun due => ?_
    cases due with
    | false => exact acquire
    | true => exact release.andThen fun _ => .next (fun _ h => h) fun _ => acquire
  refine .askBind (fun standing hbreaks k => ?_) fun standing => ?_
  · cases standing with
    | running => exact absurd rfl hbreaks
    | stopped => exact .throw rfl
    | paused => exact .askBind trivial fun _ k' _ => awaitRunning_withheld k' _
  cases standing with
  | running => exact hrest
  | paused => exact release.andThen fun _ => awaitRunning fun _ => hrest
  | stopped => exact .throw _

lemma uniform : Uniform True (.of Pausable) :=
  stateful.uniform asks .inScope attempt checkpoint

lemma sleep (millis : Nat) : Pausable (sleep millis) := by
  refine .loop (I := fun _ _ => True) (fun remaining => ?_) (fun k remaining _ => ?_) millis
  · refine awaitRunning fun _ => .next (fun _ h => h) fun began => .askBind ?_ fun waking => ?_
    · intro waking hbreaks k
      cases waking with
      | expired => exact absurd rfl hbreaks
      | paused => exact .askBind trivial fun _ _ _ => .pure trivial
      | stopped => exact .throw rfl
    · cases waking with
      | expired => exact .pure _
      | paused => exact .next (fun _ h => h) fun _ => .pure _
      | stopped => exact .throw _
  · -- the rest of the sleep begins with a wait for the run to go on
    refine .loop (I := fun _ _ => True) (fun k remaining _ => ?_) trivial
    exact awaitRunning_withheld k _

lemma setGlobals (bs) : Asks True Pausable (.setGlobals bs) :=
  fun _ _ hf => .next (fun _ h => h) fun reply => hf reply fun _ => trivial

lemma bindFrame (scope f) : Pausable (bindFrame scope f) :=
  stateful.composes.bindAll (n := 0) scope scope (frameFields f) fun field _ =>
    stateful.define (asks _ trivial) setGlobals scope field.1 field.2

section Waits

variable {s : Setting} {call : Caller} {scope : Option ScopeId} {predicate : Expr}
  (hpredicate : ∀ inner, Pausable (evalExpr s call (some inner) predicate))

include hpredicate

lemma frameMatches (f) : Pausable (frameMatches s call scope predicate f) := by
  show (Comparison.of Pausable).evals 0 (CanScript.frameMatches s call scope predicate f)
    (CanScript.frameMatches s call scope predicate f)
  exact uniform.frameMatches trivial (fun _ f => bindFrame _ f)
    (fun inner _ _ => hpredicate inner) f

lemma waitForFrame (millis : Nat) : Pausable (waitForFrame s call scope predicate millis) := by
  refine .next (fun _ h => h) fun reader => .next (fun _ h => h) fun now =>
    release.andThen fun _ => Heeds.andThen (.loop (I := fun _ _ => True) (fun deadline => ?_)
      (fun k deadline _ => ?_) _) fun found => .next (fun _ h => h) fun _ => .pure _
  · refine .next (fun _ h => h) fun held => awaitRunning fun _ => .next (fun _ h => h) fun now =>
      .askBind ?_ fun arrival => ?_
    · -- the pause ends this round, or the run was told to end
      intro arrival hbreaks k
      rcases hbreaks with rfl | rfl
      · exact .pure trivial
      · exact .throw rfl
    · cases arrival with
      | frame f =>
        refine (frameMatches hpredicate f).andThen fun found => ?_
        cases found with
        | true => exact (bindFrame scope f).andThen fun _ => .pure _
        | false => exact release.andThen fun _ => .pure _
      | lagged n | expired | paused => exact .pure _
      | stopped => exact .throw _
  · refine .loop (I := fun _ _ => True) (fun k deadline _ => ?_) trivial
    exact .askBind trivial fun held k' _ => awaitRunning_withheld k' _

end Waits

lemma conducts (s) : Conducts s (fun _ => True) (.of Pausable) where
  toExecutes := by
    refine uniform.executes (fun f _ => uniform.write fun _ _ _ _ hf => .next (fun _ h => h)
      fun reply => hf reply fun _ => trivial) sleep (fun {_ round _} _ hround => loopPausable
      (uniform.foreverRound (n := 0) _ 0 (checkpoint _) round round hround) true)
      (fun name v _ _ => stateful.define (asks _ trivial) setGlobals _ name v)
      (fun pos name op _ _ _ hvalue => ?_)
      fun millis _ _ hpredicate => waitForFrame (fun inner => hpredicate inner inner trivial) millis
    rw [execStmt]
    exact hvalue.andThen fun v => Heeds.andThen (uniform.closed.assignValue (n := 0) _ none trivial
      (stateful.assign (asks _ trivial) setGlobals _ name) pos op v) fun _ => .pure _
  deeper hx := .deeper hx
  attempt hx := attempt hx
  acquire := acquire
  release := release
  spawn a := ask (.spawn a) fun _ h => h

end Heeds

end Eval

/-! ## The tasks of a run -/

section Tasks

open Eval Regime

variable (s : Setting)

lemma Eval.Heeds.toProcess {x Q} (hx : Heeds Q x) (D) : x.toProcess.Heeds D fun _ _ => True :=
  Process.Heeds.bind (hx {} _) (fun _ _ _ => Keeps.pure trivial) fun _ => .pure _

lemma forwarder_heeds (port r D) : (forwarder port r).Heeds D fun _ _ => True := by
  have hround : ∀ k, withholding.Keeps (fun _ => Sum.elim (fun _ => True) fun _ => True) k
      (forwardRound port r) := by
    intro k
    refine Keeps.act trivial fun received k' _ => ?_
    rcases received with _ | ⟨f⟩ | ⟨n⟩
    · exact Keeps.act trivial fun _ _ _ => Keeps.pure trivial
    · exact Keeps.act trivial fun _ _ _ => Keeps.pure trivial
    · exact Keeps.pure trivial
  rw [forwarder_eq]
  refine .loop (I := fun _ _ => True) (fun _ => ?_)
    (fun k _ _ => Keeps.loop (I := fun _ _ => True) (fun k _ _ => hround k) trivial) ()
  refine .act (fun received _ k k' _ => (hround k).of_act.2 received k') fun received => ?_
  rcases received with _ | ⟨f⟩ | ⟨n⟩
  · exact .act (fun _ h => h.elim) fun _ => .pure _
  · exact .act (fun _ h => h.elim) fun _ => .pure _
  · exact .pure _

lemma dispatchFrame_told (f i) (handlers : List ReceiveHandler) :
    Under withholding HeldUp .told (dispatchFrame s f i handlers) fun k _ => k = .told := by
  cases handlers with
  | nil => exact .pure rfl
  | cons handler rest =>
    refine .bind (Q := fun _ _ => False) (.bind (Q := fun _ _ => False) ?_ fun _ _ h => h.elim)
      fun _ _ h => h.elim
    refine .askBind trivial fun going k' hafter => ?_
    obtain ⟨rfl, -⟩ := hafter
    exact .throw rfl

/-- A frame that arrives while the run does not go on is passed over. -/
lemma dispatchRound_withheld (r) {k} (hk : k.Idle) : Under withholding HeldUp k (dispatchRound s r)
      fun k => Sum.elim (fun _ => k.Idle) fun _ => True := by
  refine .askBind trivial fun received k' hafter => ?_
  cases hafter
  rcases received with _ | ⟨f⟩ | ⟨n⟩
  · exact .pure trivial
  · refine .askBind trivial fun standing k' hafter => ?_
    obtain ⟨hstanding, rfl⟩ := hafter
    cases standing with
    | running => exact absurd rfl hstanding
    | paused =>
      rcases hk with rfl | rfl
      · exact .pure (.inl rfl)
      · exact .pure (.inr rfl)
    | stopped =>
      have htold : k.heed .stopped = .told := by
        rcases hk with rfl | rfl
        · rfl
        · rfl
      rw [htold]
      refine .bind (dispatchFrame_told s f 0 _) fun k _ hk => .askBind trivial
        fun _ k' hafter => .pure ?_
      cases hk
      cases hafter
      exact .inr rfl
  · exact .pure hk

lemma dispatcher_heeds (r : ReaderId) (D : Grasp → Unit → Prop) :
    (dispatcher s r).Heeds D fun _ _ => True := by
  refine Heeds.toProcess (Q := fun _ _ => True) (.loopFrom (I := fun k _ => k.Idle)
    (F := fun k => k.held = false) (fun k _ l D hkeeps => ?_) (fun _ l D hD => ?_)
    (fun k _ hk => .loop (I := fun k _ => k.Idle) (fun k _ hk => dispatchRound_withheld s r hk) hk)
    ()) D
  · exact hkeeps.of_iter.of_bind.of_act.1
  · have hround := fun k hk => dispatchRound_withheld s r (k := k) hk l
    refine .act (fun received _ k k' hk hafter => ?_) fun received => ?_
    · exact (hround k (hk.idle (by simp [Request.Proper]))).of_act.2 received k' hafter
    · rcases received with _ | ⟨f⟩ | ⟨n⟩
      · exact .pure _
      · have hdispatch :=
          (Heeds.conducts s).dispatchFrame s.program.unrestricted (f := f)
            (fun _ => Heeds.ask _ fun _ h => h) 0 fun _ hmem => hmem
        have htest : Heeds (fun k => Sum.elim (fun _ => k.Idle) fun _ => True) (do
            dispatchFrame s f 0 s.program.receiveHandlers
            release
            return (.inl () : Unit ⊕ Unit)) :=
          Heeds.andThen hdispatch fun _ => Heeds.release.andThen fun _ => .pure _
        refine .act (fun standing hbreaks k k' hk hafter => ?_) fun standing => ?_
        · -- the next round is for a task without the turn, so this one does not have it
          have hidle : k.Idle := by
            rcases hk with hidle | ⟨told, hkeeps⟩
            · exact hidle
            · have hround := (hkeeps.of_act.2 Standing.paused _ ⟨trivial, rfl⟩).of_pure
              exact absurd (hD _ () l hround) Bool.true_eq_false.mp
          exact ((hround k hidle).of_act.2 (some (.item f)) k rfl).of_act.2 standing k' hafter
        · cases standing with
          | running => exact htest l D
          | paused => exact .pure _
          | stopped => exact htest l D
      · exact .pure _

/-- Whatever a task of a run is there for, it is held up by a pause. -/
lemma Role.heeds {setting p} (h : Role setting p) (D) : p.Heeds D fun _ _ => True := by
  have hconducts := (Heeds.conducts setting).toAttends
  have hprogram := setting.program.unrestricted
  cases h with
  | main =>
    refine Heeds.toProcess (Heeds.andThen (hconducts.mainSequence hprogram.allows
      fun _ _ => trivial) fun _ => (?_ : Pausable _)) D
    cases setting.program.hasHandlers with
    | true => exact .pure _
    | false => exact Heeds.ask .finish fun _ h => h
  | forwarder port r => exact forwarder_heeds port r D
  | dispatcher r => exact dispatcher_heeds setting r D
  | interval i hmem =>
    refine Heeds.toProcess (Heeds.acquire.andThen fun _ =>
      (Heeds.attempt (hconducts.period hprogram hmem)).andThen fun result =>
      Heeds.release.andThen fun _ => (?_ : Pausable _)) D
    cases result with
    | error d => exact Heeds.ask (.report d) fun _ h => h
    | ok millis =>
      have hround : Pausable (intervalRound i millis) :=
        (Heeds.sleep millis).andThen fun _ => .next (fun _ h => h) fun _ => .pure _
      exact Heeds.loopPausable (fun _ => hround) ()
  | activation a =>
    refine Heeds.toProcess ((Heeds.attempt (hconducts.activation hprogram a)).andThen
      fun result => Heeds.release.andThen fun _ => (?_ : Pausable _)) D
    cases result with
    | ok u => exact .pure _
    | error d => exact Heeds.ask (.report d) fun _ h => h

/-! ## What a pause withholds -/

lemma checkpoint_withheld (yieldEvery k) :
    Under withholding HeldUp k (checkpoint yieldEvery) fun _ _ => False := by
  refine .askBind trivial fun standing k' hafter => ?_
  cases standing with
  | running => exact absurd rfl hafter.1
  | stopped => exact .throw rfl
  | paused => exact .askBind trivial fun _ k' _ => awaitRunning_withheld k' _

lemma execStmts_withheld (call scope block k) :
    Under withholding HeldUp k (execStmts s call scope block) fun k' _ => k' = k := by
  cases block with
  | nil =>
    rw [execStmts]
    exact .pure rfl
  | cons stmt rest =>
    rw [execStmts]
    exact .bind (checkpoint_withheld _ k) fun _ _ h => h.elim

lemma acquire_withheld (k) : Under withholding HeldUp k acquire fun k _ => ∃ bs, k = .held bs := by
  refine .askBind trivial fun going k' hafter => ?_
  cases k with
  | free =>
    cases going with
    | true => exact .pure hafter
    | false => exact .throw rfl
  | told =>
    obtain ⟨rfl, -⟩ := hafter
    exact .throw rfl
  | held bs =>
    obtain ⟨rfl, hk⟩ := hafter
    exact .pure ⟨bs, hk⟩

lemma define_withheld (id name v bs) :
    Under withholding HeldUp (.held bs) (define (some id) name v) fun k _ => k = .held bs := by
  refine .bind (Q := fun k bs' => k = .held bs ∧ bs' = bs) ?_ fun k bs' hk l => ?_
  · refine .askBind trivial fun found k' hafter => ?_
    obtain ⟨rfl, rfl⟩ := hafter
    exact .pure ⟨rfl, rfl⟩
  · obtain ⟨rfl, rfl⟩ := hk
    refine Keeps.act (fun bs'' h => Option.some.inj h) fun going k' hafter => ?_
    obtain ⟨hgoing, rfl⟩ := hafter
    cases hgoing
    exact Keeps.pure rfl

lemma bindFrame_withheld (id f bs) :
    Under withholding HeldUp (.held bs) (bindFrame (some id) f) fun k _ => k = .held bs := by
  show Under _ _ _ ((frameFields f).forM fun field => define (some id) field.1 field.2) _
  induction frameFields f with
  | nil => exact .pure rfl
  | cons field fields ih =>
    refine .bind (define_withheld id field.1 field.2 bs) fun k _ hk => ?_
    cases hk
    exact ih

lemma activationTask_withheld (a k) :
    withholding.Keeps (fun _ _ => True) k (activationTask s a) := by
  have hbody : Under withholding HeldUp k (activation s a) fun _ _ => True := by
    refine .bind (acquire_withheld k) fun k _ hk => .inScope fun inner => ?_
    obtain ⟨bs, rfl⟩ := hk
    have hstmts : Under withholding HeldUp (.held bs) (do
        let _ ← execStmts s s.call (some inner) (s.body a)) fun _ _ => True :=
      .bind (execStmts_withheld s s.call (some inner) (s.body a) _) fun _ _ _ => .pure trivial
    cases a.frame? with
    | none => exact hstmts
    | some f =>
      refine .bind (bindFrame_withheld inner f bs) fun k _ hk => ?_
      cases hk
      exact hstmts
  refine (Under.toProcess (E := HeldUp) (Q := fun _ _ => True)
    (.bind (hbody.attempt fun _ h => h) fun k result hresult => ?_)).mono fun _ _ _ => trivial
  cases result with
  | ok u => exact .askBind trivial fun _ _ _ => .pure trivial
  | error d => cases hresult

end Tasks

end CanScript
