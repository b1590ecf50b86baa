import CanScript.Proofs.Moves

/-! # Processes that are alike

    Two processes are alike if they make the same requests and go on alike whatever the reply, until
    they end with results that correspond.  One of them may also let other tasks go first where the
    other does not.  When there are no other tasks this makes no difference, and both leave the
    bench in the same state. -/

namespace CanScript

open Bench Process

def Standing.isRunning : Standing → Bool
  | running => true
  | _ => false

/-- A reply that tells that the run goes on. -/
def Request.assures : (op : Request) → op.Reply → Bool
  | .standing, reply => Standing.isRunning reply
  | .awaitRunning, reply => reply
  | _, _ => false

lemma Bench.not_cancelled_of_running {b : Bench} (h : b.standing = .running) :
    b.isCancelled = false := by
  rw [standing] at h
  split at h
  · cases h
  · next hgoing => exact Bool.eq_false_iff.mpr hgoing

lemma Bench.assures_going {b b' : Bench} {t op reply}
    (hanswer : (b.perform t op).answer? = some (b', reply)) (h : op.assures reply) :
    b'.isCancelled = false := by
  cases op with
  | standing =>
    cases hanswer
    have hrunning : b.standing.isRunning := h
    unfold Standing.isRunning at hrunning
    split at hrunning
    · next hstanding => exact not_cancelled_of_running hstanding
    · cases hrunning
  | awaitRunning =>
    obtain ⟨rfl, ⟨rfl, -⟩ | ⟨-, hrunning⟩⟩ := awaitRunning_answer hanswer
    · cases h
    · exact not_cancelled_of_running hrunning
  | _ => cases h

namespace Process

/-! ## Likeness -/

/-- Two processes make the same requests and come to results that correspond. Where the run is known
    to be going on, one of them may let other tasks go first before it waits for the turn. -/
inductive Alike : Bool → {α α' : Type} → (α → α' → Prop) → Process α → Process α' → Prop where
  | pure {going} {α α' : Type} {R : α → α' → Prop} {a a'} :
      R a a' → Alike going R (.pure a) (.pure a')
  | act {going} {α α' : Type} {R : α → α' → Prop} {op : Request}
      {next : op.Reply → Process α} {next' : op.Reply → Process α'} :
      (∀ reply, Alike (op.assures reply) R (next reply) (next' reply)) →
      Alike going R (.act op next) (.act op next')
  | iter {going} {α α' σ σ' β β' : Type} {R : α → α' → Prop} (S : σ → σ' → Prop)
      (B : β → β' → Prop) {body : σ → Process (σ ⊕ β)} {body' : σ' → Process (σ' ⊕ β')} {s : σ}
      {s'} {next : β → Process α} {next' : β' → Process α'} :
      (∀ s s', S s s' → Alike false (Sum.LiftRel S B) (body s) (body' s')) → S s s' →
      (∀ b b', B b b' → Alike false R (next b) (next' b')) →
      Alike going R (.iter body s next) (.iter body' s' next')
  | before {α α' : Type} {R : α → α' → Prop} {next : Request.acquire.Reply → Process α}
      {next' : Request.acquire.Reply → Process α'} :
      (∀ reply, Alike false R (next reply) (next' reply)) →
      Alike true R (.act .release fun _ => .act .yield fun _ => .act .acquire next)
        (.act .acquire next')
  | after {α α' : Type} {R : α → α' → Prop} {next : Request.acquire.Reply → Process α}
      {next' : Request.acquire.Reply → Process α'} :
      (∀ reply, Alike false R (next reply) (next' reply)) → Alike true R (.act .acquire next)
        (.act .release fun _ => .act .yield fun _ => .act .acquire next')

namespace Alike

variable {going : Bool} {α α' β β' σ σ' : Type} {R : α → α' → Prop} {q : Process α'} {p : Process α}

lemma weaken (h : Alike false R p q) : Alike going R p q := by
  cases h with
  | pure hr => exact .pure hr
  | act hnext => exact .act hnext
  | iter S B hbody hs hnext => exact .iter S B hbody hs hnext

lemma ask {op} {next : op.Reply → Process α} {next' : op.Reply → Process α'}
    (h : ∀ reply, Alike false R (next reply) (next' reply)) :
    Alike going R (.act op next) (.act op next') :=
  .act fun reply => (h reply).weaken

lemma bind {R'} {f : α → Process β} {g : α' → Process β'} (h : Alike going R p q)
    (hf : ∀ a a', R a a' → Alike false R' (f a) (g a')) : Alike going R' (p.bind f) (q.bind g) := by
  induction h with
  | pure hr => exact (hf _ _ hr).weaken
  | act _ ih => exact .act fun reply => ih reply hf
  | iter S B hbody hs _ _ ih => exact .iter S B hbody hs fun b b' hb => ih b b' hb hf
  | before _ ih => exact .before fun reply => ih reply hf
  | after _ ih => exact .after fun reply => ih reply hf

lemma imp {R' : α → α' → Prop} (h : Alike going R p q) (hR : ∀ a a', R a a' → R' a a') :
    Alike going R' p q := by
  have hbind := h.bind (f := .pure) (g := .pure) fun a a' ha => .pure (hR a a' ha)
  rwa [bind_pure, bind_pure] at hbind

lemma loop {S B} {body : σ → Process (σ ⊕ β)} {body' : σ' → Process (σ' ⊕ β')}
    (hbody : ∀ s s', S s s' → Alike false (Sum.LiftRel S B) (body s) (body' s')) {s s'}
    (hs : S s s') : Alike going B (loop body s) (loop body' s') :=
  .iter S B hbody hs fun _ _ hb => .pure hb

lemma unfold {S B body} {body' : σ' → Process (σ' ⊕ β')} {s : σ} {s'} {next : β → Process α} {next'}
    (hbody : ∀ s s', S s s' → Alike false (Sum.LiftRel S B) (body s) (body' s')) (hs : S s s')
    (hnext : ∀ b b', B b b' → Alike false R (next b) (next' b')) :
    Alike false R (unfold body s next) (unfold body' s' next') := by
  refine (hbody s s' hs).bind fun round round' hround => ?_
  cases hround with
  | inl hs => exact .iter S B hbody hs hnext
  | inr hb => exact hnext _ _ hb

end Alike

/-! ## Alone -/

/-- What a task does when no other task is there, in a number of moves, and how it leaves the bench.
    Each time the task has to wait, the world outside of the tasks makes its next change; the result
    is absent if the task waits and the world has come to rest. -/
inductive Alone {α : Type} (t : TaskId) :
    Nat → List (Bench → Bench) → Bench → Process α → Bench → Option α → Prop where
  | ends {world : List (Bench → Bench)} {b} (a : α) : Alone t 0 world b (.pure a) b (some a)
  | answered {n} {world : List (Bench → Bench)} {b b' b'' : Bench} {op : Request}
      {next : op.Reply → Process α} {reply result} : (b.perform t op).answer? = some (b', reply) →
      Alone t n world b' (next reply) b'' result → Alone t (n + 1) world b (.act op next) b'' result
  | waits {n} {change : Bench → Bench} {world : List (Bench → Bench)} {b b' : Bench}
      {op : Request} {next : op.Reply → Process α} {result} : (b.perform t op).answer? = none →
      Alone t n world (change (b.perform t op).bench) (.act op next) b' result →
      Alone t (n + 1) (change :: world) b (.act op next) b' result
  | rests {b : Bench} {op : Request} {next : op.Reply → Process α} :
      (b.perform t op).answer? = none → Alone t 0 [] b (.act op next) (b.perform t op).bench none
  | rounds {n} {world : List (Bench → Bench)} {b b'} {σ β : Type}
      {body : σ → Process (σ ⊕ β)} {s} {next : β → Process α} {result} :
      Alone t n world b (Process.unfold body s next) b' result →
      Alone t (n + 1) world b (.iter body s next) b' result

namespace Alone

variable {α : Type} {t : TaskId} {n : Nat} {world : List (Bench → Bench)} {b b' : Bench}
  {result : Option α}

lemma acquire_back (hown : b.turn = some t) (hgoing : b.isCancelled = false) :
    (perform { b with turn := none } t .acquire).answer? = some (b, true) ∧
    (b.perform t .acquire).answer? = some (b, true) := by
  constructor
  · have hfree : acquire { b with turn := none } t
        = .done { b with turn := some t } true := by
      rw [acquire, if_neg (by simp), if_neg (by simpa [isCancelled] using hgoing)]
      rfl
    rw [perform, hfree, ← hown]
    rfl
  · rw [perform, acquire, if_pos hown]
    rfl

lemma of_before {next : Request.acquire.Reply → Process α} (hgoing : b.isCancelled = false)
    (h : Alone t n world b (.act .release fun _ => .act .yield fun _ => .act .acquire next) b'
      result) : ∃ m, m < n ∧ Alone t m world b (.act .acquire next) b' result := by
  cases h with
  | waits hwait _ => cases hwait
  | rests hwait => cases hwait
  | answered hrelease h =>
    cases hrelease
    cases h with
    | waits hwait _ => cases hwait
    | rests hwait => cases hwait
    | answered hyield h =>
      cases hyield
      by_cases hown : b.turn = some t
      · rw [if_pos hown] at h
        obtain ⟨hback, hkeeps⟩ := acquire_back hown hgoing
        cases h with
        | waits hwait _ | rests hwait => cases hwait.symm.trans hback
        | answered hanswer h =>
          cases hanswer.symm.trans hback
          exact ⟨_, by omega, .answered hkeeps h⟩
      · rw [if_neg hown] at h
        exact ⟨_, by omega, h⟩

lemma before {next : Request.acquire.Reply → Process α} (hgoing : b.isCancelled = false)
    (h : Alone t n world b (.act .acquire next) b' result) :
    ∃ m, Alone t m world b (.act .release fun _ => .act .yield fun _ => .act .acquire next) b'
      result := by
  have hrelease : (b.perform t .release).answer?
      = some (if b.turn = some t then { b with turn := none } else b, ()) := rfl
  by_cases hown : b.turn = some t
  · rw [if_pos hown] at hrelease
    obtain ⟨hback, hkeeps⟩ := acquire_back hown hgoing
    cases h with
    | waits hwait _ | rests hwait => cases hwait.symm.trans hkeeps
    | answered hanswer h =>
      cases hanswer.symm.trans hkeeps
      exact ⟨_, .answered hrelease (.answered rfl (.answered hback h))⟩
  · rw [if_neg hown] at hrelease
    exact ⟨_, .answered hrelease (.answered rfl h)⟩

end Alone

/-- Alike processes that are alone leave the same bench, and come to results that correspond, or to
    none. -/
lemma Alike.alone {α α' : Type} {R : α → α' → Prop} {going p q} (h : Alike going R p q)
    {t n world b b' result} (hgoing : going → b.isCancelled = false)
    (hp : Alone t n world b p b' result) :
    ∃ m result', Alone t m world b q b' result' ∧ Option.Rel R result result' := by
  -- on the number of moves, since a loop is no smaller after a round
  induction n using Nat.strongRecOn generalizing going p q world b result with
  | ind n ih =>
    have hact : ∀ {op : Request} {next : op.Reply → Process α} {next' : op.Reply → Process α'},
        (∀ reply, Alike (op.assures reply) R (next reply) (next' reply)) →
        Alone t n world b (.act op next) b' result →
        ∃ m result', Alone t m world b (.act op next') b' result' ∧
          Option.Rel R result result' := by
      intro op next next' hnext hp
      cases hp with
      | answered hanswer hrest =>
        obtain ⟨m, result', hm, hrel⟩ := ih _ (by omega) (hnext _)
          (fun hassures => assures_going hanswer hassures) hrest
        exact ⟨m + 1, result', .answered hanswer hm, hrel⟩
      | waits hwait hrest =>
        have hwaiting : Alike false R (.act op next) (.act op next') := .act hnext
        obtain ⟨m, result', hm, hrel⟩ := ih _ (by omega) hwaiting (by simp) hrest
        exact ⟨m + 1, result', .waits hwait hm, hrel⟩
      | rests hwait => exact ⟨0, none, .rests hwait, .none⟩
    cases h with
    | pure hr =>
      cases hp
      exact ⟨0, _, .ends _, .some hr⟩
    | act hnext => exact hact hnext hp
    | iter S B hbody hs hnext =>
      cases hp with
      | rounds hrest =>
        obtain ⟨m, result', hm, hrel⟩ := ih _ (by omega) (.unfold hbody hs hnext) (by simp) hrest
        exact ⟨m + 1, result', .rounds hm, hrel⟩
    | before hnext =>
      obtain ⟨m, hlt, hacquires⟩ := hp.of_before (hgoing rfl)
      exact ih m hlt (.ask hnext) hgoing hacquires
    | after hnext =>
      obtain ⟨m, result', hm, hrel⟩ := hact (fun reply => (hnext reply).weaken) hp
      obtain ⟨m', hm'⟩ := hm.before (hgoing rfl)
      exact ⟨m', result', hm', hrel⟩

end Process

end CanScript
