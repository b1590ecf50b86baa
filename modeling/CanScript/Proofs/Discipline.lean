import CanScript.Proofs.Regime

/-! # The discipline of the turn

    A task knows whether it has the turn from what it asked for and the replies that it got, and
    some replies tell it that the run was told to end.  What it knows in this way is true of the
    bench, whatever other tasks do. -/

namespace CanScript

/-! ## What a reply tells -/

def Standing.isStopped : Standing → Bool
  | stopped => true
  | _ => false

def Waking.isStopped : Waking → Bool
  | stopped => true
  | _ => false

def Arrival.isStopped : Arrival → Bool
  | stopped => true
  | _ => false

/-- What a task knows. -/
structure Grasp where
  /-- Whether it has the turn. -/
  held : Bool
  /-- Whether the run is known to have been told to end. -/
  told : Bool

/-- Whether a reply tells that the run was told to end. -/
def Request.tellsEnd : (op : Request) → op.Reply → Bool
  | .standing, reply => Standing.isStopped reply
  | .acquire, reply => not reply
  | .awaitRunning, reply => not reply
  | .sleepUntil _ _, reply => Waking.isStopped reply
  | .nextFrame _ _, reply => Arrival.isStopped reply
  | .receive _, reply => Option.isNone reply
  | .claimPort _, reply => not reply
  | .finish, _ => true
  | _, _ => false

def Request.leavesTurn (held : Bool) : (op : Request) → op.Reply → Bool
  | .release, _ => false
  | .acquire, reply => or held reply
  | _, _ => held

def Request.Expects (held : Bool) : (op : Request) → op.Reply → Prop
  | .acquire, reply => held = true → (reply : Bool) = true
  | .globals, reply => Option.isSome reply = held
  | .setGlobals _, reply => (reply : Bool) = held
  | .sleepUntil _ heedPause, reply => heedPause = false → (reply : Waking) ≠ .paused
  | _, _ => True

/-- Variables are for the task that has the turn, and so is whatever else an evaluation asks for;
    whoever waits for something else does not have it. -/
def Request.Proper (held : Bool) : Request → Prop
  | .globals => held = true
  | .setGlobals _ => held = true
  | .elapsed => held = true
  | .entropy => held = true
  | .print _ => held = true
  | .awaitRunning => held = false
  | .sleepUntil _ _ => held = false
  | .nextFrame _ _ => held = false
  | .receive _ => held = false
  | .claimPort _ => held = false
  | _ => True

def discipline : Regime Grasp where
  allows k op := op.Proper k.held
  after k op reply k' :=
    op.Expects k.held reply ∧ k' = ⟨op.leavesTurn k.held reply, k.told || op.tellsEnd reply⟩

/-- What a task knows is true. -/
structure Grasp.Fits (k : Grasp) (t : TaskId) (b : Bench) : Prop where
  held : k.held = true ↔ b.turn = some t
  told : k.told = true → b.isCancelled = true

/-! ## Replies tell the truth -/

namespace Bench

variable {t : TaskId} {b b' : Bench}

variable {reply : Bool} {op : Request}

lemma acquire_answer (h : (b.acquire t).answer? = some (b', reply)) :
    (b.turn = some t ∧ b' = b ∧ reply) ∨
    (b.turn ≠ some t ∧ b.isCancelled ∧ b' = b ∧ reply = false) ∨
    (b.turn = none ∧ b.isCancelled = false ∧ b' = { b with turn := some t } ∧ reply) := by
  rcases b.acquire_cases t with ⟨heq, hown⟩ | ⟨heq, hother, hcancelled⟩ | ⟨heq, hfree, hgoing⟩ |
    ⟨heq, -⟩ <;> rw [heq] at h <;> cases h
  · exact .inl ⟨hown, rfl, rfl⟩
  · exact .inr (.inl ⟨hother, hcancelled, rfl, rfl⟩)
  · exact .inr (.inr ⟨hfree, hgoing, rfl, rfl⟩)

lemma acquire_waits (h : (b.acquire t).answer? = none) :
    (b.acquire t).bench = b ∧ ∃ u, b.turn = some u ∧ u ≠ t := by
  rcases b.acquire_cases t with ⟨heq, -⟩ | ⟨heq, -⟩ | ⟨heq, -⟩ | ⟨heq, hturn⟩
  · rw [heq] at h
    cases h
  · rw [heq] at h
    cases h
  · rw [heq] at h
    cases h
  · exact ⟨congrArg Outcome.bench heq, hturn⟩

lemma sleepUntil_answer {deadline heedPause reply}
    (h : (b.sleepUntil deadline heedPause).answer? = some (b', reply)) :
    b' = b ∧ (reply = .stopped ∧ b.isCancelled ∨ reply = .expired ∧ deadline ≤ b.now ∨
      reply = .paused ∧ heedPause ∧ b.isPaused) := by
  rw [sleepUntil] at h
  split at h
  · next hcancelled =>
      cases h
      exact ⟨rfl, .inl ⟨rfl, hcancelled⟩⟩
  · split at h
    · next hdue =>
        cases h
        exact ⟨rfl, .inr (.inl ⟨rfl, hdue⟩)⟩
    · split at h
      · next hpaused =>
          cases h
          exact ⟨rfl, .inr (.inr ⟨rfl, Bool.and_eq_true_iff.mp hpaused⟩)⟩
      · cases h

lemma nextFrame_delivers {r deadline reply}
    (h : (b.nextFrame r deadline).answer? = some (b', reply)) : b.Delivers r deadline b' reply := by
  rcases b.nextFrame_cases r deadline with ⟨_, _, heq, hdelivers⟩ | ⟨heq, -⟩
  · rw [heq] at h
    cases h
    exact hdelivers
  · rw [heq] at h
    cases h

lemma nextFrame_waits {r deadline} (h : (b.nextFrame r deadline).answer? = none) :
    b.nextFrame r deadline = .wait b ∧ b.standing = .running ∧ b.now < deadline ∧
      b.hub.receive? r = none := by
  rcases b.nextFrame_cases r deadline with ⟨_, _, heq, -⟩ | hwaits
  · rw [heq] at h
    cases h
  · exact hwaits

lemma receive_answer {source reply}
    (h : (b.receive source).answer? = some (b', reply)) : reply = none ∧ b.isCancelled ∧ b' = b ∨
    ∃ got, reply = some got ∧ b.isCancelled = false ∧ b.receive? source = some (got, b') := by
  rw [receive] at h
  by_cases hcancelled : b.isCancelled
  · rw [if_pos hcancelled] at h
    cases h
    exact .inl ⟨rfl, hcancelled, rfl⟩
  · rw [if_neg hcancelled] at h
    cases hreceived : b.receive? source with
    | none =>
      rw [hreceived] at h
      cases h
    | some received =>
      rw [hreceived] at h
      cases h
      exact .inr ⟨_, rfl, Bool.eq_false_iff.mpr hcancelled, rfl⟩

lemma claimPort_answer {port} (h : (b.claimPort t port).answer? = some (b', reply)) :
    b'.isCancelled = b.isCancelled ∧ reply = !b.isCancelled := by
  rw [claimPort] at h
  by_cases hcancelled : b.isCancelled
  · rw [if_pos hcancelled] at h
    cases h
    exact ⟨rfl, by rw [hcancelled]; rfl⟩
  · rw [if_neg hcancelled] at h
    dsimp only at h
    have hclaimed := ((b.addClaim_change t port).standing_eq (by simp)).2.1
    split at h
    · cases h
      exact ⟨hclaimed, by rw [Bool.eq_false_iff.mpr hcancelled]; rfl⟩
    · cases h

lemma standing_eq_stopped_iff : b.standing = .stopped ↔ b.isCancelled := by
  rw [standing]
  by_cases hcancelled : b.isCancelled
  · rw [if_pos hcancelled]
    exact ⟨fun _ => hcancelled, fun _ => rfl⟩
  · rw [if_neg hcancelled]
    refine ⟨fun h => ?_, fun h => absurd h hcancelled⟩
    split at h <;> cases h

/-- A reply that tells that the run was told to end is true. -/
lemma tellsEnd_cancelled {reply} (h : (b.perform t op).answer? = some (b', reply))
    (htells : op.tellsEnd reply) : b'.isCancelled := by
  cases op with
  | standing =>
    cases h
    have hstopped : b.standing.isStopped := htells
    unfold Standing.isStopped at hstopped
    split at hstopped
    · next hstanding => exact standing_eq_stopped_iff.mp hstanding
    · cases hstopped
  | acquire =>
    rcases acquire_answer h with ⟨-, -, rfl⟩ | ⟨-, hcancelled, rfl, -⟩ | ⟨-, -, -, rfl⟩
    · cases htells
    · exact hcancelled
    · cases htells
  | awaitRunning =>
    obtain ⟨rfl, ⟨-, hstopped⟩ | ⟨rfl, -⟩⟩ := awaitRunning_answer h
    · exact standing_eq_stopped_iff.mp hstopped
    · cases htells
  | sleepUntil deadline heedPause =>
    obtain ⟨rfl, ⟨-, hcancelled⟩ | ⟨rfl, -⟩ | ⟨rfl, -⟩⟩ := sleepUntil_answer h
    · exact hcancelled
    · cases htells
    · cases htells
  | nextFrame r deadline =>
    cases nextFrame_delivers h with
    | stopped hcancelled => exact hcancelled
    | _ => cases htells
  | receive source =>
    rcases receive_answer h with ⟨-, hcancelled, rfl⟩ | ⟨got, rfl, -⟩
    · exact hcancelled
    · cases htells
  | claimPort port =>
    obtain ⟨hsame, rfl⟩ := claimPort_answer h
    rw [hsame]
    exact (Bool.not_not b.isCancelled).symm.trans htells
  | finish =>
    cases h
    rw [b.finish_eq]
    exact b.cancel_isCancelled
  | _ => cases htells

/-- A reply is one that can be expected. -/
lemma answer_expected {reply} {held : Bool} (hheld : held ↔ b.turn = some t)
    (h : (b.perform t op).answer? = some (b', reply)) : op.Expects held reply := by
  cases op with
  | acquire =>
    intro hown
    rcases acquire_answer h with ⟨-, -, hreply⟩ | ⟨hne, -⟩ | ⟨-, -, -, hreply⟩
    · exact hreply
    · exact absurd (hheld.mp hown) hne
    · exact hreply
  | globals =>
    cases h
    show Option.isSome (if b.turn = some t then some b.globals else none) = held
    by_cases hown : b.turn = some t
    · rw [if_pos hown, hheld.mpr hown]
      rfl
    · rw [if_neg hown, Bool.eq_false_iff.mpr (mt hheld.mp hown)]
      rfl
  | setGlobals globals =>
    rw [perform] at h
    by_cases hown : b.turn = some t
    · rw [if_pos hown] at h
      cases h
      exact (hheld.mpr hown).symm
    · rw [if_neg hown] at h
      cases h
      exact (Bool.eq_false_iff.mpr (mt hheld.mp hown)).symm
  | sleepUntil deadline heedPause =>
    intro hheeds hpaused
    obtain ⟨-, ⟨hreply, -⟩ | ⟨hreply, -⟩ | ⟨-, hheeds', -⟩⟩ := sleepUntil_answer h
    · cases hreply.symm.trans hpaused
    · cases hreply.symm.trans hpaused
    · cases hheeds.symm.trans hheeds'
  | _ => trivial

lemma answer_turn {reply} {held : Bool} (hheld : held ↔ b.turn = some t)
    (h : (b.perform t op).answer? = some (b', reply)) :
    op.leavesTurn held reply ↔ b'.turn = some t := by
  have hchange := b.perform_change t op
  rw [Outcome.bench_of_answer h] at hchange
  cases op with
  | acquire =>
    rcases acquire_answer h with ⟨hown, rfl, rfl⟩ | ⟨hne, -, rfl, rfl⟩ | ⟨-, -, rfl, rfl⟩
    · exact ⟨fun _ => hown, fun _ => Bool.or_true held⟩
    · refine ⟨fun hholds => absurd ?_ hne, fun hown => absurd hown hne⟩
      exact hheld.mp ((Bool.or_false held).symm.trans hholds)
    · exact ⟨fun _ => rfl, fun _ => Bool.or_true held⟩
  | release =>
    cases h
    refine ⟨fun hholds => absurd hholds Bool.false_ne_true, fun hown => ?_⟩
    by_cases hown' : b.turn = some t
    · rw [if_pos hown'] at hown
      cases hown
    · rw [if_neg hown'] at hown
      exact absurd hown hown'
  | _ =>
    rw [hchange.turn_eq (by simp) (by simp)]
    exact hheld

end Bench

lemma discipline_describes : discipline.Describes Grasp.Fits where
  answered {k t b b' op reply} hfits _ hanswer := by
    have hchange := b.perform_change t op
    rw [Outcome.bench_of_answer hanswer] at hchange
    refine ⟨_, ⟨Bench.answer_expected hfits.held hanswer, rfl⟩,
      Bench.answer_turn hfits.held hanswer, fun htold => ?_⟩
    rcases Bool.or_eq_true_iff.mp htold with htold | htells
    · exact hchange.isCancelled (hfits.told htold)
    · exact Bench.tellsEnd_cancelled hanswer htells
  waits {k t b op} hfits hwaits := by
    have hchange := b.perform_change t op
    refine ⟨?_, fun htold => hchange.isCancelled (hfits.told htold)⟩
    by_cases hacquire : op = .acquire
    · subst hacquire
      rw [show (b.perform t .acquire).bench = b from (Bench.acquire_waits hwaits).1]
      exact hfits.held
    · rw [hchange.turn_eq hacquire]
      · exact hfits.held
      · rintro rfl
        cases hwaits

end CanScript
