import CanScript.Proofs.Timing

/-! # Why executions stop

    An execution breaks off without an error when it finds that the run was told to end, and also if
    it works with variables without having the turn.  No task does the latter: whatever it does it
    has the turn by then.  So nothing that a task does ends in this way unless the run was told to
    end. -/

namespace CanScript

open Eval

/-! ## What is taken for granted -/

namespace Regime

variable {K α : Type} {R : Regime K} {Q Q' : K → α → Prop} {k : K} {p : Process α}

def granted (R : Regime K) : Regime K where
  allows _ _ := True
  after k op reply k' := R.allows k op ∧ R.after k op reply k'

lemma Keeps.of_granted (h : R.granted.Keeps Q k p) (hp : R.Keeps Q' k p) : R.Keeps Q k p := by
  intro n
  induction n generalizing k p with
  | zero => trivial
  | succ n ih =>
    cases p with
    | pure a => exact h.of_pure
    | iter body s next => exact ih (p := .unfold body s next) h.of_iter hp.of_iter
    | act op next =>
      obtain ⟨hop, hnext⟩ := hp.of_act
      exact ⟨hop, fun reply k' hafter =>
        ih (h.of_act.2 reply k' ⟨hop, hafter⟩) (hnext reply k' hafter)⟩

end Regime

/-! ## Executions -/

namespace Eval

open Regime

variable {α : Type} {k : Grasp}

def Candid (x : Eval α) : Prop :=
  ∀ k, Under discipline.granted (fun k e => e = .stopped → k.told = true) k x fun _ _ => True

lemma told_kept (p : Process α) (hk : k.told) :
    discipline.granted.Keeps (fun k _ => k.told) k p := by
  intro n
  induction n generalizing k p with
  | zero => trivial
  | succ n ih =>
    cases p with
    | pure a => exact hk
    | iter body s next => exact ih _ hk
    | act op next =>
      refine ⟨trivial, fun reply k' hafter => ih _ ?_⟩
      obtain ⟨-, -, rfl⟩ := hafter
      exact Bool.or_eq_true_iff.mpr (.inl hk)

lemma halts_tellsEnd {op : Request} {held reply} (h : op.Halts reply)
    (hproper : op.Proper held) (hexpects : op.Expects held reply) : op.tellsEnd reply := by
  cases op with
  | globals | setGlobals bs =>
    cases h
    cases hproper.symm.trans hexpects.symm
  | sleepUntil deadline heedPause =>
    rcases h with rfl | ⟨hheeds, hpaused⟩
    · rfl
    · exact absurd hpaused (hexpects hheeds)
  | finish => rfl
  | standing | acquire | awaitRunning | claimPort port | nextFrame r deadline =>
    cases h
    rfl
  | _ => exact h.elim

namespace Candid

lemma stateful : Stateful False Candid where
  own hx k l := by
    obtain ⟨a, l', heq⟩ := hx l
    rw [heq]
    exact Keeps.pure trivial
  throw e he k := .throw fun hstopped => (he hstopped).elim
  bind hx hf k := .bind (hx k) fun k a _ => hf a k

lemma asks (op : Request) : Asks False Candid op := by
  intro α f hf k
  refine .askBind trivial fun reply k' hafter => ?_
  by_cases hhalts : op.Halts reply
  · obtain ⟨hproper, hexpects, rfl⟩ := hafter
    intro l
    refine (told_kept _ (Bool.or_eq_true_iff.mpr
      (.inr (halts_tellsEnd hhalts hproper hexpects)))).mono
      fun k r hk => ?_
    obtain ⟨result, l'⟩ := r
    cases result with
    | ok a => trivial
    | error e => exact fun _ => hk
  · exact hf reply hhalts k'

lemma uniform : Uniform False (.of Candid) :=
  stateful.uniform (fun op _ => asks op) (fun hbody k => .inScope fun id => hbody id k)
    (fun hx k => ((hx k).attempt fun _ h => h).mono fun _ _ _ => trivial)
    (stateful.checkpoint (asks _) (asks _) (asks _) (asks _) (asks _))

lemma attends (s) : Attends s (fun _ => True) (.of Candid) := by
  refine uniform.attends ⟨?_, fun hx k => .deeper (hx k)⟩
  exact uniform.executesAll (fun op => (asks op).of)
    (fun hbody state k => .loop (I := fun _ _ => True) (fun k state _ => (hbody state k).mono
      fun k outcome _ => by cases outcome <;> trivial) trivial)
    (fun name v _ => stateful.define (asks _) (fun _ => asks _) _ name v)
    (fun name v _ => stateful.assign (asks _) (fun _ => asks _) _ name v) s _

end Candid

end Eval

/-! ## Tasks -/

/-- What a task asks for to evaluate an expression, to work with variables or to print. -/
def Request.IsWork : Request → Prop
  | .globals => True
  | .setGlobals _ => True
  | .elapsed => True
  | .entropy => True
  | .print _ => True
  | _ => False

namespace History

variable {H : History} {limits : RunConfig} {bus : Bus} {writeTime : Nat}

lemma cancelled_of_stopped (hH : Session.Reachable limits bus writeTime (H.session 0)) {s}
    {α : Type} {x : Eval α} (hx : Endeavour s x) {t i j l l'}
    (h : H.Finishes t i (x.start l) j (.error .stopped, l')) : (H.bench j).isCancelled := by
  obtain ⟨⟨⟨rest, hi⟩, halong⟩, -⟩ := h
  obtain ⟨k, hfits, hkeeps⟩ := (reachable hH i).disciplined.tasks _ hi
  have hcandid : Candid x := hx.compares (Candid.attends s) fun _ => trivial
  -- what the part asks for is allowed, since the task keeps to the discipline
  obtain ⟨k', hfits', hleaves⟩ := halong.keeps discipline_describes hi
    (fun m _ _ hmover k hk => grasp_other hmover hk) hfits
    ((hcandid k l).of_granted hkeeps.of_bind)
  exact hfits'.told (hleaves.of_pure rfl)

/-- **No task ends silently.**  Whenever a task works with variables it has the turn, and nothing
    that a script makes it do breaks off without an error unless the run was told to end. -/
theorem stops_only_when_cancelled (hH : Session.Reachable limits bus writeTime (H.session 0))
    (t : TaskId) :
    (∀ n op, H.Makes t n op → op.IsWork → (H.bench n).turn = some t) ∧
    ∀ (s : Setting) {α : Type} (x : Eval α), Endeavour s x → ∀ i j l l',
      H.Finishes t i (x.start l) j (.error .stopped, l') → (H.bench j).isCancelled = true := by
  refine ⟨?_, fun s α x hx i j l l' => cancelled_of_stopped hH hx⟩
  rintro n op ⟨-, next, hnext⟩ hwork
  obtain ⟨k, hfits, hkeeps⟩ := (reachable hH n).disciplined.tasks _ hnext
  have hproper := hkeeps.of_act.1
  refine hfits.held.mp ?_
  cases op with
  | globals => exact hproper
  | setGlobals bs => exact hproper
  | elapsed => exact hproper
  | entropy => exact hproper
  | print text => exact hproper
  | _ => exact hwork.elim

end History

/-! ## A script that stops itself -/

/-- The time, and then a call that ends the run. -/
def stopNow : Expr :=
  .binary ⟨1, 7⟩ .add (.call ⟨1, 4⟩ (.name ⟨1, 1⟩ "now") [])
    (.call ⟨1, 13⟩ (.name ⟨1, 9⟩ "stop") [])

/-- A program that evaluates nothing else. -/
def stoppingSetting : Setting where
  program := { statements := [.eval ⟨1, 1⟩ stopNow] }
  ports := ["can0"]
  limits := {}

/-- The main sequence goes on until it ends. -/
def stoppingHistory : History :=
  .ofRun stoppingSetting (movesOf 1 5)

theorem stops_only_when_cancelled_stop :
    (stoppingHistory.bench 2).turn = some 1 ∧ ∃ l, stoppingHistory.Finishes 1 2
      ((evalExpr stoppingSetting stoppingSetting.call none stopNow).start { sinceYield := 1 }) 4
      (.error .stopped, l) ∧ (stoppingHistory.bench 4).isCancelled = true := by
  have hstmt : stoppingHistory.Begins 1 2 _ := History.begins_first 2
    (by with_unfolding_all rfl) (by decide +kernel) (by with_unfolding_all rfl)
  have hcall := hstmt.of_bind
  obtain ⟨⟨_, l⟩, hover, hresult⟩ := History.Finishes.of_left (k := 2) (f := Prod.fst)
    (b := .error .stopped) hcall (by decide +kernel) (by with_unfolding_all rfl)
  cases hresult
  obtain ⟨hturn, hstops⟩ := History.stops_only_when_cancelled (H := stoppingHistory)
    (Session.ofSetting_reachable stoppingSetting) 1
  obtain ⟨rest, hrest⟩ := hcall
  have hasks : stoppingHistory.Makes 1 2 .elapsed :=
    ⟨by decide +kernel, _, by with_unfolding_all exact hrest⟩
  exact ⟨hturn 2 .elapsed hasks trivial, l, hover,
    hstops stoppingSetting _ (.evaluation _ none stopNow) 2 4 _ _ hover⟩

end CanScript
