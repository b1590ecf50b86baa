import CanScript.Proofs.Readers
import CanScript.Proofs.Reach
import CanScript.Proofs.Regime

/-! # What is left to one task

    The frames of the hub are tested by one task of a run, which has a reader of its own.  A script
    has readers, too, for as long as it waits for a frame, but each of them is new.  So no task of
    the script uses the reader of the dispatcher, and none starts an activation for a frame; nor
    does any task use the reader of another one. -/

namespace CanScript

def Request.Reserved (U : ReaderId → Prop) : Request → Prop
  | .spawn (.receive _ _) => True
  | op => ∃ r, U r ∧ op.hubReader? = some r

def Request.Fresh (U : ReaderId → Prop) : (op : Request) → op.Reply → Prop
  | .listen, reply => ¬ U reply
  | _, _ => True

def abstinence (R : Request → Prop) (U : ReaderId → Prop) : Regime Unit where
  allows _ op := ¬ R op
  after _ op reply _ := op.Fresh U reply

def Process.Abstains (R : Request → Prop) (U : ReaderId → Prop) {α : Type} (p : Process α) :
    Prop :=
  (abstinence R U).Keeps (fun _ _ => True) () p

/-- A process leaves alone what is left to the dispatcher. -/
abbrev Process.Courteous (U : ReaderId → Prop) {α : Type} (p : Process α) : Prop :=
  p.Abstains (Request.Reserved U) U

variable {op : Request}

lemma Request.reserved_of_hubReader {U r} (hr : U r) (h : op.hubReader? = some r) :
    op.Reserved U := by
  cases op with
  | spawn a => cases h
  | _ => exact ⟨r, hr, h⟩

lemma Request.Ordinary.not_reserved {U : ReaderId → Prop} (h : op.Ordinary) : ¬ op.Reserved U := by
  cases op with
  | spawn a => exact h.elim
  | nextFrame r deadline => exact h.elim
  | unlisten r => exact h.elim
  | receive source => exact h.elim
  | _ =>
    rintro ⟨r, -, hreader⟩
    cases hreader

namespace Process.Abstains

open Regime Eval

variable {R : Request → Prop} {U : ReaderId → Prop}

lemma sequential (R : Request → Prop) (U) : Sequential (fun p => Abstains R U p) where
  pure _ := Keeps.pure trivial
  bind hp hf := Keeps.bind hp fun _ a _ => hf a

lemma act (hop : ¬ R op) : Answers (fun p => Abstains R U p) op :=
  fun _ _ hnext => Keeps.act hop fun reply _ _ => hnext reply

lemma loop {σ β : Type} {round : σ → Process (σ ⊕ β)} (h : ∀ s, Abstains R U (round s)) (s) :
    Abstains R U (Process.loop round s) := by
  refine Keeps.loop (I := fun _ _ => True) (fun _ s _ => ?_) trivial
  refine Keeps.mono (h s) fun _ outcome _ => ?_
  cases outcome with
  | inl _ => trivial
  | inr _ => trivial

section Reserved

variable (hR : ∀ op, R op → op.Reserved U)

include hR

lemma actFor (hreader : ∀ r, op.hubReader? = some r → ¬ U r := by simp [Request.hubReader?])
    (hspawn : ∀ a, op ≠ .spawn a := by simp) : Answers (fun p => Abstains R U p) op := by
  refine act fun hop => ?_
  have hreserved := hR op hop
  cases op with
  | spawn a => exact hspawn a rfl
  | _ =>
    obtain ⟨r, hr, hop⟩ := hreserved
    exact hreader r hop hr

lemma temperate : Temperate (fun p => Abstains R U p) (fun r => ¬ U r) where
  toSequential := sequential R U
  ask _ hop := act fun h => hop.not_reserved (hR _ h)
  write _ _ := (sequential R U).evalWrite (fun _ hop => act fun h => hop.not_reserved (hR _ h))
    (actFor hR)
  setGlobals _ := actFor hR
  loop := loop
  listen _ _ h := by
    refine Keeps.act (fun hop => ?_) fun reader _ hfresh => h reader hfresh
    obtain ⟨r, -, hreader⟩ := hR _ hop
    cases hreader
  unlisten r hr := actFor hR (by simpa [Request.hubReader?] using hr)
  nextFrame r hr _ := actFor hR (by simpa [Request.hubReader?] using hr)

lemma intervalTask (s i) (h : IntervalHandler) : Abstains R U (intervalTask s i h) := by
  refine (temperate hR).intervalTask (act fun hop => ?_) s h
  obtain ⟨r, -, hreader⟩ := hR _ hop
  cases hreader

lemma forwarder (port r) : Abstains R U (forwarder port r) :=
  (temperate hR).forwarder (actFor hR) (actFor hR) fun _ => actFor hR

end Reserved

end Process.Abstains

lemma Process.Courteous.temperate (U : ReaderId → Prop) :
    Temperate (fun p => Courteous U p) (fun r => ¬ U r) :=
  Abstains.temperate fun _ hop => hop

/-- A task that is given none of some readers leaves alone what it does at first. -/
lemma History.Along.abstains {H : History} {α : Type} {R U t i j c d} (h : H.Along t i c j d)
    {rest : α → Process Unit} (hi : H.Has t i (c.bind rest))
    (hfresh : ∀ m, i ≤ m → m < j → H.Makes t m .listen → ¬ U (H.bench m).hub.nextReader)
    (hc : c.Abstains R U) : d.Abstains R U := by
  induction h with
  | start => exact hc
  | stay _ _ ih => exact ih fun m him hmj => hfresh m him (Nat.lt_succ_of_lt hmj)
  | @move j d hd hmover hgoing ih =>
    have hbefore := ih fun m him hmj => hfresh m him (Nat.lt_succ_of_lt hmj)
    cases d with
    | pure a => cases hgoing
    | iter body s next => exact Regime.Keeps.of_iter hbefore
    | act op next =>
      cases hanswer : ((H.bench j).perform t op).answer? with
      | none =>
        rw [Process.step_of_wait hanswer]
        exact hbefore
      | some answer =>
        rw [Process.step_of_answer hanswer]
        refine (Regime.Keeps.of_act hbefore).2 answer.2 () ?_
        cases op with
        | listen =>
          cases hanswer
          exact hfresh j hd.le (Nat.lt_succ_self j) ⟨hmover, _, hd.has hi⟩
        | _ => trivial

end CanScript
