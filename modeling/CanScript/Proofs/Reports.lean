import CanScript.Proofs.Parts

/-! # Traces of a task

    Of what a task asks for, some requests leave a trace: it records an error, or replaces the
    variables.  What it has left behind between two moments is put together from the parts that it
    went through, and a part that asks for nothing of the kind leaves nothing behind. -/

namespace CanScript

open Eval List

/-! ## Recorded errors -/

def Event.diagnostic? : Event → Option Diagnostic
  | .error _ d => some d
  | _ => none

/-- All errors that were ever recorded. -/
def Log.announced (l : Log) : List Diagnostic :=
  l.events.history.toList.filterMap Event.diagnostic?

namespace Log

lemma announced_announce (l : Log) (e) :
    (l.announce e).announced = l.announced ++ e.diagnostic?.toList := by
  show (l.events.history.push e).toList.filterMap Event.diagnostic? = _
  rw [Array.toList_push, filterMap_append, announced]
  cases hd : e.diagnostic? with
  | none => simp [hd]
  | some d => simp [hd]

/-- An error that is recorded is announced, whether it is kept or not. -/
lemma announced_recordError (l : Log) (run d) :
    (l.recordError run d).announced = l.announced ++ [d] := by
  have hsame : ((l.keepError d).fileError run d).events = l.events := by
    rw [fileError, keepError]
    split <;> split <;> rfl
  rw [recordError, announced_announce, announced, hsame]
  rfl

end Log

lemma Bench.setState_announced (b : Bench) (run state) :
    (b.setState run state).log.announced = b.log.announced := by
  rw [setState]
  split
  · rfl
  · show (b.log.announce _).announced = _
    rw [Log.announced_announce]
    exact append_nil _

variable {op : Request}

/-- Only a report announces errors. -/
lemma Bench.Change.announced {t b b'} (h : Change t b op b')
    (hop : ∀ d, op ≠ .report d) : b'.log.announced = b.log.announced := by
  cases h with
  | report d => exact absurd rfl (hop d)
  | print text =>
    show (Log.announce _ _).announced = _
    rw [Log.announced_announce]
    exact append_nil _
  | finish =>
    rw [Bench.finish]
    split
    · exact setState_announced _ _ _
    · rfl
  | _ => rfl

namespace History

variable {H : History} {α σ β : Type} {t : TaskId} {i j m n : Nat} {O O' : Request → Prop}

/-! ## What a task asks for -/

variable (H) in
/-- All that a task asks for is of a kind. -/
def AsksOnly (t : TaskId) (O : Request → Prop) (i j : Nat) : Prop :=
  ∀ n op, i ≤ n → n < j → H.Makes t n op → O op

lemma AsksOnly.trans (h : H.AsksOnly t O i m) (h' : H.AsksOnly t O m j) : H.AsksOnly t O i j := by
  intro n op hin hnj hmakes
  rcases lt_or_ge n m with hnm | hmn
  · exact h n op hin hnm hmakes
  · exact h' n op hmn hnj hmakes

lemma AsksOnly.mono (h : H.AsksOnly t O i j) (himp : ∀ op, O op → O' op) : H.AsksOnly t O' i j :=
  fun n op hin hnj hmakes => himp op (h n op hin hnj hmakes)

lemma AsksOnly.within (h : H.AsksOnly t O i j) (him : i ≤ m) (hnj : n ≤ j) : H.AsksOnly t O m n :=
  fun k op hmk hkn => h k op (him.trans hmk) (hkn.trans_le hnj)

lemma Idle.asksOnly (h : H.Idle t i j) : H.AsksOnly t O i j :=
  fun n _ hin hnj hmakes => absurd hmakes.1 (h n hin hnj)

lemma AsksOnly.refl : H.AsksOnly t O i i :=
  Idle.asksOnly fun _ hin hni => absurd hin hni.not_ge

lemma Pending.asksOnly (h : H.Pending t i j op) (hop : O op) : H.AsksOnly t O i j := by
  intro n op' hin hnj hmakes
  have hasks := h.asks n hin hnj.le
  rw [hmakes.unique ⟨hmakes.1, hasks⟩]
  exact hop

lemma Gets.asksOnly {reply} (h : H.Gets t i n op reply) (hop : O op) :
    H.AsksOnly t O i (n + 1) := by
  intro m op' him hmn hmakes
  rw [hmakes.unique ⟨hmakes.1, h.pending.asks m him (Nat.le_of_lt_succ hmn)⟩]
  exact hop

lemma Enters.asksOnly {body : σ → Eval (σ ⊕ β)} {s l}
    (h : H.Enters t body m n s l) : H.AsksOnly t O m (n + 1) := by
  intro i op hmi hin hmakes
  obtain ⟨hmover, next, hnext⟩ := hmakes
  rcases Nat.lt_succ_iff_lt_or_eq.mp hin with hin | rfl
  · exact absurd hmover (h.next.idle i hmi hin)
  · obtain ⟨k, hk⟩ := h.begins
    cases ((Along.of_idle hmi h.next.idle).has hk).unique hnext

/-- A task asks for no more than the part that it is at. -/
lemma Course.asksOnly {c e : Process α} (h : H.Course t i c j e) (hc : c.Only O) :
    H.AsksOnly t O i j := by
  obtain ⟨⟨k, hk⟩, halong⟩ := h
  intro n op hin hnj hmakes
  obtain ⟨e', halong', he'⟩ := hmakes.asks hk halong hin hnj
  obtain ⟨_, hreaches⟩ := halong'.reaches
  exact hc _ _ hreaches _ he'

/-! ## What it leaves behind -/

variable (H)

def reports (t : TaskId) (n : Nat) : List Diagnostic :=
  if H.mover n = some t then
    (H.bench (n + 1)).log.announced.drop (H.bench n).log.announced.length
  else []

def reported (t : TaskId) (i j : Nat) : List Diagnostic :=
  (List.range' i (j - i)).flatMap (H.reports t)

/-- A task changes no variable. -/
def Untouched (t : TaskId) (i j : Nat) : Prop :=
  ∀ n, i ≤ n → n < j → H.mover n = some t → (H.bench (n + 1)).globals = (H.bench n).globals

variable {H}

lemma reported_append (him : i ≤ m) (hmj : m ≤ j) :
    H.reported t i j = H.reported t i m ++ H.reported t m j :=
  flatMap_moments _ him hmj

lemma reports_eq_nil (h : ∀ d, ¬ H.Makes t n (.report d)) : H.reports t n = [] := by
  by_cases hmover : H.mover n = some t
  · have hsame : (H.bench (n + 1)).log.announced = (H.bench n).log.announced := by
      rcases requested hmover with hstill | ⟨op, hmakes, hchange⟩
      · rw [hstill]
      · refine hchange.announced ?_
        rintro d rfl
        exact h d hmakes
    rw [reports, if_pos hmover, hsame, drop_length]
  · exact if_neg hmover

/-- A task that makes no report records nothing. -/
lemma AsksOnly.reported (h : H.AsksOnly t O i j) (hO : ∀ d, ¬ O (.report d) := by simp) :
    H.reported t i j = [] := by
  refine flatMap_eq_nil_iff.mpr fun n hn => reports_eq_nil fun d hmakes => ?_
  obtain ⟨hin, hnj⟩ := mem_range'_1.mp hn
  exact hO d (h n _ hin (by omega) hmakes)

/-- A report has recorded its error when it is answered. -/
lemma Gets.reported {d} (h : H.Gets t i n (.report d) ()) : H.reported t i (n + 1) = [d] := by
  have hbefore : H.reported t i n = [] :=
    (Idle.asksOnly h.nextMove.idle).reported (O := fun _ => False) fun _ hfalse => hfalse
  have hadded : (H.bench (n + 1)).log.announced = (H.bench n).log.announced ++ [d] := by
    rw [← Outcome.bench_of_answer h.answer]
    exact Log.announced_recordError _ _ d
  have hone : H.reported t n (n + 1) = H.reports t n := by
    rw [History.reported, Nat.add_sub_cancel_left]
    exact append_nil _
  rw [reported_append h.le (Nat.le_succ n), hbefore, hone, reports, if_pos h.mover, hadded,
    drop_left]
  rfl

lemma Untouched.trans (h : H.Untouched t i m) (h' : H.Untouched t m j) : H.Untouched t i j := by
  intro n hin hnj hmover
  rcases lt_or_ge n m with hnm | hmn
  · exact h n hin hnm hmover
  · exact h' n hmn hnj hmover

lemma Untouched.within (h : H.Untouched t i j) (him : i ≤ m) (hnj : n ≤ j) : H.Untouched t m n :=
  fun k hmk hkn => h k (him.trans hmk) (hkn.trans_le hnj)

/-- A task that sets no variables leaves them as they are. -/
lemma AsksOnly.untouched (h : H.AsksOnly t O i j) (hO : ∀ bs, ¬ O (.setGlobals bs) := by simp) :
    H.Untouched t i j := by
  intro n hin hnj hmover
  rcases requested hmover with hsame | ⟨op, hmakes, hchange⟩
  · rw [hsame]
  · refine hchange.globals_eq ?_
    rintro bs rfl
    exact hO bs (h n _ hin hnj hmakes)

end History

end CanScript
