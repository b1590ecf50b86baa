import CanScript.Proofs.Reports
import CanScript.Proofs.Shape
import CanScript.Proofs.Stops

/-! # What errors leave behind

    However something that a script makes a task do ends, the scopes that are open and the depth of
    calls are as they were before.  So an error in one statement of the main sequence leaves nothing
    behind for the next one: each begins without scopes and outside of all calls. -/

namespace CanScript

open Eval

/-! ## Scopes and calls -/

lemma Process.Reaches.endsIn {α : Type} {n p q} {a : α} (h : Reaches n p q) (hq : q = .pure a) :
    EndsIn n p a := by
  induction h with
  | refl p =>
    rw [hq]
    exact .pure a
  | act reply _ ih => exact .act reply (ih hq)
  | iter _ ih => exact .iter (ih hq)

lemma Eval.Endeavour.restores {s} {α : Type} {x : Eval α} (h : Endeavour s x) : x.Restores :=
  inShape.restores (h.compares (inShape.corresponds.uniform.attends (inShape.calls s)) fun _ => rfl)

/-- No scope is open, and no call goes on. -/
structure Local.AtRest (l : Local) : Prop where
  scopes : l.scopes = .empty
  callDepth : l.callDepth = 0

/-- A statement of the main sequence, as it is executed. -/
def mainStatement (s : Setting) (stmt : Stmt) : Eval Flow := do
  checkpoint s.limits.yieldEvery
  execStmt s s.call none stmt

namespace History

variable {H : History} {α : Type} {t : TaskId} {s : Setting} {i j : Nat} {l l' : Local}

lemma Finishes.canEnd {c} {a : α} (h : H.Finishes t i c j a) : c.CanEnd a := by
  obtain ⟨n, hn⟩ := h.course.along.reaches
  exact ⟨n, hn.endsIn rfl⟩

lemma Finishes.atRest {stmt r}
    (h : H.Finishes t i ((mainStatement s stmt).start l) j (r, l')) (hl : l.AtRest) :
    l'.AtRest := by
  have hx : Endeavour s (mainStatement s stmt) := .main stmt
  obtain ⟨hparents, hdepth⟩ := hx.restores l r l' h.canEnd
  refine ⟨?_, hdepth.trans hl.callDepth⟩
  rw [hl.scopes] at hparents
  exact Array.map_eq_empty_iff.mp (hparents.trans Array.map_empty)

/-! ## The main sequence -/

variable (H) in
/-- Statements of the main sequence were executed one after another, each without scopes and outside
    of all calls when it began.  Of one that failed, the error was recorded before the next one,
    once. -/
inductive Ran (t : TaskId) (s : Setting) : Nat → List Stmt → Nat → Prop where
  | none {i : Nat} : Ran t s i [] i
  | ended {i m j stmt stmts} {l l' : Local} {flow} :
      l.AtRest → H.Finishes t i ((mainStatement s stmt).start l) m (.ok flow, l') →
      Ran t s m stmts j → Ran t s i (stmt :: stmts) j
  | failed {i m n j stmt stmts} {l l' : Local} {d} :
      l.AtRest → H.Finishes t i ((mainStatement s stmt).start l) m (.error (.error d), l') →
      H.Gets t m n (.report d) () → H.reported t m (n + 1) = [d] →
      Ran t s (n + 1) stmts j → Ran t s i (stmt :: stmts) j

variable (H) in
/-- The first of some statements goes on, or its error is about to be recorded. -/
def UnderWay (t : TaskId) (s : Setting) (i j : Nat) : List Stmt → Prop
  | [] => True
  | stmt :: _ => ∃ l : Local, l.AtRest ∧
      ((∃ e, e.isDone = false ∧ H.Course t i ((mainStatement s stmt).start l) j e) ∨
        ∃ m d l', H.Finishes t i ((mainStatement s stmt).start l) m (.error (.error d), l') ∧
          m ≤ j ∧ H.Pending t m j (.report d))

lemma UnderWay.eq_nil {stmts} (h : H.UnderWay t s i j stmts)
    (hover : H.Has t j (.pure ())) : stmts = [] := by
  cases stmts with
  | nil => rfl
  | cons stmt rest =>
    obtain ⟨l, -, ⟨e, hgoes, hcourse⟩ | ⟨m, d, l', -, hmj, hpending⟩⟩ := h
    · obtain ⟨k, hk⟩ := hcourse.rest
      have hgoes' := Process.isDone_bind hgoes k
      rw [hk.unique hover] at hgoes'
      cases hgoes'
    · obtain ⟨next, hnext⟩ := hpending.asks j hmj le_rfl
      cases hnext.unique hover

lemma Finishes.attempt {x : Eval α} {r}
    (h : H.Finishes t i (x.start l) j r) (hbegins : H.Begins t i ((attempt x).start l)) :
    H.Finishes t i ((attempt x).start l) j (kept r) := by
  rw [attempt_start] at hbegins ⊢
  exact h.bind (.pure (h.begins hbegins)) hbegins

variable {limits : RunConfig} {bus : Bus} {writeTime : Nat}

/-- At any moment the main sequence has executed some of its statements, and the next one is under
    way. -/
lemma Begins.mainSequence (hH : Session.Reachable limits bus writeTime (H.session 0))
    {stmts} (hl : l.AtRest) (h : H.Begins t i ((mainSequence s stmts).start l))
    (hij : i ≤ j) (hgoing : (H.bench j).isCancelled = false) :
    ∃ ran rest c, stmts = ran ++ rest ∧ H.Ran t s i ran c ∧ c ≤ j ∧ H.UnderWay t s c j rest := by
  induction stmts generalizing i l with
  | nil => exact ⟨[], [], i, rfl, .none, hij, trivial⟩
  | cons stmt rest ih =>
    have hattempt : H.Begins t i ((attempt (mainStatement s stmt)).start l) := h.of_bind
    have hstmt : H.Begins t i ((mainStatement s stmt).start l) := by
      rw [attempt_start] at hattempt
      exact hattempt.of_bind
    rcases hstmt.course_or_finishes hij with hgoes | ⟨m, ⟨r, l'⟩, hmj, hover⟩
    · exact ⟨[], stmt :: rest, i, rfl, .none, hij, l, hl, .inl hgoes⟩
    have hl' := hover.atRest hl
    have hkept := hover.attempt hattempt
    rcases r with (d | _) | flow
    · have hreport : H.Begins t m ((ask (.report d) >>= fun _ => mainSequence s rest).start l') :=
        hkept.second h
      rcases hreport.of_bind.course_or_finishes hmj with ⟨e, hgoes, hcourse⟩ | ⟨k, r, hkj, hasked⟩
      · rcases Course.of_act hcourse with ⟨-, hpending⟩ | ⟨n, reply, -, -, hrest⟩
        · exact ⟨[], stmt :: rest, i, rfl, .none, hij, l, hl, .inr ⟨m, d, l', hover, hmj, hpending⟩⟩
        · rw [hrest.of_pure.1] at hgoes
          cases hgoes
      · obtain ⟨n, reply, rfl, rfl, hgets⟩ := hasked.of_ask
        have hnext := hasked.second (g := fun _ => mainSequence s rest) hreport
        obtain ⟨ran, rest, c, rfl, hran, hcj, hway⟩ := ih hl' hnext hkj
        exact ⟨stmt :: ran, rest, c, rfl, .failed hl hover hgets hgets.reported hran, hcj, hway⟩
    · have hcancelled := cancelled_of_stopped hH (.main stmt) hover
      rw [going_before hmj hgoing] at hcancelled
      cases hcancelled
    · obtain ⟨ran, rest, c, rfl, hran, hcj, hway⟩ := ih hl' (hkept.second h) hmj
      exact ⟨stmt :: ran, rest, c, rfl, .ended hl hover hran, hcj, hway⟩

end History

/-! ## A failing call -/

/-- A call of a function. -/
def failingCall : Stmt :=
  .eval ⟨3, 1⟩ (.call ⟨3, 6⟩ (.name ⟨3, 1⟩ "check") [])

/-- A program in which it fails, inside of a block of the function, and with a statement after it.
    -/
def failingSetting : Setting where
  program := {
    functions := [⟨⟨1, 1⟩, "check", [], [.when ⟨1, 20⟩ (.literal ⟨1, 24⟩ (.bool true))
      [.eval ⟨1, 31⟩ (.name ⟨1, 31⟩ "missing")] none]⟩]
    receiveHandlers := [⟨⟨2, 1⟩, .literal ⟨2, 12⟩ (.bool true), []⟩]
    statements := [failingCall, .print ⟨4, 1⟩ (.literal ⟨4, 7⟩ (.bool true))] }
  ports := ["can0"]
  limits := {}

/-- The main sequence goes on until it ends. -/
def failingHistory : History :=
  .ofRun failingSetting (movesOf 2 12)

end CanScript
