import CanScript.Proofs.Ownership
import CanScript.Proofs.Shape
import CanScript.Proofs.Waits

/-! # Scripts without endless loops come to an end

    Calls are nested only so deep, a loop over a number of rounds has only so many, and a wait for a
    frame tests only as many frames as arrive.  So whatever is executed comes to an end if nothing
    in it is repeated for ever, as long as the run goes on and requests are answered. -/

namespace CanScript

open Eval Process

lemma Bench.Delivers.advances {b b' : Bench} {r deadline reply}
    (h : b.Delivers r deadline b' reply) (hrunning : b.standing = .running)
    (hreply : reply ≠ .expired) : ∃ place place', b.hub.place? r = some place ∧
      b'.hub.place? r = some place' ∧ place < place' ∧ place < b.hub.history.size := by
  cases h with
  | stopped hcancelled =>
    rw [not_cancelled_of_running hrunning] at hcancelled
    cases hcancelled
  | expired _ _ => exact absurd rfl hreply
  | paused hpaused => cases hrunning.symm.trans hpaused
  | frame hreceived | lagged hreceived => exact Channel.receive?_advances hreceived

namespace History

variable {H : History} {γ α β σ : Type} {t : TaskId} {i m n most : Nat} {c : Process γ}
  {p q : Process α}

/-! ## Inside of a part -/

variable (H)

/-- A part has begun and goes on. -/
def Within (t : TaskId) (i : Nat) (c : Process γ) (m : Nat) : Prop :=
  ∃ d, d.isDone = false ∧ H.Course t i c m d

/-- What a part needs to come to an end.  As long as it goes on, the run is neither paused nor told
    to end, the task moves again and again, no request of it is left without an answer for ever, and
    only so many frames arrive. -/
structure Unhindered (t : TaskId) (i : Nat) (c : Process γ) (most : Nat) : Prop where
  running : ∀ m, H.Within t i c m → (H.bench m).standing = .running
  moves : ∀ m, H.Within t i c m → ∃ n, m ≤ n ∧ H.mover n = some t
  answered : ∀ m op, H.Within t i c m → ¬ ∀ n, m ≤ n → H.Pending t m n op
  frames : ∀ m, H.Within t i c m → (H.bench m).hub.history.size ≤ most

def Inside (t : TaskId) (i : Nat) (c : Process γ) (m : Nat) (p : Process α) : Prop :=
  ∃ k, H.Course t i c m (p.bind k)

def Halts (t : TaskId) (i : Nat) (c : Process γ) (p : Process α) : Prop :=
  ∀ m, H.Inside t i c m p → ∃ n a, H.Along t m p n (.pure a)

variable {H}

namespace Inside

lemma begins (h : H.Inside t i c m p) : H.Begins t m p := by
  obtain ⟨k, hcourse⟩ := h
  exact hcourse.rest.of_bind

lemma of_bind {f : α → Process β} (h : H.Inside t i c m (p.bind f)) : H.Inside t i c m p := by
  obtain ⟨k, hcourse⟩ := h
  rw [Process.bind_assoc] at hcourse
  exact ⟨_, hcourse⟩

lemma along (h : H.Inside t i c m p) (hp : H.Along t m p n q) : H.Inside t i c n q := by
  obtain ⟨k, hcourse⟩ := h
  exact ⟨k, hcourse.trans (hp.bind k)⟩

lemma within (h : H.Inside t i c m p) (hp : p.isDone = false) : H.Within t i c m := by
  obtain ⟨k, hcourse⟩ := h
  exact ⟨_, Process.isDone_bind hp k, hcourse⟩

lemma within_before (h : H.Inside t i c m p) {a j} (hp : H.Finishes t m p j a)
    (hmn : m ≤ n) (hnj : n < j) : H.Within t i c n := by
  obtain ⟨d, hd, -⟩ := hp.course.along.split hmn hnj.le
  exact (h.along hd).within (hp.first n d hnj hd)

end Inside

/-! ## Requests and loops -/

section Unhindered

variable (hU : H.Unhindered t i c most)

lemma Halts.sequential : Process.Sequential (fun p => H.Halts t i c p) where
  pure a m _ := ⟨m, a, .start⟩
  bind {α β p f} hp hf m h := by
    obtain ⟨n, a, ha⟩ := hp m h.of_bind
    obtain ⟨n', b, hb⟩ := hf a n (h.along (ha.bind f))
    exact ⟨n', b, (ha.bind f).trans hb⟩

include hU

lemma Halts.act (op) : Process.Answers (fun p => H.Halts t i c p) op := by
  intro α next hnext m h
  obtain ⟨n, reply, hfirst⟩ : ∃ n reply, H.Along t m (.act op next) (n + 1) (next reply) := by
    by_contra hnone
    refine hU.answered m op (h.within rfl) fun n hmn => ?_
    rcases h.begins.course_or_finishes hmn with ⟨e, -, hcourse⟩ | ⟨m', a, -, hover⟩
    · rcases hcourse.of_act with ⟨-, hpending⟩ | ⟨n', reply, -, halong, -⟩
      · exact hpending
      · exact absurd ⟨n', reply, halong⟩ hnone
    · rcases hover.course.of_act with ⟨hsame, -⟩ | ⟨n', reply, -, halong, -⟩
      · cases hsame
      · exact absurd ⟨n', reply, halong⟩ hnone
  obtain ⟨n', a, ha⟩ := hnext reply (n + 1) (h.along hfirst)
  exact ⟨n', a, hfirst.trans ha⟩

lemma Halts.sober : Process.Sober (fun p => H.Halts t i c p) where
  toSequential := sequential
  ask op _ := act hU op
  write _ _ := sequential.evalWrite (fun op _ => act hU op) (act hU _)

lemma Inside.moves (h : H.Inside t i c m p) (hp : p.isDone = false) :
    ∃ n, H.NextMove t m n ∧ H.Along t m p (n + 1) (p.step (H.bench n) t) := by
  obtain ⟨n, hmn, hmover⟩ := hU.moves m (h.within hp)
  have hhead : ∀ {j d}, n < j ∨ d ≠ p → H.Course t m p j d →
      ∃ n, H.NextMove t m n ∧ H.Along t m p (n + 1) (p.step (H.bench n) t) := by
    intro j d hlater hcourse
    rcases hcourse.head with ⟨rfl, hidle⟩ | ⟨n', hnext, halong, -⟩
    · exact absurd hmover (hidle n hmn (hlater.resolve_right fun hne => hne rfl))
    · exact ⟨n', hnext, halong⟩
  rcases h.begins.course_or_finishes hmn.step with
    ⟨e, -, hcourse⟩ | ⟨m', a, -, hover⟩
  · exact hhead (.inl (Nat.lt_succ_self n)) hcourse
  · refine hhead (.inr ?_) hover.course
    rintro rfl
    cases hp

lemma Inside.loop {body : σ → Eval (σ ⊕ β)} {B : Nat → Nat → Prop}
    (hlater : ∀ {k m n}, B k m → m ≤ n → B k n)
    (hround : ∀ s, Always (fun p => H.Halts t i c p) (body s))
    (hless : ∀ {k m n s s' l l'}, B k m → H.Inside t i c m ((body s).start l) →
      H.Finishes t m ((body s).start l) n (.ok (.inl s'), l') → ∃ k' < k, B k' n)
    {k s l} (hB : B k m) (h : H.Inside t i c m ((loop body s).start l)) :
    ∃ n r, H.Along t m ((loop body s).start l) n (.pure r) := by
  induction k using Nat.strongRecOn generalizing m s l with
  | ind k ih =>
    obtain ⟨n, hnext, hfirst⟩ := h.moves hU rfl
    rw [loop_step] at hfirst
    have hin := h.along hfirst
    obtain ⟨n', ⟨r, l'⟩, hr⟩ := hround s l (n + 1) hin.of_bind
    have hboth := hfirst.trans (hr.bind (onward body))
    rcases r with e | s' | b
    · exact ⟨n', _, hboth⟩
    · obtain ⟨e, hen, hover, -⟩ := hr.finishes hin.of_bind.begins
      obtain ⟨k', hk', hB'⟩ := hless (hlater hB hnext.le.step) hin.of_bind hover
      obtain ⟨j, r, hj⟩ := ih k' hk' (hlater hB' hen) (hin.along (hr.bind (onward body)))
      exact ⟨j, r, hboth.trans hj⟩
    · exact ⟨n', _, hboth⟩

/-! ## Sleeps and waits -/

lemma Halts.sleep (millis : Nat) : Always (fun p => H.Halts t i c p) (sleep millis) := by
  intro l m h
  refine h.loop hU (B := fun _ _ => True) (fun _ _ => trivial) (sober hU).sleepStretch
    (fun {k m n s s' l l'} _ hin hover => ?_) (k := 0) trivial
  obtain ⟨n1, going, hgoing, h1⟩ := hover.of_askBind
  cases going with
  | false => cases h1.of_pure.2
  | true =>
    obtain ⟨n2, began, hbegan, h2⟩ := Finishes.of_askBind h1
    obtain ⟨n3, waking, hwaking, h3⟩ := Finishes.of_askBind h2
    cases waking with
    | expired | stopped => cases h3.of_pure.2
    | paused =>
      have hrunning := hU.running n3 (hin.within_before hover
        (by have := hgoing.le; have := hbegan.le; have := hwaking.le; omega) h3.le)
      obtain ⟨-, ⟨heq, -⟩ | ⟨heq, -⟩ | ⟨-, -, hpaused⟩⟩ := Bench.sleepUntil_answer hwaking.answer
      · cases heq
      · cases heq
      · cases hrunning.symm.trans
          (Bench.standing_of_paused (Bench.not_cancelled_of_running hrunning) hpaused)

variable {limits : RunConfig} {bus : Bus} {writeTime : Nat}

omit hU in
lemma place_le {r place'} (hmn : m ≤ n) (hr : r < (H.bench m).hub.nextReader)
    (hplace : (H.bench n).hub.place? r = some place') :
    ∃ place, (H.bench m).hub.place? r = some place ∧ place ≤ place' := by
  induction hmn generalizing place' with
  | refl => exact ⟨place', hplace, le_rfl⟩
  | @step n hmn ih =>
    rcases H.hub_step n with hsame | ⟨u, op, -, hchange⟩
    · rw [hsame] at hplace
      exact ih hplace
    · obtain ⟨place, hbefore, hle⟩ :=
        hchange.place_le (hr.trans_le (known_mono hmn)) hplace
      obtain ⟨first, hfirst, hle'⟩ := ih hbefore
      exact ⟨first, hfirst, hle'.trans hle⟩

variable (H) in
def FewAhead (most : Nat) (r : ReaderId) (few m : Nat) : Prop :=
  most ≤ few ∨ (r < (H.bench m).hub.nextReader ∧
    ∀ place, (H.bench m).hub.place? r = some place → most ≤ place + few)

omit hU in
lemma FewAhead.later {r few} (h : H.FewAhead most r few m) (hmn : m ≤ n) :
    H.FewAhead most r few n := by
  rcases h with hmost | ⟨hknown, hfew⟩
  · exact .inl hmost
  · refine .inr ⟨hknown.trans_le (known_mono hmn), fun place' hplace' => ?_⟩
    obtain ⟨place, hplace, hle⟩ := place_le hmn hknown hplace'
    exact (hfew place hplace).trans (Nat.add_le_add_right hle few)

variable (hH : Session.Reachable limits bus writeTime (H.session 0))

include hH

/-- With each round that is not the last a reader has less to read. -/
lemma FewAhead.less {s call scope predicate r}
    {few deadline deadline' l l'} (h : H.FewAhead most r few m)
    (hin : H.Inside t i c m ((waitRound s call scope predicate r deadline).start l))
    (hover : H.Finishes t m ((waitRound s call scope predicate r deadline).start l) n
      (.ok (.inl deadline'), l')) : ∃ few' < few, H.FewAhead most r few' n := by
  have hround := hover
  rw [waitRound_eq] at hround
  rcases hround.of_evalBind with ⟨e, l', -, heq⟩ | ⟨m1, extra, l1, hstandBy, h1⟩
  · cases heq
  obtain ⟨n1, arrival, hgets, h2⟩ := Finishes.of_askBind h1
  have hwithin := hin.within_before hover (hstandBy.le.trans hgets.le) h2.le
  have hexpired : arrival ≠ .expired := by
    rintro rfl
    cases h2.of_pure.2
  obtain ⟨place, place', hplace, hplace', hlt, hsize⟩ :=
    (Bench.nextFrame_delivers hgets.answer).advances (hU.running n1 hwithin) hexpired
  have hmost := hsize.trans_le (hU.frames n1 hwithin)
  have hbound : most ≤ place + few := by
    rcases h.later (hstandBy.le.trans hgets.le) with hmost | ⟨-, hfew⟩
    · omega
    · exact hfew place hplace
  have hknown : r < (H.bench (n1 + 1)).hub.nextReader :=
    (reachable hH (n1 + 1)).hub_regular _ (Channel.mem_of_place? hplace')
  refine ⟨few - 1, by omega, FewAhead.later (.inr ⟨hknown, fun p hp => ?_⟩) h2.le⟩
  cases hplace'.symm.trans hp
  omega

lemma Halts.waitForFrame {s call scope predicate}
    (hpredicate : ∀ inner, Always (fun p => H.Halts t i c p)
      (evalExpr s call (some inner) predicate)) (millis : Nat) :
    Always (fun p => H.Halts t i c p) (waitForFrame s call scope predicate millis) := by
  have hsober := sober hU
  refine hsober.waitForFrame (U := fun _ => True)
    (fun _ _ hnext => act hU .listen fun r => hnext r trivial) (fun _ _ => act hU _)
    (fun r _ deadline l m h => ?_) millis
  refine h.loop hU (B := H.FewAhead most r) FewAhead.later
    (hsober.waitRound (fun scope f => hsober.evalBindFrame fun field _ =>
      hsober.evalDefine (act hU _) (fun _ => act hU _) scope field.1 field.2) hpredicate
      fun _ => act hU _) (fun hfew => hfew.less hU hH) (k := most) (.inl le_rfl)

lemma Halts.attends (s) :
    Attends s (· ≠ .cycle) (.of fun x => Always (fun p => H.Halts t i c p) x) :=
  (sober hU).attends (Halts.sleep hU) (fun hcycle => absurd rfl hcycle)
    (fun name v _ => sequential.evalDefine (act hU _) (fun _ => act hU _) _ name v)
    (fun pos name op _ _ => (sober hU).execAssign (fun _ => act hU _) pos name op)
    (fun millis _ hpredicate => Halts.waitForFrame hU hH hpredicate millis)

lemma Halts.execStmt {s} (hfree : ∀ f ∈ s.program.functions, Deed.cycle ∉ Stmt.listDeeds f.body)
    (deeperBy scope) {stmt : Stmt} (hstmt : Deed.cycle ∉ stmt.deeds) :
    Always (fun p => H.Halts t i c p) (execStmt s (callFunction s deeperBy) scope stmt) := by
  have hallows : s.program.Allows (· ≠ .cycle) := by
    rintro name f - hf d hd rfl
    exact hfree f (List.mem_of_find?_eq_some hf) hd
  have hattends := Halts.attends hU hH s
  show (Comparison.of fun x => Always (fun p => H.Halts t i c p) x).evals 0
    (CanScript.execStmt s (callFunction s deeperBy) scope stmt)
    (CanScript.execStmt s (callFunction s deeperBy) scope stmt)
  refine hattends.stmt (fun n name f hname hf => hattends.callFunction hallows deeperBy n
    (hallows name f hname hf)) stmt ?_ trivial
  rintro d hd rfl
  exact hstmt hd

end Unhindered

end History

/-! ## How deep calls are nested -/

namespace Eval

/-- A call that looks at how deep calls are nested.  At the limit it fails; below it the body is
    executed one deeper. -/
def limitedCall (s : Setting) (call : Caller) : Caller := fun f args pos => do
  if args.length ≠ f.params.length then
    fail pos (.functionArity f.name f.params.length args.length)
  else if s.limits.maxCallDepth ≤ (← get).callDepth then
    fail pos (.callDepth s.limits.maxCallDepth f.name)
  else
    let flow ← inScope none fun inner => do
      (f.params.zip args).forM fun (name, v) => define (some inner) name v
      deeper (execStmts s call (some inner) f.body)
    match flow with
    | .giveBack v => return v
    | _ => return .void

/-- A call with as many more inside of it as the limit allows. -/
def countedCall (s : Setting) : Caller := fun f args pos => do
  callFunction s (s.limits.maxCallDepth - (← get).callDepth) f args pos

namespace inShape

variable {s : Setting} {n d : Nat}

lemma depth_eq {k l l'} (h : InShape (· = d) k n l l') : l.callDepth = d ∧ l'.callDepth = d :=
  ⟨(congrArg Prod.snd h.shape).trans h.depth, (congrArg Prod.snd h.shape').trans h.depth⟩

lemma countedCall (f args pos) :
    (inShape (· = d)).evals n (callFunction s (s.limits.maxCallDepth - d) f args pos)
      (countedCall s f args pos) := by
  intro k l l' hl
  have hsame := (calls s).callFunction (fun _ _ _ _ _ _ => trivial)
    (s.limits.maxCallDepth - d) n (f := f) (fun _ _ => trivial) args pos k l l'
    ⟨hl.scopes, hl.shape, hl.shape', trivial⟩
  show Alike false _ _ ((callFunction s (s.limits.maxCallDepth - l'.callDepth) f args pos).start l')
  rw [(depth_eq hl).2]
  exact hsame.imp fun r r' hr => ⟨hr.1, hr.2.scopes, hr.2.shape, hr.2.shape', hl.depth⟩

lemma limitedCall (f args pos) : (inShape (· = d)).evals n (Eval.countedCall s f args pos)
      (limitedCall s (Eval.countedCall s) f args pos) := by
  intro k l l' hl
  have hexecutes : Executes s (fun _ => True) (inShape (· = d)) := executes s
  obtain ⟨hdepth, hdepth'⟩ := depth_eq hl
  show Alike false _ ((callFunction s (s.limits.maxCallDepth - l.callDepth) f args pos).start l) _
  rw [hdepth, Eval.limitedCall]
  by_cases harity : args.length ≠ f.params.length
  · rw [callFunction.eq_def]
    dsimp only
    rw [if_pos harity, if_pos harity]
    exact hexecutes.fail _ _ k l l' hl
  rw [if_neg harity]
  show Alike false _ _
    ((if s.limits.maxCallDepth ≤ l'.callDepth then _ else _ : Eval Value).start l')
  rw [hdepth']
  cases hleft : s.limits.maxCallDepth - d with
  | zero =>
    rw [if_pos (by omega), callFunction, if_neg harity]
    exact hexecutes.fail _ _ k l l' hl
  | succ left =>
    obtain rfl : left = s.limits.maxCallDepth - (d + 1) := by omega
    rw [if_neg (by omega), callFunction, if_neg harity]
    refine hexecutes.bind (hexecutes.inScope rfl fun inner inner' hinner => ?_) (fun flow => ?_)
      k l l' hl
    · -- inside of the body calls are one deeper, and so is the count
      have hbody : (inShape (· = d + 1)).evals (n + 1)
          (execStmts s (callFunction s (s.limits.maxCallDepth - (d + 1))) (some inner) f.body)
          (execStmts s (Eval.countedCall s) (some inner') f.body) :=
        (executes s).execBlock (fun _ _ f _ _ => countedCall f) (fun _ _ => trivial) hinner
      refine hexecutes.bind (hexecutes.bindAll hinner (f.params.zip args)) fun _ => deeper ?_ hbody
      exact fun _ h => congrArg (· + 1) h
    · cases flow with
      | giveBack v => exact hexecutes.pure _
      | _ => exact hexecutes.pure _

end inShape

end Eval

/-! ## Scripts without endless loops -/

namespace History

variable {H : History} {limits : RunConfig} {bus : Bus} {writeTime : Nat}

/-- **Scripts without endless loops come to an end.**  Whatever functions call each other, a
    statement that is unhindered ends if no loop without an end is in it or in a function.  At
    any depth calls go on as if each looked at how deep it is: at the limit a call fails at once,
    and below it the body is executed one deeper. -/
theorem loop_free_scripts_end (hH : Session.Reachable limits bus writeTime (H.session 0))
    (s : Setting) (hfree : ∀ f ∈ s.program.functions, Deed.cycle ∉ Stmt.listDeeds f.body)
    (deeperBy : Nat) (scope : Option ScopeId) {stmt : Stmt} (hstmt : Deed.cycle ∉ stmt.deeds)
    {l : Local} {t : TaskId} {i most : Nat}
    (hbegins : H.Begins t i ((execStmt s (callFunction s deeperBy) scope stmt).start l))
    (hU : H.Unhindered t i ((execStmt s (callFunction s deeperBy) scope stmt).start l) most) :
    (∃ j r, H.Finishes t i ((execStmt s (callFunction s deeperBy) scope stmt).start l) j r) ∧
    ∀ d, (∀ scope e, (inShape (· = d)).evals 0
        (evalExpr s (callFunction s (s.limits.maxCallDepth - d)) scope e)
        (evalExpr s (countedCall s) scope e)) ∧
      (∀ scope stmt, (inShape (· = d)).evals 0
        (execStmt s (callFunction s (s.limits.maxCallDepth - d)) scope stmt)
        (execStmt s (countedCall s) scope stmt)) ∧
      ∀ f args pos, (inShape (· = d)).evals 0 (countedCall s f args pos)
        (limitedCall s (countedCall s) f args pos) ∧
        (d = s.limits.maxCallDepth → args.length = f.params.length → ∀ l, l.callDepth = d →
          (limitedCall s (countedCall s) f args pos).start l =
            .pure (.error (.error ((Fault.callDepth d f.name).toDiagnostic pos)), l)) := by
  constructor
  · have hhalts := Halts.execStmt hU hH hfree deeperBy scope hstmt
    have hinside : H.Inside t i _ i _ := ⟨.pure, by rw [Process.bind_pure]; exact ⟨hbegins, .start⟩⟩
    obtain ⟨n, r, halong⟩ := hhalts l i hinside
    obtain ⟨j, -, hover, -⟩ := halong.finishes hbegins
    exact ⟨j, r, hover⟩
  · have hexecutes : ∀ d, Executes s (fun _ => True) (inShape (· = d)) := fun _ =>
      inShape.executes s
    refine fun d => ⟨fun scope e => ?_, fun scope stmt => ?_, fun f args pos =>
      ⟨inShape.limitedCall f args pos, ?_⟩⟩
    · exact (hexecutes d).expr (fun _ _ f _ _ => inShape.countedCall f) e
        (fun _ _ => trivial) rfl
    · exact (hexecutes d).stmt (fun _ _ f _ _ => inShape.countedCall f) stmt
        (fun _ _ => trivial) rfl
    · rintro rfl harity l hl
      rw [limitedCall, if_neg (fun hne => hne harity)]
      show (if s.limits.maxCallDepth ≤ l.callDepth then _ else _ : Eval Value).start l = _
      rw [if_pos (Nat.le_of_eq hl.symm)]
      rfl

lemma Unhindered.of_prompt {γ : Type} {c t i j most} {a : γ} (hover : H.Finishes t i c j a)
    (hprompt : ∀ m < j, i ≤ m → H.mover m = some t ∧
      (H.bench m).standing = .running ∧ (H.bench m).hub.history.size ≤ most ∧
      ∀ task ∈ (H.session m).tasks, task.rest.waits (H.bench m) t → task.id ≠ t) :
    H.Unhindered t i c most := by
  have hbefore : ∀ m, H.Within t i c m → m < j ∧ i ≤ m := by
    rintro m ⟨d, hgoes, hcourse⟩
    refine ⟨Nat.lt_of_not_le fun hle => ?_, hcourse.le⟩
    cases hcourse.along.goes_before hgoes hover.course.along hle
  have hat := fun m hm => hprompt m (hbefore m hm).1 (hbefore m hm).2
  constructor
  case running => exact fun m hm => (hat m hm).2.1
  case moves => exact fun m hm => ⟨m, le_rfl, (hat m hm).1⟩
  case frames => exact fun m hm => (hat m hm).2.2.1
  case answered =>
    intro m op hm hpending
    obtain ⟨hmover, -, -, hready⟩ := hat m hm
    have hnow := hpending (m + 1) (Nat.le_succ m)
    obtain ⟨next, hnext⟩ := hnow.asks m le_rfl (Nat.le_succ m)
    have hnone := hnow.waits m le_rfl (Nat.lt_succ_self m) hmover
    exact hready _ hnext (Option.isNone_iff_eq_none.mpr hnone) rfl

end History

/-- A call of a function that calls itself. -/
def endlessCall : Stmt :=
  .eval ⟨1, 20⟩ (.call ⟨1, 25⟩ (.name ⟨1, 20⟩ "again") [])

/-- A program with that function, and with two calls inside of each other at most. -/
def endlessSetting : Setting where
  program := {
    functions := [⟨⟨1, 1⟩, "again", [], [endlessCall]⟩]
    statements := [endlessCall] }
  ports := ["can0"]
  limits := { maxCallDepth := 2 }

/-- The main sequence goes on until it ends. -/
def endlessHistory : History :=
  .ofRun endlessSetting (movesOf 1 9)

theorem loop_free_scripts_end_recursion : ∃ j r, endlessHistory.Finishes 1 2
    ((execStmt endlessSetting endlessSetting.call none endlessCall).start { sinceYield := 1 })
    j r := by
  have hcall : endlessHistory.Begins 1 2 ((execStmt endlessSetting endlessSetting.call none
      endlessCall).start { sinceYield := 1 }) :=
    History.begins_first 2 (by with_unfolding_all rfl) (by decide +kernel)
      (by with_unfolding_all rfl)
  obtain ⟨_, hover, -⟩ := History.Finishes.of_left (k := 4) (f := fun r => r.1.toBool)
    (b := false) hcall (by decide +kernel) (by decide +kernel)
  have hunhindered : endlessHistory.Unhindered 1 2 _ 0 := .of_prompt hover (by decide +kernel)
  exact (History.loop_free_scripts_end (Session.ofSetting_reachable _) endlessSetting (by decide) _
    none (by decide) hcall hunhindered).1

end CanScript
