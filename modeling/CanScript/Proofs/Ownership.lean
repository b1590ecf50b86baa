import CanScript.Proofs.Reports

/-! # Whose a reader is

    A task that waits for a frame has a reader of the hub, which was new when it got it.  So no
    other task has it, and its place in the hub moves only with what the task asks for. -/

namespace CanScript

/-- A process makes no request for a reader, as long as it does not get it. -/
abbrev Process.Discreet (r : ReaderId) {α : Type} (p : Process α) : Prop :=
  p.Abstains (fun op => op.hubReader? = some r) (· = r)

lemma Bench.HubChange.regular {b : Bench} {op hub}
    (h : b.HubChange op hub) (hb : b.hub.Regular) : hub.Regular := by
  cases h with
  | nothing _ => exact hb
  | listen => exact hb.subscribe
  | unlisten r => exact hb.unsubscribe r
  | got _ _ hgot => exact hb.receive? hgot
  | publish f => exact hb

namespace Session

lemma addForwarders_hub (s) (ports : List String) :
    (ports.foldl addForwarder s).bench.hub = s.bench.hub :=
  List.foldlRecOn (motive := fun s' : Session => s'.bench.hub = s.bench.hub) ports addForwarder rfl
    fun _ hs _ _ => hs

lemma Reachable.hub_regular {limits bus writeTime s}
    (h : Reachable limits bus writeTime s) : s.bench.hub.Regular := by
  refine h.invariant (P := fun s => s.bench.hub.Regular) (List.forall_mem_nil _) ?_ ?_
    (fun _ _ _ _ _ hs => hs) ?_
  · intro who s s' _ hstep hs
    refine hstep.keeps (P := fun b => b.hub.Regular)
      (fun _ _ _ hchange => hchange.traffic.1.regular hs) (fun _ => hs) fun b hb => ?_
    cases hb <;> exact hs
  · exact fun s hs => hs
  · intro s _ _ program ports
    obtain ⟨events, heq⟩ := beginRun_eq s.bench (s.settingOf program ports)
    have hbegun : (ports.foldl addForwarder
        ⟨beginRun s.bench (s.settingOf program ports), s.tasks⟩).bench.hub.Regular := by
      rw [addForwarders_hub, heq]
      exact List.forall_mem_nil _
    rw [launch_eq]
    show (addDispatcher _ _).bench.hub.Regular
    rw [addDispatcher]
    split
    · exact hbegun
    · exact hbegun.subscribe

end Session

namespace History

variable {H : History} {setting : Setting} {lines : List Line} {d t u : TaskId} {i j k n : Nat}
  {r : ReaderId} {op : Request}

/-! ## Sole users -/

lemma Makes.known_of_listen (h : H.Makes t n .listen) :
    (H.bench (n + 1)).hub.nextReader = (H.bench n).hub.nextReader + 1 := by
  obtain ⟨hmover, next, hnext⟩ := h
  rw [(hnext.move hmover).1]
  rfl

lemma Makes.listen_unique (h : H.Makes t n .listen) (h' : H.Makes u k .listen)
    (hsame : (H.bench k).hub.nextReader = (H.bench n).hub.nextReader) : u = t := by
  rcases lt_trichotomy k n with hlt | rfl | hgt
  · have hlater := known_mono (H := H) (Nat.succ_le_of_lt hlt)
    rw [Nat.succ_eq_add_one, h'.known_of_listen, hsame] at hlater
    exact absurd hlater (Nat.not_succ_le_self _)
  · exact Option.some.inj (h'.1.symm.trans h.1)
  · have hlater := known_mono (H := H) (Nat.succ_le_of_lt hgt)
    rw [Nat.succ_eq_add_one, h.known_of_listen, hsame] at hlater
    exact absurd hlater (Nat.not_succ_le_self _)

section Opened

variable (h : Session.Opened setting lines d (H.session 0))

include h

/-- Whatever makes a request for a reader that a task got is that task. -/
lemma owner_of_reader (hlistens : H.Makes t n .listen)
    (hmakes : H.Makes u k op) (hop : op.hubReader? = some (H.bench n).hub.nextReader) : u = t := by
  by_contra hne
  have hreserved : ∀ op : Request, op.hubReader? = some (H.bench n).hub.nextReader →
      op.Reserved (· = (H.bench n).hub.nextReader) :=
    fun op hop => Request.reserved_of_hubReader rfl hop
  -- the reader of the dispatcher was given out before
  have hdispatcher : setting.program.receiveHandlers ≠ [] →
      Request.hubReader? (.receive (.hub 0)) ≠ some (H.bench n).hub.nextReader := by
    intro hhandlers hzero
    have hknown := reader_known h ⟨rfl, hhandlers⟩ n
    rw [← Option.some.inj hzero] at hknown
    exact lt_irrefl _ hknown
  have hstays : ∀ {i : Nat} {p : Process Unit}, H.Has u i p →
      p.Discreet (H.bench n).hub.nextReader → ∀ {next}, ¬ H.Along u i p k (.act op next) := by
    intro i p hp hdiscreet next halong
    rw [← Process.bind_pure p] at hp
    have hlast := halong.abstains hp (fun m _ _ hlistens' hsame =>
      hne (hlistens.listen_unique hlistens' hsame)) hdiscreet
    exact (Regime.Keeps.of_act hlast).1 hop
  obtain ⟨-, next, hnext⟩ := hmakes
  rcases hnext.since (Nat.zero_le k) with ⟨p, hp, halong⟩ | ⟨m, setting', a, -, -, hm, halong⟩
  · refine hstays hp ?_ halong
    cases h.parts _ hp with
    | @forwards line hline => exact .forwarder hreserved _ _
    | dispatches hhandlers =>
      exact (Process.Abstains.temperate hreserved).dispatcher
        (fun _ _ => .act (by simp [Request.hubReader?])) (.act (hdispatcher hhandlers)) setting
    | executes _ hrest =>
      rcases hrest with hmain | ⟨i, handler, -, hinterval⟩
      · rw [show p = _ from hmain]
        exact (Process.Abstains.temperate hreserved).mainTask setting
      · rw [show p = _ from hinterval]
        exact .intervalTask hreserved setting i handler
  · exact hstays hm ((Process.Abstains.temperate hreserved).activationTask setting' a) halong

lemma place_of_owner (hlistens : H.Makes t n .listen) (hni : n < i) (hij : i ≤ j)
    (howner : ∀ m op, i ≤ m → m < j → H.Makes t m op →
      op.hubReader? = some (H.bench n).hub.nextReader → (H.bench (m + 1)).hub = (H.bench m).hub) :
    (H.bench j).hub.place? (H.bench n).hub.nextReader
      = (H.bench i).hub.place? (H.bench n).hub.nextReader := by
  refine steady (F := fun m => (H.bench m).hub.place? (H.bench n).hub.nextReader) hij
    fun m him hmj => ?_
  have hknown : (H.bench n).hub.nextReader < (H.bench m).hub.nextReader := by
    have hlater := known_mono (H := H) ((Nat.succ_le_of_lt hni).trans him)
    rwa [Nat.succ_eq_add_one, hlistens.known_of_listen] at hlater
  rcases H.hub_step m with hsame | ⟨u, op, hmakes, hchange⟩
  · rw [hsame]
  · by_cases hop : op.hubReader? = some (H.bench n).hub.nextReader
    · obtain rfl := owner_of_reader h hlistens hmakes hop
      rw [howner m op him hmj hmakes hop]
    · exact (hchange.grows hop hknown).place

lemma AsksOnly.place (hlistens : H.Makes t n .listen) (hni : n < i) (hij : i ≤ j)
    {O : Request → Prop} (hasks : H.AsksOnly t O i j) (hO : ∀ op, O op → op.hubReader? = none) :
    (H.bench j).hub.place? (H.bench n).hub.nextReader
      = (H.bench i).hub.place? (H.bench n).hub.nextReader := by
  refine place_of_owner h hlistens hni hij fun m op him hmj hmakes hop => ?_
  rw [hO op (hasks m op him hmj hmakes)] at hop
  cases hop

lemma Pending.place {deadline} (hlistens : H.Makes t n .listen) (hni : n < i)
    (hij : i ≤ j) (hpending : H.Pending t i j (.nextFrame r deadline)) :
    (H.bench j).hub.place? (H.bench n).hub.nextReader
      = (H.bench i).hub.place? (H.bench n).hub.nextReader := by
  refine place_of_owner h hlistens hni hij fun m op him hmj hmakes _ => ?_
  obtain ⟨hmover, next, hnext⟩ := hmakes
  have hwaits := hpending.waits m him hmj hmover
  obtain ⟨next', hnext'⟩ := hpending.asks m him hmj.le
  cases hnext.unique hnext'
  rw [(hnext.move hmover).1]
  exact congrArg (·.bench.hub) (Bench.nextFrame_waits hwaits).1

end Opened

/-! ## Frames that enter -/

lemma Gets.of_listen {limits bus writeTime}
    (hreach : Session.Reachable limits bus writeTime (H.session 0)) (h : H.Gets t i n .listen r) :
    r = (H.bench n).hub.nextReader ∧
      (H.bench (n + 1)).hub.place? r = some (H.bench n).hub.history.size := by
  have hanswer : some ({ H.bench n with hub := (H.bench n).hub.subscribe.1 },
      (H.bench n).hub.nextReader) = some (H.bench (n + 1), r) := h.answer
  obtain ⟨hbench, rfl⟩ := Prod.mk.inj (Option.some.inj hanswer)
  rw [← hbench]
  exact ⟨rfl, (reachable hreach n).hub_regular.place?_subscribe⟩

variable (H) in
/-- The frames that enter the hub from one moment to another. -/
def entered (i j : Nat) : List Frame :=
  (H.bench j).hub.history.toList.drop (H.bench i).hub.history.size

lemma entered_mono (hij : i ≤ j) (hjk : j ≤ k) : H.entered i j <+: H.entered i k := by
  obtain ⟨more, hmore⟩ := H.hub_grows hjk
  rw [entered, entered, hmore, List.drop_append_of_le_length]
  · exact List.prefix_append _ _
  · exact size_mono hij

end History

end CanScript
