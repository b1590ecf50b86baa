import CanScript.Proofs.Moves

/-! # Readers and their places

    A channel keeps all that was sent on it, and each reader has its place in that history.  What
    others send and read does not change that place: it moves on only when the reader gets
    something. -/

namespace CanScript

open List Channel Option

/-! ## Channels -/

namespace Channel

variable {α : Type} {P : α → Prop} {r r' : ReaderId} {c c' c'' : Channel α} {place : Nat}

/-- The place of a reader. -/
def place? (c : Channel α) (r : ReaderId) : Option Nat :=
  c.readers.lookup r

/-- A reader with a place is listed with it. -/
lemma mem_of_place? (h : c.place? r = some place) : (r, place) ∈ c.readers := by
  obtain ⟨before, after, hsplit, -⟩ := lookup_eq_some_iff.mp h
  rw [hsplit]
  exact mem_append_right _ mem_cons_self

/-- Moving one reader leaves the others where they are. -/
lemma place?_moveTo_ne (h : r ≠ r') (c : Channel α) (place) :
    (c.moveTo r' place).place? r = c.place? r := by
  have hne : (r == r') = false := beq_eq_false_iff_ne.mpr h
  unfold place? moveTo
  dsimp only
  induction c.readers with
  | nil => rfl
  | cons p ps ih =>
    rw [map_cons, lookup_cons, lookup_cons, ih]
    by_cases hp : p.1 = r'
    · rw [if_pos (beq_iff_eq.mpr hp), hne, hp, hne]
    · rw [if_neg (mt beq_iff_eq.mp hp)]

/-- A reader that is moved is at its new place. -/
lemma place?_moveTo_self (h : c.place? r = some place) (place') :
    (c.moveTo r place').place? r = some place' := by
  unfold place? at h
  unfold place? moveTo
  dsimp only
  generalize c.readers = readers at h ⊢
  induction readers with
  | nil => cases h
  | cons p ps ih =>
    rw [map_cons, lookup_cons]
    by_cases hp : p.1 = r
    · rw [if_pos (beq_iff_eq.mpr hp), beq_self_eq_true]
    · have hne : (r == p.1) = false := beq_eq_false_iff_ne.mpr (Ne.symm hp)
      rw [lookup_cons, hne] at h
      rw [if_neg (mt beq_iff_eq.mp hp), hne]
      exact ih h

/-- The others stay when a reader leaves. -/
lemma place?_unsubscribe_ne (h : r ≠ r') (c : Channel α) :
    (c.unsubscribe r').place? r = c.place? r :=
  Bus.lookup_filter_ne h c.readers

/-- A new reader takes no number that was given out. -/
lemma place?_subscribe (h : r < c.nextReader) : c.subscribe.1.place? r = c.place? r := by
  have hne : (r == c.nextReader) = false := beq_eq_false_iff_ne.mpr (Nat.ne_of_lt h)
  show (c.readers ++ [(c.nextReader, c.history.size)]).lookup r = c.readers.lookup r
  induction c.readers with
  | nil => rw [nil_append, lookup_cons, hne]
  | cons p ps ih => rw [cons_append, lookup_cons, lookup_cons, ih]

/-- What has become of a channel while one of its readers has got nothing: more was sent, all of it
    of a kind, and the reader is where it was. -/
structure Grows (P : α → Prop) (r : ReaderId) (c c' : Channel α) : Prop where
  history : ∃ more, c'.history.toList = c.history.toList ++ more ∧ ∀ a ∈ more, P a
  place : c'.place? r = c.place? r
  known : c.nextReader ≤ c'.nextReader

namespace Grows

/-- Nothing was sent, and the reader has stayed. -/
lemma of_same (hhistory : c'.history = c.history) (hplace : c'.place? r = c.place? r)
    (hknown : c.nextReader ≤ c'.nextReader) : Grows P r c c' :=
  ⟨⟨[], by rw [hhistory, append_nil], forall_mem_nil _⟩, hplace, hknown⟩

lemma refl (c : Channel α) : Grows P r c c :=
  of_same rfl rfl (Nat.le_refl _)

/-- Sending moves no reader. -/
lemma send {a} (h : P a) (c : Channel α) : Grows P r c (c.send a) :=
  ⟨⟨[a], Array.toList_push, forall_mem_singleton.mpr h⟩, rfl, Nat.le_refl _⟩

end Grows

/-! ## What a reader gets -/

variable {got : Received α}

/-- A reader gets what is at its place, or is put forward if that is no longer kept. -/
lemma receive?_place (h : c.receive? r = some (got, c')) :
    ∃ place, c.place? r = some place ∧ c'.history = c.history ∧ c'.nextReader = c.nextReader ∧
      ((∃ n place', got = .lagged n ∧ place < place' ∧ place' ≤ c.history.size ∧
          c'.place? r = some place') ∨
        ∃ a, got = .item a ∧ c.history[place]? = some a ∧ c'.place? r = some (place + 1)) := by
  unfold receive? at h
  cases hplace : c.readers.lookup r with
  | none =>
    rw [hplace] at h
    cases h
  | some place =>
    rw [hplace] at h
    obtain ⟨⟨got', place'⟩, hnext, heq⟩ := map_eq_some_iff.mp h
    obtain ⟨rfl, rfl⟩ := Prod.mk.inj heq
    refine ⟨place, hplace, rfl, rfl, ?_⟩
    unfold next? at hnext
    split at hnext
    · next hbehind =>
        obtain ⟨rfl, rfl⟩ := Prod.mk.inj (Option.some.inj hnext)
        exact .inl ⟨_, _, rfl, hbehind, Nat.sub_le _ _, place?_moveTo_self hplace _⟩
    · obtain ⟨a, ha, heq⟩ := map_eq_some_iff.mp hnext
      obtain ⟨rfl, rfl⟩ := Prod.mk.inj heq
      exact .inr ⟨a, rfl, ha, place?_moveTo_self hplace _⟩

/-- Whatever a reader gets, it comes further. -/
lemma receive?_advances (h : c.receive? r = some (got, c')) :
    ∃ place place', c.place? r = some place ∧ c'.place? r = some place' ∧ place < place' ∧
      place < c.history.size := by
  obtain ⟨place, hplace, -, -, ⟨n, place', -, hlt, hle, hplace'⟩ | ⟨a, -, ha, hplace'⟩⟩ :=
    receive?_place h
  · exact ⟨place, place', hplace, hplace', hlt, Nat.lt_of_lt_of_le hlt hle⟩
  · refine ⟨place, place + 1, hplace, hplace', Nat.lt_succ_self _, ?_⟩
    obtain ⟨hlt, -⟩ := Array.getElem?_eq_some_iff.mp ha
    exact hlt

/-- While all is kept nobody misses anything. -/
lemma receive?_ne_lagged (h : c.oldest = 0) (n) : c.receive? r ≠ some (.lagged n, c') := by
  intro hreceived
  rw [receive?] at hreceived
  split at hreceived
  · cases hreceived
  · obtain ⟨got, hnext, heq⟩ := map_eq_some_iff.mp hreceived
    rw [next?, h, if_neg (Nat.not_lt_zero _)] at hnext
    obtain ⟨_, -, rfl⟩ := map_eq_some_iff.mp hnext
    cases heq

/-- A reader that gets nothing has come to the end. -/
lemma size_le_of_receive?_none (hplace : c.place? r = some place) (h : c.receive? r = none) :
    c.history.size ≤ place := by
  unfold receive? at h
  unfold place? at hplace
  rw [hplace] at h
  have hnext : c.next? place = none := map_eq_none_iff.mp h
  unfold next? at hnext
  split at hnext
  · cases hnext
  · exact Array.getElem?_eq_none_iff.mp (map_eq_none_iff.mp hnext)

/-- What others get is nothing to a reader. -/
lemma Grows.receive? (h : c.receive? r' = some (got, c')) (hne : r ≠ r') : Grows P r c c' := by
  unfold Channel.receive? at h
  split at h
  · cases h
  · obtain ⟨⟨got', place'⟩, -, heq⟩ := map_eq_some_iff.mp h
    obtain ⟨rfl, rfl⟩ := Prod.mk.inj heq
    exact of_same rfl (place?_moveTo_ne hne c _) (Nat.le_refl _)

end Channel

/-! ## Requests -/

namespace Bench

variable {t : TaskId} {b : Bench} {op : Request} {r : ReaderId} {port : String}

namespace HubChange

variable {hub : Channel Frame}

/-- A request that is not for a reader leaves that reader where it is. -/
lemma grows (h : HubChange b op hub) (hop : op.hubReader? ≠ some r) (hr : r < b.hub.nextReader) :
    b.hub.Grows (fun _ => True) r hub := by
  cases h with
  | nothing _ => exact .refl _
  | listen => exact .of_same rfl (place?_subscribe hr) (Nat.le_succ _)
  | unlisten r' =>
    have hne : r ≠ r' := fun heq => hop (congrArg some heq.symm)
    exact .of_same rfl (place?_unsubscribe_ne hne _) (Nat.le_refl _)
  | @got _ r' _ _ _ hreader hgot =>
    have hne : r ≠ r' := fun heq => hop (heq ▸ hreader)
    exact .receive? hgot hne
  | publish f => exact .send trivial _

/-- Readers go forward only. -/
lemma place_le (h : HubChange b op hub) (hr : r < b.hub.nextReader) {place'}
    (hplace : hub.place? r = some place') :
    ∃ place, b.hub.place? r = some place ∧ place ≤ place' := by
  by_cases hop : op.hubReader? = some r
  · cases h with
    | nothing _ => exact ⟨place', hplace, Nat.le_refl _⟩
    | listen => cases hop
    | unlisten r' =>
      cases hop
      have hmem := mem_filter.mp (mem_of_place? hplace)
      exact absurd rfl (bne_iff_ne.mp hmem.2)
    | got _ hreader hgot =>
      cases hreader.symm.trans hop
      obtain ⟨place, after, hbefore, hafter, hlt, -⟩ := receive?_advances hgot
      rw [hplace] at hafter
      cases hafter
      exact ⟨place, hbefore, Nat.le_of_lt hlt⟩
    | publish f => cases hop
  · exact ⟨place', (h.grows hop hr).place ▸ hplace, Nat.le_refl _⟩

/-- The hub has more in it only after a frame was published. -/
lemma history (h : HubChange b op hub) :
    hub.history.toList = b.hub.history.toList ++ op.published?.toList := by
  cases h with
  | nothing hop =>
    rw [hop]
    exact (append_nil _).symm
  | listen | unlisten r => exact (append_nil _).symm
  | got hop _ hgot =>
    obtain ⟨_, _, hsame, -⟩ := receive?_place hgot
    rw [hop, hsame]
    exact (append_nil _).symm
  | publish f => exact Array.toList_push

/-- Numbers of readers are given out in order. -/
lemma known (h : HubChange b op hub) : b.hub.nextReader ≤ hub.nextReader := by
  cases h with
  | listen => exact Nat.le_succ _
  | got _ _ hgot =>
    obtain ⟨_, _, -, hsame, -⟩ := receive?_place hgot
    exact Nat.le_of_eq hsame.symm
  | _ => exact Nat.le_refl _

end HubChange

end Bench

namespace Bus

variable {r : ReaderId} {port : String}

lemma grows_setChannel {b : Bus} {other c}
    (h : port = other → (b.channel port).Grows (fun f => f.port = port) r c) :
    (b.channel port).Grows (fun f => f.port = port) r ((b.setChannel other c).channel port) := by
  by_cases hport : port = other
  · subst hport
    rw [channel_setChannel_self]
    exact h rfl
  · rw [channel_setChannel_ne b hport]
    exact .refl _

/-- A frame goes to the channel of its own port. -/
lemma grows_deliver (b : Bus) (f) :
    (b.channel port).Grows (fun f => f.port = port) r ((b.deliver f).channel port) := by
  refine grows_setChannel fun hport => ?_
  subst hport
  exact .send (P := fun g : Frame => g.port = f.port) rfl _

/-- A write adds to channels, if at all, the frame itself. -/
lemma grows_write (b : Bus) (now f) :
    (b.channel port).Grows (fun f => f.port = port) r ((b.write now f).1.channel port) := by
  unfold write
  split
  · exact .refl _
  · dsimp only
    split
    · exact grows_deliver { b with sent := _ } _
    · exact .refl _

end Bus

/-- So it is with a request that is not for this reader of the port. -/
lemma Bench.BusChange.grows {b op bus port r}
    (h : BusChange b op bus) (hop : op.portReader? ≠ some (port, r)) :
    (b.bus.channel port).Grows (fun f => f.port = port) r (bus.channel port) := by
  cases h with
  | nothing => exact .refl _
  | leave other r' =>
    refine Bus.grows_setChannel fun hport => ?_
    have hne : r ≠ r' := fun heq => hop (congrArg some (Prod.ext hport.symm heq.symm))
    subst hport
    exact .of_same rfl (place?_unsubscribe_ne hne _) (Nat.le_refl _)
  | @got _ other r' _ _ hreader hgot =>
    obtain ⟨⟨_, c⟩, hc, heq⟩ := map_eq_some_iff.mp hgot
    cases heq
    refine Bus.grows_setChannel fun hport => ?_
    have hne : r ≠ r' := fun heq =>
      hop (hreader.trans (congrArg some (Prod.ext hport.symm heq.symm)))
    subst hport
    exact .receive? hc hne
  | transmit f => exact Bus.grows_write _ _ _

/-! ## Steps without a move -/

namespace Session

/-- From outside come frames on ports and nothing to the hub. -/
lemma External.traffic {s s'} (h : External s s') : s'.bench.hub = s.bench.hub ∧
    (s'.bench.bus.channels = s.bench.bus.channels ∧ s'.bench.bus.capacity = s.bench.bus.capacity ∨
      ∃ f, s'.bench.bus = s.bench.bus.deliver f) := by
  obtain ⟨b, rfl, hb⟩ := h.influence
  cases hb with
  | frame f => exact ⟨rfl, .inr ⟨f, rfl⟩⟩
  | _ => exact ⟨rfl, .inl ⟨rfl, rfl⟩⟩

/-- Without a move of a task the hub is as it was, and ports only get more. -/
lemma Step.traffic_of_none {s s'} (h : Step none s s') : s'.bench.hub = s.bench.hub ∧ ∀ port r,
      (s.bench.bus.channel port).Grows (fun f => f.port = port) r (s'.bench.bus.channel port) := by
  cases h with
  | spawn =>
    obtain ⟨processes, heq, -⟩ := startTasks_eq s
    rw [heq]
    exact ⟨rfl, fun _ _ => .refl _⟩
  | external hexternal =>
    obtain ⟨hhub, ⟨hchannels, hcapacity⟩ | ⟨f, hf⟩⟩ := hexternal.traffic
    · refine ⟨hhub, fun port r => ?_⟩
      unfold Bus.channel
      rw [hchannels, hcapacity]
      exact .refl _
    · refine ⟨hhub, fun port r => ?_⟩
      rw [hf]
      exact Bus.grows_deliver _ f

end Session

end CanScript
