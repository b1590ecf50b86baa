import CanScript.Proofs.Resend
import CanScript.Proofs.Spans

/-! # The time of a replay

    A replay waits before each frame for as long as the time of the trace went on since the frame
    before it.  Times that go back take no time, and are not made up for: a trace that is not in
    order takes longer to replay than its latest time says. -/

namespace CanScript

open List

namespace Session

variable {s : Session}

lemma passTime_now {target n} (passes) (hle : s.bench.now ≤ target)
    (hn : target - s.bench.now < n) :
    (Machine.passTime passes (fun _ => false) target n s).bench.now = target := by
  induction n generalizing s with
  | zero => omega
  | succ n ih =>
    have hnow : (s.settleWithin passes).bench.now = s.bench.now := (settleWithin_moves passes s).now
    rw [Machine.passTime, if_neg Bool.false_ne_true]
    cases hnext : (s.settleWithin passes).nextDeadline? target with
    | none =>
      rw [← hnow] at hle
      exact Nat.max_eq_right hle
    | some d =>
      have hlater := now_lt_nextDeadline hnext
      have hwithin : d ≤ target :=
        (of_decide_eq_true (mem_filter.mp (min?_mem hnext)).2).2
      refine ih (s := (s.settleWithin passes).setClock d) hwithin ?_
      show target - d < n
      omega

end Session

namespace Trace

/-- How long a replay of frames takes after a frame with some time. -/
def replayTime (previous : Nat) : List Frame → Nat
  | [] => 0
  | f :: rest => (f.timestamp - previous) + replayTime f.timestamp rest

/-- The latest of a time and the times of frames. -/
def latest (time : Nat) (frames : List Frame) : Nat :=
  frames.foldl (fun time f => max time f.timestamp) time

/-- Time goes forward only from the latest time so far. -/
def Steady (time previous : Nat) : List Frame → Prop
  | [] => True
  | f :: rest => (previous < f.timestamp → previous = time) ∧
      Steady (max time f.timestamp) f.timestamp rest

lemma latest_le_replayTime (frames : List Frame) {time previous elapsed}
    (hprevious : previous ≤ time) (htime : time ≤ elapsed) :
    latest time frames ≤ elapsed + replayTime previous frames ∧
    (elapsed + replayTime previous frames = latest time frames ↔
      elapsed = time ∧ Steady time previous frames) := by
  induction frames generalizing time previous elapsed with
  | nil => simpa [latest, replayTime, Steady] using htime
  | cons f rest ih =>
    have helapsed : max time f.timestamp ≤ elapsed + (f.timestamp - previous) := by omega
    obtain ⟨hle, hiff⟩ := ih (le_max_right time f.timestamp) helapsed
    rw [replayTime, ← Nat.add_assoc]
    refine ⟨hle, hiff.trans ?_⟩
    rw [Steady]
    constructor
    · rintro ⟨hsame, hsteady⟩
      exact ⟨by omega, by omega, hsteady⟩
    · rintro ⟨hsame, hstep, hsteady⟩
      exact ⟨by omega, hsteady⟩

lemma steady_of_ordered {frames : List Frame}
    (h : frames.Pairwise (·.timestamp ≤ ·.timestamp)) {time}
    (hfirst : ∀ f ∈ frames, time ≤ f.timestamp) : Steady time time frames := by
  induction frames generalizing time with
  | nil => trivial
  | cons f rest ih =>
    obtain ⟨hf, hrest⟩ := pairwise_cons.mp h
    refine ⟨fun _ => rfl, ?_⟩
    rw [Nat.max_eq_right (hfirst f mem_cons_self)]
    exact ih hrest hf

end Trace

namespace Session

open Trace

/-- A frame as a replay puts it on the bus: on a port if one is given, and without a time. -/
def replayed (port? : Option String) (f : Frame) : Frame :=
  { f with port := port?.getD f.port, timestamp := 0 }

lemma playAfter_now (s : Session) (port? : Option String) (gap f) :
    (s.playAfter port? gap f).bench.now = s.bench.now + gap := by
  show (if 0 < gap then s.advance gap else s : Session).bench.now = _
  split
  · exact passTime_now _ (Nat.le_add_right _ _) (by omega)
  · omega

lemma replayAfter_cons (s : Session) (port? : Option String) (previous f rest) :
    s.replayAfter port? none previous (f :: rest)
      = (((s.playAfter port? (f.timestamp - previous) f).replayAfter port? none f.timestamp rest).1,
        ((s.playAfter port? (f.timestamp - previous) f).replayAfter port? none f.timestamp rest).2
          + 1) := rfl

lemma replayAfter_moment (port? : Option String) (f : Frame) (before after) (s : Session)
    (previous) : ∃ moment : Session,
    moment.bench.now = s.bench.now + replayTime previous (before ++ [f]) ∧
    (s.replayAfter port? none previous (before ++ [f])).1 = (moment.inject (replayed port? f)).1 ∧
    (s.replayAfter port? none previous (before ++ f :: after)).1
      = ((moment.inject (replayed port? f)).1.replayAfter port? none f.timestamp after).1 := by
  induction before generalizing s previous with
  | nil =>
    refine ⟨if 0 < f.timestamp - previous then s.advance (f.timestamp - previous) else s, ?_,
      rfl, rfl⟩
    exact s.playAfter_now port? _ f
  | cons g before ih =>
    obtain ⟨moment, hnow, hlast, hall⟩ :=
      ih (s.playAfter port? (g.timestamp - previous) g) g.timestamp
    refine ⟨moment, ?_, ?_, ?_⟩
    · rw [hnow, playAfter_now, cons_append, replayTime, Nat.add_assoc]
    · rw [cons_append, replayAfter_cons]
      exact hlast
    · rw [cons_append, replayAfter_cons]
      exact hall

lemma replayAfter_end (s : Session) (port? : Option String) (previous frames) :
    (s.replayAfter port? none previous frames).1.bench.now
      = s.bench.now + replayTime previous frames ∧
    (s.replayAfter port? none previous frames).2 = frames.length := by
  induction frames generalizing s previous with
  | nil => exact ⟨rfl, rfl⟩
  | cons f rest ih =>
    obtain ⟨hnow, hcount⟩ := ih (s.playAfter port? (f.timestamp - previous) f) f.timestamp
    rw [replayAfter_cons]
    refine ⟨?_, congrArg (· + 1) hcount⟩
    rw [hnow, playAfter_now, replayTime, Nat.add_assoc]

/-- **A replay keeps the times between frames.**  It puts each frame on the bus after the frames
    before it, when the time has passed by which their times went forward from one frame to the
    next, and ends with the last frame.  That is never before the latest time of these frames, and
    not later if time goes forward only from the latest time so far, as it does in a trace that is
    in order. -/
theorem replay_on_time (frames : List Frame) (s : Session) (port? : Option String) :
    (∀ i f, frames[i]? = some f → ∃ moment : Session,
      moment.bench.now = s.bench.now + replayTime 0 (frames.take (i + 1)) ∧
      (s.replay (frames.take (i + 1)) port? none).1 = (moment.inject (replayed port? f)).1 ∧
      (s.replay frames port? none).1 = ((moment.inject (replayed port? f)).1.replayAfter port? none
        f.timestamp (frames.drop (i + 1))).1) ∧
    (s.replay frames port? none).2 = frames.length ∧
    (s.replay frames port? none).1.bench.now = s.bench.now + replayTime 0 frames ∧
    ∀ i, latest 0 (frames.take i) ≤ replayTime 0 (frames.take i) ∧
      (replayTime 0 (frames.take i) = latest 0 (frames.take i) ↔ Steady 0 0 (frames.take i)) ∧
      ((frames.take i).Pairwise (·.timestamp ≤ ·.timestamp) → Steady 0 0 (frames.take i)) := by
  obtain ⟨hnow, hcount⟩ := replayAfter_end s port? 0 frames
  refine ⟨fun i f hf => ?_, hcount, hnow, fun i => ?_⟩
  · have htake : frames.take (i + 1) = frames.take i ++ [f] := by
      rw [List.take_add_one, hf]
      rfl
    have hsplit : frames = frames.take i ++ f :: frames.drop (i + 1) := by
      rw [← List.singleton_append, ← List.append_assoc, ← htake, List.take_append_drop]
    obtain ⟨moment, hmoment, hlast, hall⟩ :=
      replayAfter_moment port? f (frames.take i) (frames.drop (i + 1)) s 0
    rw [← hsplit] at hall
    rw [← htake] at hmoment hlast
    exact ⟨moment, hmoment, hlast, hall⟩
  · obtain ⟨hle, hiff⟩ := latest_le_replayTime (frames.take i) (Nat.le_refl 0) (Nat.le_refl 0)
    rw [Nat.zero_add] at hle hiff
    exact ⟨hle, hiff.trans ⟨And.right, fun hsteady => ⟨rfl, hsteady⟩⟩,
      fun hordered => steady_of_ordered hordered fun _ _ => Nat.zero_le _⟩

/-- Lines of two ports, the third of which was written too late. -/
def unordered : String :=
  "(7.0) can0 1#\n(7.1) can0 2#\n(7.05) can1 3#\n(7.08) can1 4#\n"

/-- A replay can take longer than the latest time of the trace. -/
theorem replay_outlasts_trace : ∃ frames, (Trace.read unordered).toOption = some frames ∧
    frames.map Frame.timestamp = [0, 100, 50, 80] ∧ latest 0 frames = 100 ∧
    ((ofLimits {} (.ofCapacity 16)).replay frames none none).1.bench.now = 130 := by
  refine ⟨[⟨1, [], false, "can0", 0⟩, ⟨2, [], false, "can0", 100⟩, ⟨3, [], false, "can1", 50⟩,
    ⟨4, [], false, "can1", 80⟩], by decide +kernel, rfl, rfl, by decide +kernel⟩

end Session

end CanScript
