import CanScript.Trace
import Mathlib.Tactic.Lemma

/-! # What is known of recorded frames

    Whatever a trace says, its frames can be sent: identifiers and payloads are in range, an
    identifier that needs an extended frame has one, and the name of a port holds no line end. Their
    times are small enough to be written as whole numbers, and the first one is zero. -/

namespace CanScript.Trace

open Number Text

/-- A frame as a trace can give it. -/
structure Recorded (f : Frame) : Prop where
  id_le : f.id ≤ Frame.maxExtendedId
  payload : f.data.length ≤ Frame.maxPayload
  extended : Frame.maxStandardId < f.id → f.extended = true
  port : '\n' ∉ f.port.toList
  timestamp : f.timestamp ≤ maxWord64 / 1000

/-! ## Fields -/

variable {cs : List Char} {micros : Option Nat} {f : Frame} {frames : List Frame}

lemma fieldsFrom_solid {word} (hword : ∀ c ∈ word, isBlank c = false) :
    ∀ field ∈ fieldsFrom word cs, ∀ c ∈ field, isBlank c = false := by
  have hreverse : ∀ word : List Char, (∀ c ∈ word, isBlank c = false) →
      ∀ c ∈ word.reverse, isBlank c = false :=
    fun word hword c hc => hword c (List.mem_reverse.mp hc)
  induction cs generalizing word with
  | nil =>
    rw [fieldsFrom]
    split
    · exact nofun
    · exact List.forall_mem_singleton.mpr (hreverse word hword)
  | cons c cs ih =>
    rw [fieldsFrom]
    split
    · split
      · exact ih nofun
      · exact List.forall_mem_cons.mpr ⟨hreverse word hword, ih nofun⟩
    · next hc => exact ih (List.forall_mem_cons.mpr ⟨Bool.eq_false_iff.mpr hc, hword⟩)

lemma no_line_end {field} (h : field ∈ fields cs) : '\n' ∉ field := by
  intro hmem
  have hblank := fieldsFrom_solid (List.forall_mem_nil _) field h '\n' hmem
  exact absurd hblank (by decide)

/-! ## Times -/

lemma round_le (x : Exact) : (x.round 0 maxWord64).toNat ≤ maxWord64 := by
  have hbound : ∀ n, (Exact.clamp 0 maxWord64 n).toNat ≤ maxWord64 := by
    intro n
    unfold Exact.clamp
    omega
  cases x with
  | nan => exact Nat.zero_le _
  | infinite s => cases s <;> decide
  | finite s m e => exact hbound _

lemma readMicros_le {micros} (h : readMicros cs = .ok micros) : micros ≤ maxWord64 := by
  unfold readMicros at h
  split at h
  · cases h
    exact round_le _
  · cases h

def untimed (parts : List (List Char)) : List (List Char) :=
  if (parts.head?.bind timeField?).isSome then parts.drop 1 else parts

lemma readTime_spec {parts rest} (h : readTime parts = .ok (micros, rest)) :
    rest = untimed parts ∧ ∀ n, micros = some n → n ≤ maxWord64 := by
  unfold readTime at h
  split at h
  · cases h
    exact ⟨rfl, by simp⟩
  · split at h
    · next hnone =>
      cases h
      exact ⟨by simp [untimed, hnone], by simp⟩
    · next first more inner hinner =>
      cases hmicros : readMicros inner with
      | error e =>
        rw [hmicros] at h
        cases h
      | ok n =>
        rw [hmicros] at h
        cases h
        refine ⟨by simp [untimed, hinner], fun m hm => ?_⟩
        obtain rfl := Option.some.inj hm
        exact readMicros_le hmicros

/-! ## Frames -/

lemma makeFrame_recorded {port idText data} (hport : '\n' ∉ port)
    (h : makeFrame port idText data = .ok f) : Recorded f := by
  unfold makeFrame at h
  split at h
  · cases h
  · next id _ =>
    split at h
    · cases h
    · next hid =>
      split at h
      · cases h
      · next hdata =>
        cases h
        exact {
          id_le := Nat.not_lt.mp hid
          payload := Nat.not_lt.mp hdata
          extended := fun hgreat => by
            rw [Bool.or_eq_true]
            exact .inr (decide_eq_true hgreat)
          port := by
            show '\n' ∉ (String.ofList port).toList
            rwa [String.toList_ofList]
          timestamp := Nat.zero_le _ }

/-- What the frame of a line is made of. -/
lemma readLine_parts {line} (h : readLine line = .ok (some (f, micros))) :
    ∃ port body rest id data, readTime (fields (trim line)) = .ok (micros, port :: body :: rest) ∧
      readBody body rest = .ok (id, data) ∧ makeFrame port id data = .ok f := by
  unfold readLine readFields at h
  dsimp only at h
  split at h
  · cases h
  cases htime : readTime (fields (trim line)) with
  | error e =>
    rw [htime] at h
    cases h
  | ok p =>
    obtain ⟨time, rest⟩ := p
    rw [htime] at h
    match rest, h with
    | port :: body :: more, h =>
      cases hbody : readBody body more with
      | error e =>
        simp only [bind, Except.bind, hbody] at h
        cases h
      | ok p =>
        simp only [bind, Except.bind, hbody] at h
        cases hframe : makeFrame port p.1 p.2 with
        | error e =>
          rw [hframe] at h
          cases h
        | ok f' =>
          rw [hframe] at h
          cases h
          exact ⟨port, body, more, _, _, rfl, hbody, hframe⟩

lemma readLine_recorded {line} (h : readLine line = .ok (some (f, micros))) :
    Recorded f ∧ ∀ n, micros = some n → n ≤ maxWord64 := by
  obtain ⟨port, body, rest, id, data, htime, -, hframe⟩ := readLine_parts h
  obtain ⟨hrest, hle⟩ := readTime_spec htime
  have hport : port ∈ fields (trim line) := by
    have hmem : port ∈ untimed (fields (trim line)) := hrest ▸ List.mem_cons_self
    unfold untimed at hmem
    split at hmem
    · exact List.mem_of_mem_drop hmem
    · exact hmem
  -- fields have no blanks in them, and a line end is a blank
  exact ⟨makeFrame_recorded (no_line_end hport) hframe, hle⟩

/-! ## Traces -/

lemma Clock.tick_le {c : Clock} (hc : c.last ≤ maxWord64 / 1000)
    (hmicros : ∀ n, micros = some n → n ≤ maxWord64) : (c.tick micros).last ≤ maxWord64 / 1000 := by
  cases micros with
  | none => exact hc
  | some n =>
    have hn := hmicros n rfl
    show (n - c.base.getD n) / 1000 ≤ maxWord64 / 1000
    exact Nat.div_le_div_right (by omega)

lemma readLines_recorded {number} {clock : Clock} {lines}
    (hclock : clock.last ≤ maxWord64 / 1000) (h : readLines number clock lines = .ok frames) :
    ∀ f ∈ frames, Recorded f := by
  induction lines generalizing number clock frames with
  | nil =>
    cases h
    exact nofun
  | cons line lines ih =>
    unfold readLines at h
    split at h
    · cases h
    · exact ih hclock h
    · next f micros hline =>
      obtain ⟨hf, hmicros⟩ := readLine_recorded hline
      have htick := Clock.tick_le hclock hmicros
      cases hrest : readLines (number + 1) (clock.tick micros) lines with
      | error e =>
        simp only [hrest] at h
        cases h
      | ok rest =>
        simp only [hrest] at h
        cases h
        exact List.forall_mem_cons.mpr ⟨{ hf with timestamp := htick }, ih htick hrest⟩

lemma readLines_head {number lines}
    (h : readLines number {} lines = .ok (f :: frames)) : f.timestamp = 0 := by
  induction lines generalizing number with
  | nil => cases h
  | cons line lines ih =>
    unfold readLines at h
    split at h
    · cases h
    · exact ih h
    · next g micros hline =>
      have htick : (Clock.tick {} micros).last = 0 := by
        cases micros with
        | none => rfl
        | some n =>
          show (n - n) / 1000 = 0
          rw [Nat.sub_self]
      cases hrest : readLines (number + 1) (Clock.tick {} micros) lines with
      | error e =>
        simp only [hrest] at h
        cases h
      | ok rest =>
        simp only [hrest] at h
        cases h
        exact htick

end CanScript.Trace
