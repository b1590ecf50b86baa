import CanScript.Log
import Mathlib.Data.List.Induction

/-! # What a log tells

    Errors are kept up to a limit and counted beyond it, texts push out older ones, a reset clears
    both, and events and the file have rules of their own.  All of it is a function of what was
    entered. -/

namespace CanScript.Log

open List

/-! ## Errors and texts -/

/-- Of errors and texts that were recorded in order, a log has the first errors and the last texts.
    -/
structure Tells (l : Log) (ds : List Diagnostic) (texts : List String) : Prop where
  errors : l.errors.toList = ds.take l.maxErrors
  dropped : l.dropped = ds.length - l.maxErrors
  output : l.output.toList = texts.drop (texts.length - l.maxOutput)

variable {l : Log} {ds : List Diagnostic} {texts : List String} (run : Option RunId)

lemma recordError_limits (l : Log) (d) : (l.recordError run d).maxErrors = l.maxErrors ∧
    (l.recordError run d).maxOutput = l.maxOutput := by
  rw [recordError, fileError, keepError]
  split <;> split <;> exact ⟨rfl, rfl⟩

lemma recordErrors_limits (l : Log) (ds) : (l.recordErrors run ds).maxErrors = l.maxErrors ∧
    (l.recordErrors run ds).maxOutput = l.maxOutput := by
  induction ds generalizing l with
  | nil => exact ⟨rfl, rfl⟩
  | cons d ds ih =>
    obtain ⟨herrors, houtput⟩ := ih (l.recordError run d)
    obtain ⟨herror, htext⟩ := recordError_limits run l d
    exact ⟨herrors.trans herror, houtput.trans htext⟩

lemma reset_tells (l : Log) : l.reset.Tells [] [] :=
  ⟨take_nil.symm, (Nat.zero_sub _).symm, drop_nil.symm⟩

namespace Tells

lemma errorCount (h : l.Tells ds texts) : l.errorCount = ds.length := by
  rw [Log.errorCount, ← Array.length_toList, h.errors, h.dropped, length_take]
  omega

lemma keepError (h : l.Tells ds texts) (d) : (l.keepError d).Tells (ds ++ [d]) texts := by
  have hsize : l.errors.size = min l.maxErrors ds.length := by
    rw [← Array.length_toList, h.errors, length_take]
  have hlength : (ds ++ [d]).length = ds.length + 1 := length_append
  have hdropped := h.dropped
  rw [Log.keepError]
  split
  · refine ⟨?_, by dsimp only; omega, h.output⟩
    dsimp only
    rw [Array.toList_push, h.errors, take_of_length_le (by omega), take_of_length_le (by omega)]
  · refine ⟨?_, by dsimp only; omega, h.output⟩
    rw [take_append_of_le_length (by dsimp only; omega)]
    exact h.errors

lemma error (h : l.Tells ds texts) (d : Diagnostic) :
    (l.recordError run d).Tells (ds ++ [d]) texts := by
  have hkept := h.keepError d
  rw [recordError, fileError]
  split <;> exact ⟨hkept.errors, hkept.dropped, hkept.output⟩

lemma moreErrors (h : l.Tells ds texts) (more) :
    (l.recordErrors run more).Tells (ds ++ more) texts := by
  induction more generalizing l ds with
  | nil =>
    rw [append_nil]
    exact h
  | cons d more ih =>
    have hall := ih (h.error run d)
    rwa [append_assoc] at hall

lemma text (h : l.Tells ds texts) (hroom : 0 < l.maxOutput) (text) :
    (l.recordOutput run text).Tells ds (texts ++ [text]) := by
  have hsize : l.output.size = texts.length - (texts.length - l.maxOutput) := by
    rw [← Array.length_toList, h.output, length_drop]
  refine ⟨h.errors, h.dropped, ?_⟩
  show (Array.push _ text).toList = (texts ++ [text]).drop (_ - l.maxOutput)
  rw [length_append, length_singleton, drop_append_of_le_length (by omega), Array.toList_push]
  congr 1
  split
  · rw [h.output]
    congr 1
    omega
  · rw [Array.toList_extract, h.output, extract_eq_take_drop, drop_drop,
      take_of_length_le (by rw [length_drop]; omega)]
    congr 1
    omega

end Tells

/-! ## Entries -/

/-- What is done with a log. -/
inductive Entry where
  | error (run : Option RunId) (d : Diagnostic)
  | errors (run : Option RunId) (ds : List Diagnostic)
  | output (run : Option RunId) (text : String)
  | state (run : Option RunId) (s : ExecutionState)
  | reset
  | persist
  deriving DecidableEq

/-- The log with an entry. -/
def enter (l : Log) : Entry → Log
  | .error run d => l.recordError run d
  | .errors run ds => l.recordErrors run ds
  | .output run text => l.recordOutput run text
  | .state run s => l.recordState run s
  | .reset => l.reset
  | .persist => l.persist

/-- The errors that an entry records. -/
def Entry.recorded : Entry → List ErrorRecord
  | .error run d => [⟨run, d⟩]
  | .errors run ds => ds.map (⟨run, ·⟩)
  | _ => []

/-- The texts that an entry records. -/
def Entry.printed : Entry → List String
  | .output _ text => [text]
  | _ => []

/-- The events that an entry announces. -/
def Entry.announced : Entry → List Event
  | .error run d => [.error run d]
  | .errors run ds => ds.map (.error run)
  | .output run text => [.output run text]
  | .state run s => [.state run s]
  | _ => []

/-- The entries since the last reset. -/
def sinceReset (es : List Entry) : List Entry :=
  (es.reverse.takeWhile (· ≠ .reset)).reverse

/-- The entries since errors go to a file. -/
def sincePersist (es : List Entry) : List Entry :=
  es.dropWhile (· ≠ .persist)

lemma recordErrors_streams (l : Log) (ds) :
    (l.recordErrors run ds).events.history.toList = l.events.history.toList ++ ds.map (.error run) ∧
    (l.recordErrors run ds).persists = l.persists ∧
    (l.recordErrors run ds).records.toList
      = l.records.toList ++ if l.persists then ds.map (⟨run, ·⟩) else [] := by
  induction ds generalizing l with
  | nil => simp [recordErrors]
  | cons d ds ih =>
    have hone : (l.recordError run d).events.history = l.events.history.push (.error run d) ∧
        (l.recordError run d).persists = l.persists ∧ (l.recordError run d).records
          = if l.persists then l.records.push ⟨run, d⟩ else l.records := by
      rw [recordError, fileError, keepError]
      split <;> split <;> simp_all [announce, Channel.send]
    obtain ⟨hevents, hpersists, hrecords⟩ := ih (l.recordError run d)
    obtain ⟨hevent, hsame, hrecord⟩ := hone
    refine ⟨hevents.trans ?_, hpersists.trans hsame, hrecords.trans ?_⟩
    · simp [hevent]
    · rw [hsame, hrecord]
      split <;> simp

lemma enter_streams (l : Log) (e) :
    (l.enter e).events.history.toList = l.events.history.toList ++ e.announced ∧
    (l.enter e).persists = (l.persists || e = .persist) ∧
    (l.enter e).records.toList = l.records.toList ++ if l.persists then e.recorded else [] := by
  cases e with
  | error run d =>
    simpa [enter, recordErrors, Entry.announced, Entry.recorded]
      using recordErrors_streams run l [d]
  | errors run ds =>
    simpa [enter, Entry.announced, Entry.recorded] using recordErrors_streams run l ds
  | output run text | state run s =>
    simp [enter, recordOutput, recordState, keepOutput, announce, Channel.send, Entry.announced,
      Entry.recorded]
  | reset | persist => simp [enter, reset, persist, Entry.announced, Entry.recorded]

lemma enter_limits (l : Log) (e) :
    (l.enter e).maxErrors = l.maxErrors ∧ (l.enter e).maxOutput = l.maxOutput := by
  cases e with
  | error run d => exact recordErrors_limits run l [d]
  | errors run ds => exact recordErrors_limits run l ds
  | output | state | reset | persist => exact ⟨rfl, rfl⟩

lemma Tells.enter (h : l.Tells ds texts) (hroom : 0 < l.maxOutput) {e : Entry} (he : e ≠ .reset) :
    (l.enter e).Tells (ds ++ e.recorded.map ErrorRecord.error) (texts ++ e.printed) := by
  cases e with
  | error run d => simpa [Log.enter, Entry.printed, Entry.recorded] using h.error run d
  | errors run ds =>
    simpa [Log.enter, Entry.printed, Entry.recorded, Function.comp_def] using h.moreErrors run ds
  | output run text => simpa [Log.enter, Entry.printed, Entry.recorded] using h.text run hroom text
  | state run s | persist =>
    simp only [Entry.recorded, Entry.printed, map_nil, append_nil]
    exact ⟨h.errors, h.dropped, h.output⟩
  | reset => exact absurd rfl he

/-- What a log has of its entries. -/
structure Follows (maxErrors maxOutput : Nat) (es : List Entry) (l : Log) : Prop where
  limits : l.maxErrors = maxErrors ∧ l.maxOutput = max maxOutput 1
  tells : l.Tells (((sinceReset es).flatMap Entry.recorded).map ErrorRecord.error)
    ((sinceReset es).flatMap Entry.printed)
  events : l.events.history.toList = es.flatMap Entry.announced
  persists : l.persists = decide (.persist ∈ es)
  records : l.records.toList = (sincePersist es).flatMap Entry.recorded

variable {maxErrors maxOutput : Nat} {es : List Entry}

lemma sinceReset_snoc {e} (h : e ≠ .reset) : sinceReset (es ++ [e]) = sinceReset es ++ [e] := by
  simp [sinceReset, h]

lemma sincePersist_snoc (es e) : sincePersist (es ++ [e])
    = sincePersist es ++ if .persist ∈ es ∨ e = .persist then [e] else [] := by
  induction es with
  | nil => by_cases h : e = .persist <;> simp [sincePersist, h]
  | cons first es ih =>
    by_cases h : first = .persist
    · simp [sincePersist, h]
    · simpa [sincePersist, h, Ne.symm h] using ih

lemma Follows.enter (h : l.Follows maxErrors maxOutput es) (e : Entry) :
    (l.enter e).Follows maxErrors maxOutput (es ++ [e]) := by
  obtain ⟨hevents, hpersists, hrecords⟩ := enter_streams l e
  obtain ⟨herrors, htexts⟩ := enter_limits l e
  refine ⟨⟨herrors.trans h.limits.1, htexts.trans h.limits.2⟩, ?_, ?_, ?_, ?_⟩
  · by_cases he : e = .reset
    · rw [he]
      simpa [Log.enter, sinceReset] using reset_tells l
    · rw [sinceReset_snoc he, flatMap_append, flatMap_append, map_append,
        flatMap_singleton, flatMap_singleton]
      exact h.tells.enter (by rw [h.limits.2]; omega) he
  · rw [hevents, h.events, flatMap_append, flatMap_singleton]
  · simp [hpersists, h.persists, eq_comm]
  · rw [hrecords, h.records, h.persists, sincePersist_snoc, flatMap_append]
    congr 1
    by_cases he : e = .persist
    · simp [he, Entry.recorded]
    · by_cases hes : Entry.persist ∈ es <;> simp [he, hes]

/-- **What a log has is what was entered.** -/
theorem log_of_entries (maxErrors maxOutput : Nat) (es : List Entry) :
    let l := es.foldl enter (ofLimits maxErrors maxOutput)
    let since := (sinceReset es).flatMap Entry.recorded
    let texts := (sinceReset es).flatMap Entry.printed
    l.errors.toList = (since.map ErrorRecord.error).take maxErrors ∧
    l.dropped = since.length - maxErrors ∧
    l.errorCount = since.length ∧
    l.output.toList = texts.drop (texts.length - max maxOutput 1) ∧
    l.events.history.toList = es.flatMap Entry.announced ∧
    l.records.toList = (sincePersist es).flatMap Entry.recorded := by
  have hfollows : (es.foldl enter (ofLimits maxErrors maxOutput)).Follows maxErrors maxOutput
      es := by
    induction es using reverseRecOn with
    | nil => exact ⟨⟨rfl, rfl⟩, reset_tells (ofLimits maxErrors maxOutput), rfl, rfl, rfl⟩
    | append_singleton es e ih =>
      rw [foldl_append]
      exact ih.enter e
  obtain ⟨⟨hmax, hroom⟩, htells, hevents, -, hrecords⟩ := hfollows
  intro l since texts
  refine ⟨?_, ?_, ?_, ?_, hevents, hrecords⟩
  · rw [← hmax]
    exact htells.errors
  · rw [← hmax]
    exact htells.dropped.trans (by rw [length_map])
  · exact htells.errorCount.trans (length_map _)
  · rw [← hroom]
    exact htells.output

end CanScript.Log
