import CanScript.Config
import CanScript.Proofs.Pretty

/-! # Configurations are read back

    The text that is written for a configuration is read as the same configuration, whatever the
    names of its ports are made of and however great its limits are, as long as they are numbers of
    64 bits.  A limit that was read is such a number, so a configuration that was read from any text
    is not changed by writing and reading it. -/

namespace CanScript

open Json Number Option

/-- The limits of a run are numbers of 64 bits. -/
structure RunConfig.Fits (c : RunConfig) : Prop where
  maxCallDepth : c.maxCallDepth ≤ maxWord64
  yieldEvery : c.yieldEvery ≤ maxWord64
  maxErrorLog : c.maxErrorLog ≤ maxWord64
  maxOutputLog : c.maxOutputLog ≤ maxWord64
  frameBuffer : c.frameBuffer ≤ maxWord64

lemma RunConfig.fits_default : RunConfig.Fits {} := by
  constructor <;> decide

namespace Config

/-! ## Writing -/

lemma plain_limitsJson (c) : Plain (limitsJson c) := by
  refine .object fun p hp => ?_
  simp only [List.mem_cons, List.not_mem_nil, or_false] at hp
  rcases hp with rfl | rfl | rfl | rfl | rfl <;> exact .nat _

lemma plain_toJson (c : Config) : Plain c.toJson := by
  refine .object fun p hp => ?_
  rcases List.mem_cons.mp hp with rfl | hp
  · exact plain_limitsJson c.executor
  · split at hp
    · cases hp
    · rw [List.mem_singleton.mp hp]
      exact .array (List.forall_mem_map.mpr fun port _ => .string port)

/-! ## Reading -/

variable {n : Nat} {c : Config}

lemma readCount?_nat (h : n ≤ maxWord64) : readCount? (.nat n) = some n := by
  have hdigits : n.repr.toList.all Char.isDigit := by
    rw [Nat.toList_repr]
    exact List.all_eq_true.mpr fun _ => isDigit_of_mem_toDigits
  show (if n.repr.toList.all Char.isDigit then readNat? 10 maxWord64 n.repr.toList else none) = _
  rw [hdigits, Nat.toList_repr, readNat?_toDigits h]
  rfl

lemma readTexts?_strings (texts) : readTexts? (.array (texts.map .string)) = some texts := by
  show (texts.map Json.string).mapM _ = some texts
  induction texts with
  | nil => rfl
  | cons text texts ih =>
    rw [List.map_cons, List.mapM_cons, ih]
    rfl

lemma readLimits?_limitsJson {c} (h : c.Fits) : readLimits? (limitsJson c) = some c := by
  have hparts : parts? limitNames (limitsJson c) = some [some (.nat c.maxCallDepth),
      some (.nat c.yieldEvery), some (.nat c.maxErrorLog), some (.nat c.maxOutputLog),
      some (.nat c.frameBuffer)] := by
    rfl
  simp only [readLimits?, hparts, bind_eq_bind, bind_some, orDefault?,
    readCount?_nat h.maxCallDepth, readCount?_nat h.yieldEvery, readCount?_nat h.maxErrorLog,
    readCount?_nat h.maxOutputLog, readCount?_nat h.frameBuffer]

lemma ofJson?_toJson (h : c.executor.Fits) : ofJson? c.toJson = some c := by
  obtain ⟨executor, ports⟩ := c
  cases ports with
  | nil =>
    have hparts : parts? ["executor", "default_ports"] (toJson ⟨executor, []⟩)
        = some [some (limitsJson executor), none] := rfl
    simp only [ofJson?, hparts, bind_eq_bind, bind_some, orDefault?,
      readLimits?_limitsJson h]
  | cons port ports =>
    have hparts : parts? ["executor", "default_ports"] (toJson ⟨executor, port :: ports⟩)
        = some [some (limitsJson executor), some (.array ((port :: ports).map .string))] := rfl
    simp only [ofJson?, hparts, bind_eq_bind, bind_some, orDefault?,
      readLimits?_limitsJson h, readTexts?_strings]

lemma read?_write_of_fits (h : c.executor.Fits) : read? c.write = some c := by
  rw [read?, write, read?_pretty (plain_toJson c), bind_some, ofJson?_toJson h]

/-! ## Limits that were read -/

lemma readCount?_le {v} (h : readCount? v = some n) : n ≤ maxWord64 := by
  unfold readCount? at h
  split at h
  · split at h
    · exact of_decide_eq_true (filter_eq_some_iff.mp h).2
    · cases h
  · cases h

lemma orDefault?_le {default part} (hdefault : default ≤ maxWord64)
    (h : orDefault? readCount? default part = some n) : n ≤ maxWord64 := by
  cases part with
  | none => exact Option.some.inj h ▸ hdefault
  | some v => exact readCount?_le h

lemma readLimits?_fits {v c} (h : readLimits? v = some c) : c.Fits := by
  have hd := RunConfig.fits_default
  unfold readLimits? at h
  obtain ⟨parts, -, h⟩ := bind_eq_some_iff.mp h
  split at h
  · simp only [bind_eq_bind, bind_eq_some_iff, Option.some.injEq] at h
    obtain ⟨depth, hdepth, every, hevery, errors, herrors, output, houtput, frames, hframes,
      rfl⟩ := h
    exact ⟨orDefault?_le hd.maxCallDepth hdepth, orDefault?_le hd.yieldEvery hevery,
      orDefault?_le hd.maxErrorLog herrors, orDefault?_le hd.maxOutputLog houtput,
      orDefault?_le hd.frameBuffer hframes⟩
  · cases h

lemma read?_fits {text} (h : read? text = some c) : c.executor.Fits := by
  obtain ⟨v, -, hv⟩ := bind_eq_some_iff.mp h
  unfold ofJson? at hv
  obtain ⟨parts, -, hparts⟩ := bind_eq_some_iff.mp hv
  split at hparts
  · next executor ports =>
      simp only [bind_eq_bind, bind_eq_some_iff, Option.some.injEq] at hparts
      obtain ⟨limits, hlimits, _, _, rfl⟩ := hparts
      cases executor with
      | none => exact Option.some.inj hlimits ▸ RunConfig.fits_default
      | some v => exact readLimits?_fits hlimits
  · cases hparts

/-- **Configurations survive their file.**  A configuration with limits of 64
    bits and any list of ports is read back from the text that is written for it; and one that was
    read from any text is so again. -/
theorem read?_write : (∀ c : Config, c.executor.Fits → read? c.write = some c)
    ∧ ∀ (text : String) (c : Config), read? text = some c → read? c.write = some c :=
  ⟨fun _ h => read?_write_of_fits h, fun _ _ h => read?_write_of_fits (read?_fits h)⟩

/-- The greatest limits, and ports with names that need every kind of escape. -/
def extremeConfig : Config :=
  ⟨⟨maxWord64, 0, maxWord64, 1, maxWord64⟩, ["", "a\"b\\c/", "\n\r\t\x00\x08\x0c\x1f\x7f", "λ€😀"]⟩

/-- A text that gives one limit, and one thing that is not known. -/
def partialText : String :=
  "\x7b \"other\": [null, -1.5e3], \"executor\": [7] \x7d"

theorem read?_write_extreme :
    extremeConfig.executor.Fits ∧ read? extremeConfig.write = some extremeConfig
      ∧ read? partialText = some ⟨{ maxCallDepth := 7 }, []⟩
      ∧ read? (write ⟨{ maxCallDepth := 7 }, []⟩) = some ⟨{ maxCallDepth := 7 }, []⟩ := by
  have hfits : extremeConfig.executor.Fits := by constructor <;> decide
  have hread : read? partialText = some ⟨{ maxCallDepth := 7 }, []⟩ := by decide +kernel
  exact ⟨hfits, read?_write.1 _ hfits, hread, read?_write.2 _ _ hread⟩

end Config

end CanScript
