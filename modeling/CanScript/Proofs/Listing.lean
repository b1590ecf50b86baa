import CanScript.Proofs.Numerals
import CanScript.Trace

/-! # Printed frames are a trace

    A frame as a line of text is also a line of a trace in columns, so a listing of frames can be
    read back.  The kind of a frame is kept in the number of digits of its identifier; the time is
    not printed. -/

namespace CanScript

open List Number Text CanScript.Frame

/-! ## Parts of a text -/

namespace Text

lemma dropStart?_append (start cs) : dropStart? start (start ++ cs) = some cs := by
  induction start with
  | nil => rfl
  | cons c start ih => rw [cons_append, dropStart?, if_pos (beq_self_eq_true c), ih]

variable {cs rest word : List Char}

lemma eq_of_dropStart? {start} (h : dropStart? start cs = some rest) : cs = start ++ rest := by
  fun_induction dropStart? start cs with
  | case1 cs => exact Option.some.inj h
  | case2 => cases h
  | case3 p ps c cs heq ih => rw [← eq_of_beq heq, ih h, cons_append]
  | case4 => cases h

lemma dropEnd?_append (ending cs) : dropEnd? ending (cs ++ ending) = some cs := by
  rw [dropEnd?, reverse_append, dropStart?_append, Option.map_some, reverse_reverse]

lemma eq_of_dropEnd? {ending} (h : dropEnd? ending cs = some rest) : cs = rest ++ ending := by
  obtain ⟨back, hback, rfl⟩ := Option.map_eq_some_iff.mp h
  rw [← reverse_inj, eq_of_dropStart? hback, reverse_append, reverse_reverse]

lemma splitAt?_eq_none {c mark} (h : c ∉ cs) : splitAt? (c :: mark) cs = none := by
  induction cs with
  | nil => rfl
  | cons d cs ih =>
    have hne : (c == d) = false := beq_eq_false_iff_ne.mpr fun heq => h (heq ▸ mem_cons_self)
    have hstart : dropStart? (c :: mark) (d :: cs) = none := by
      rw [dropStart?, hne]
      rfl
    rw [splitAt?, hstart, ih fun hmem => h (mem_cons_of_mem d hmem)]
    rfl

/-! ## Fields -/

/-- A text without blanks that is not empty. -/
structure Solid (cs : List Char) : Prop where
  ne_nil : cs ≠ []
  unbroken : ∀ c ∈ cs, isBlank c = false

instance (cs : List Char) : Decidable (Solid cs) :=
  decidable_of_iff (cs ≠ [] ∧ cs.any isBlank = false)
    ⟨fun h => ⟨h.1, fun c hc => eq_false_of_ne_true (any_eq_false.mp h.2 c hc)⟩,
      fun h => ⟨h.ne_nil, any_eq_false.mpr fun c hc => ne_true_of_eq_false (h.unbroken c hc)⟩⟩

lemma fieldsFrom_unbroken (h : ∀ c ∈ cs, isBlank c = false) :
    fieldsFrom word (cs ++ rest) = fieldsFrom (cs.reverse ++ word) rest := by
  induction cs generalizing word with
  | nil => rfl
  | cons c cs ih =>
    rw [forall_mem_cons] at h
    rw [cons_append, fieldsFrom, if_neg (by simp [h.1]), ih h.2, reverse_cons,
      append_assoc, singleton_append]

lemma fields_append (h : Solid cs) : fields (cs ++ ' ' :: rest) = cs :: fields rest := by
  have hword : (cs.reverse ++ []).isEmpty = false := by simpa using h.ne_nil
  rw [fields, fieldsFrom_unbroken h.unbroken, fieldsFrom, if_pos (by decide), hword]
  simp only [append_nil, reverse_reverse]
  rfl

lemma fields_solid (h : Solid cs) : fields cs = [cs] := by
  have hword : (cs.reverse ++ []).isEmpty = false := by simpa using h.ne_nil
  rw [fields, ← append_nil cs, fieldsFrom_unbroken h.unbroken, fieldsFrom, hword]
  simp

lemma fieldsFrom_blanks (h : ∀ c ∈ cs, isBlank c) :
    fieldsFrom word cs = if word.isEmpty then [] else [word.reverse] := by
  induction cs generalizing word with
  | nil => rfl
  | cons c cs ih =>
    rw [forall_mem_cons] at h
    rw [fieldsFrom, if_pos h.1, ih h.2]
    rfl

lemma fieldsFrom_append_blanks {blanks} (h : ∀ c ∈ blanks, isBlank c) :
    fieldsFrom word (cs ++ blanks) = fieldsFrom word cs := by
  induction cs generalizing word with
  | nil => exact fieldsFrom_blanks h
  | cons c cs ih => rw [cons_append, fieldsFrom, fieldsFrom, ih, ih]

lemma fields_trimLeft (cs) : fields (trimLeft cs) = fields cs := by
  induction cs with
  | nil => rfl
  | cons c cs ih =>
    rw [trimLeft, dropWhile_cons]
    split
    · next hc =>
        rw [← trimLeft, ih, fields, fields, fieldsFrom, if_pos hc]
        rfl
    · rfl

lemma fields_trimRight (cs) : fields (trimRight cs) = fields cs := by
  have hsplit : trimRight cs ++ (cs.reverse.takeWhile isBlank).reverse = cs := by
    rw [trimRight, ← reverse_append, takeWhile_append_dropWhile, reverse_reverse]
  have hblanks : ∀ c ∈ (cs.reverse.takeWhile isBlank).reverse, isBlank c := by
    intro c hc
    exact all_eq_true.mp all_takeWhile c (mem_reverse.mp hc)
  calc fields (trimRight cs) = fields (trimRight cs ++ (cs.reverse.takeWhile isBlank).reverse) :=
        (fieldsFrom_append_blanks hblanks).symm
    _ = fields cs := by rw [hsplit]

lemma fields_trim (cs) : fields (trim cs) = fields cs := by
  rw [trim, fields_trimRight, fields_trimLeft]

lemma fields_intercalate {ws} (h : ∀ w ∈ ws, Solid w) : fields ([' '].intercalate ws) = ws := by
  induction ws with
  | nil => rfl
  | cons w ws ih =>
    rw [forall_mem_cons] at h
    cases ws with
    | nil => rw [intercalate_singleton, fields_solid h.1]
    | cons v ws =>
      rw [intercalate_cons_cons, append_assoc, singleton_append, fields_append h.1, ih h.2]

lemma trimRight_append (cs : List Char) (h : ∃ c ∈ rest, isBlank c = false) :
    trimRight (cs ++ rest) = cs ++ trimRight rest := by
  obtain ⟨c, hc, hsolid⟩ := h
  have hkept : (rest.reverse.dropWhile isBlank).isEmpty = false := by
    rw [isEmpty_eq_false_iff]
    intro hnil
    have hblanks : rest.reverse.takeWhile isBlank = rest.reverse := by
      conv => rhs; rw [← takeWhile_append_dropWhile (p := isBlank) (l := rest.reverse), hnil]
      rw [append_nil]
    have hmem : c ∈ rest.reverse.takeWhile isBlank := by
      rw [hblanks]
      exact mem_reverse.mpr hc
    rw [all_eq_true.mp all_takeWhile c hmem] at hsolid
    cases hsolid
  rw [trimRight, reverse_append, dropWhile_append, hkept]
  simp only [Bool.false_eq_true, if_false, reverse_append, reverse_reverse]
  rfl

/-! ## Lines -/

def Flat (cs : List Char) : Prop :=
  ∀ c ∈ cs, c ≠ '\n' ∧ c ≠ '\r'

/-- A line that is not empty. -/
structure Line (cs : List Char) : Prop where
  ne_nil : cs ≠ []
  flat : Flat cs

lemma Solid.flat (h : Solid cs) : Flat cs := by
  refine fun c hc => ⟨?_, ?_⟩
  · rintro rfl
    cases h.unbroken _ hc
  · rintro rfl
    cases h.unbroken _ hc

lemma Flat.append (h : Flat cs) (hrest : Flat rest) : Flat (cs ++ ' ' :: rest) :=
  forall_mem_append.mpr ⟨h, forall_mem_cons.mpr ⟨by decide, hrest⟩⟩

lemma flat_intercalate {ws} (h : ∀ w ∈ ws, Flat w) : Flat ([' '].intercalate ws) := by
  induction ws with
  | nil => exact forall_mem_nil _
  | cons w ws ih =>
    rw [forall_mem_cons] at h
    cases ws with
    | nil => rw [intercalate_singleton]; exact h.1
    | cons v ws =>
      rw [intercalate_cons_cons, append_assoc, singleton_append]
      exact h.1.append (ih h.2)

lemma linesFrom_flat {line} (h : Flat cs) :
    linesFrom line (cs ++ rest) = linesFrom (cs.reverse ++ line) rest := by
  induction cs generalizing line with
  | nil => rfl
  | cons c cs ih =>
    rw [Flat, forall_mem_cons] at h
    rw [cons_append, linesFrom.eq_3 _ _ _ h.1.1, ih h.2, reverse_cons,
      append_assoc, singleton_append]

lemma finishLine_reverse (h : Line cs) : finishLine cs.reverse = cs := by
  unfold finishLine
  split
  · next more heq =>
      have hmem : '\r' ∈ cs.reverse := heq ▸ mem_cons_self
      exact absurd rfl (h.flat _ (mem_reverse.mp hmem)).2
  · exact reverse_reverse cs

lemma lines_intercalate {ls} (h : ∀ l ∈ ls, Line l) : lines (['\n'].intercalate ls) = ls := by
  induction ls with
  | nil => rfl
  | cons l ls ih =>
    rw [forall_mem_cons] at h
    cases ls with
    | nil =>
      have hline : (l.reverse ++ []).isEmpty = false := by simpa using h.1.ne_nil
      rw [intercalate_singleton, lines, ← append_nil l, linesFrom_flat h.1.flat, linesFrom, hline]
      simp
    | cons next ls =>
      rw [intercalate_cons_cons, append_assoc, singleton_append, lines,
        linesFrom_flat h.1.flat, linesFrom, append_nil, finishLine_reverse h.1]
      exact congrArg (l :: ·) (ih h.2)

end Text

/-! ## The parts of a printed frame -/

/-- A name of a port with which a line of a trace can begin: it is one field, and is taken neither
    for a comment nor for a time. -/
structure PortName (name : String) : Prop where
  solid : Solid name.toList
  no_mark : ¬ ['#'] <+: name.toList
  no_slashes : ¬ ['/', '/'] <+: name.toList
  no_time : ¬ (['('] <+: name.toList ∧ [')'] <:+ name.toList)

instance (name : String) : Decidable (PortName name) :=
  decidable_of_iff (Solid name.toList ∧ ¬ ['#'] <+: name.toList ∧ ¬ ['/', '/'] <+: name.toList
      ∧ ¬ (['('] <+: name.toList ∧ [')'] <:+ name.toList))
    ⟨fun h => ⟨h.1, h.2.1, h.2.2.1, h.2.2.2⟩,
      fun h => ⟨h.solid, h.no_mark, h.no_slashes, h.no_time⟩⟩

/-- A frame that is printed so that it can be read back. -/
structure Listed (f : Frame) : Prop where
  id_le : f.id ≤ Frame.maxExtendedId
  payload : f.data.length ≤ Frame.maxPayload
  extended : Frame.maxStandardId < f.id → f.extended = true
  port : PortName f.port

instance (f : Frame) : Decidable (Listed f) :=
  decidable_of_iff (f.id ≤ Frame.maxExtendedId ∧ f.data.length ≤ Frame.maxPayload
      ∧ (Frame.maxStandardId < f.id → f.extended = true) ∧ PortName f.port)
    ⟨fun h => ⟨h.1, h.2.1, h.2.2.1, h.2.2.2⟩, fun h => ⟨h.id_le, h.payload, h.extended, h.port⟩⟩

lemma solid_paddedHex (width n) : Solid (paddedHex width n) := by
  have hdigits : ∀ d < 16, isBlank d.digitChar.toUpper = false := by decide
  refine ⟨paddedHex_ne_nil width n, fun c hc => ?_⟩
  obtain ⟨d, hd, rfl⟩ := mem_paddedHex hc
  exact hdigits d hd

variable {f : Frame}

namespace Frame

def idDigits (f : Frame) : List Char :=
  paddedHex (if f.extended then 8 else 3) f.id

def lengthField (f : Frame) : List Char :=
  '[' :: (Nat.toDigits 10 f.dlc ++ [']'])

lemma text_toList (f : Frame) : f.text.toList = f.port.toList ++ ' ' :: (f.idDigits
    ++ ' ' :: (f.lengthField ++ ' ' :: [' '].intercalate (f.data.map hexByte))) := by
  have hbytes : (hexBytes f.data).toList = [' '].intercalate (f.data.map hexByte) := by
    rw [hexBytes, String.toList_intercalate, map_map]
    exact congrArg _ (map_congr_left fun b _ => String.toList_ofList)
  simp only [text, toString, String.toList_append, hbytes, idText, String.toList_ofList,
    Nat.toList_repr, lengthField, idDigits]
  simp

lemma solid_idDigits (f : Frame) : Solid f.idDigits :=
  solid_paddedHex _ _

lemma solid_lengthField (f : Frame) : Solid f.lengthField := by
  refine ⟨cons_ne_nil _ _, forall_mem_cons.mpr ⟨by decide, fun c hc => ?_⟩⟩
  rcases mem_append.mp hc with hdigit | hclose
  · have hdigits : ∀ d < 10, isBlank d.digitChar = false := by decide
    obtain ⟨d, hd, rfl⟩ := mem_toDigits (by decide) hdigit
    exact hdigits d hd
  · rw [mem_singleton.mp hclose]
    decide

lemma solid_bytes (f : Frame) : ∀ w ∈ f.data.map hexByte, Solid w :=
  forall_mem_map.mpr fun b _ => solid_paddedHex 2 b.toNat

lemma fields_text (h : Solid f.port.toList) : fields f.text.toList
    = f.port.toList :: f.idDigits :: f.lengthField :: f.data.map hexByte := by
  rw [text_toList, fields_append h, fields_append f.solid_idDigits,
    fields_append f.solid_lengthField, fields_intercalate f.solid_bytes]

lemma line_text (h : Solid f.port.toList) : Line f.text.toList := by
  rw [text_toList]
  refine ⟨by simp [h.ne_nil], h.flat.append (f.solid_idDigits.flat.append
    (f.solid_lengthField.flat.append (flat_intercalate fun w hw => ?_)))⟩
  exact (f.solid_bytes w hw).flat

end Frame

/-! ## Printed frames are read back -/

namespace Trace

lemma isComment_port {name} (h : PortName name) (rest) :
    isComment (name.toList ++ ' ' :: rest) = false := by
  obtain ⟨⟨hne, -⟩, hmark, hslashes, -⟩ := h
  generalize name.toList = cs at hne hmark hslashes
  unfold isComment
  split
  · next heq => simp at heq
  · next more heq =>
      cases cs with
      | nil => exact absurd rfl hne
      | cons c cs =>
        cases heq
        exact absurd ⟨cs, rfl⟩ hmark
  · next more heq =>
      -- a lone slash is followed by the blank after the name
      rcases cs with _ | ⟨c, _ | ⟨d, cs⟩⟩
      · exact absurd rfl hne
      · simp at heq
      · cases heq
        exact absurd ⟨cs, rfl⟩ hslashes
  · rfl

lemma trim_text (h : Solid f.port.toList) :
    ∃ rest, trim f.text.toList = f.port.toList ++ ' ' :: rest := by
  have hleft : trimLeft f.text.toList = f.text.toList := by
    rw [text_toList, trimLeft]
    obtain ⟨hne, hsolid⟩ := h
    cases hport : f.port.toList with
    | nil => exact absurd hport hne
    | cons c cs =>
      have hc : isBlank c = false := hsolid c (hport ▸ mem_cons_self)
      rw [cons_append, dropWhile_cons, hc]
      rfl
  have hkept : ∃ c ∈ f.idDigits ++ ' ' :: (f.lengthField
      ++ ' ' :: [' '].intercalate (f.data.map hexByte)), isBlank c = false :=
    ⟨'[', by simp [lengthField], by decide⟩
  rw [trim, hleft, text_toList, append_cons, trimRight_append _ hkept, append_assoc]
  exact ⟨_, rfl⟩

lemma timeField?_port {name} (h : PortName name) : timeField? name.toList = none := by
  rw [Option.eq_none_iff_forall_ne_some]
  intro inner hinner
  obtain ⟨more, hstart, hend⟩ := Option.bind_eq_some_iff.mp hinner
  have hname := eq_of_dropStart? hstart
  refine h.no_time ⟨⟨more, hname.symm⟩, ['('] ++ inner, ?_⟩
  rw [hname, eq_of_dropEnd? hend, append_assoc]

lemma readLength?_lengthField (h : f.data.length ≤ maxPayload) :
    readLength? f.lengthField = some f.data.length := by
  have hle : f.data.length ≤ maxWord64 := Nat.le_trans h (by decide)
  have hstart : dropStart? ['['] f.lengthField = some (Nat.toDigits 10 f.dlc ++ [']']) :=
    dropStart?_append ['['] _
  rw [readLength?, hstart]
  show (dropEnd? [']'] (Nat.toDigits 10 f.dlc ++ [']'])).bind (readNat? 10 maxWord64) = _
  rw [dropEnd?_append, Option.bind_some, dlc, readNat?_toDigits hle]

lemma readByte_hexByte (b) : readByte (hexByte b) = .ok b := by
  have hle : b.toNat ≤ 255 := Nat.le_of_lt_succ b.toNat_lt
  rw [readByte, hexByte, readNat?_paddedHex hle]
  simp

lemma mapM_readByte (bytes : List UInt8) : (bytes.map hexByte).mapM readByte = .ok bytes := by
  induction bytes with
  | nil => rfl
  | cons b bytes ih =>
    rw [map_cons, mapM_cons, readByte_hexByte, ih]
    rfl

lemma readColumns_text (h : f.data.length ≤ maxPayload) :
    readColumns (f.lengthField :: f.data.map hexByte) = .ok f.data := by
  have htake : (f.data.map hexByte).take f.data.length = f.data.map hexByte := by
    rw [take_of_length_le]
    exact Nat.le_of_eq (length_map _)
  rw [readColumns, readLength?_lengthField h]
  dsimp only
  rw [htake, mapM_readByte]
  exact if_pos rfl

lemma no_mark_idDigits (f : Frame) : '#' ∉ f.idDigits := by
  have hdigits : ∀ d < 16, '#' ≠ d.digitChar.toUpper := by decide
  intro hmem
  obtain ⟨d, hd, heq⟩ := mem_paddedHex hmem
  exact hdigits d hd heq

lemma readBody_text (h : f.data.length ≤ maxPayload) :
    readBody f.idDigits (f.lengthField :: f.data.map hexByte) = .ok (f.idDigits, f.data) := by
  rw [readBody, splitAt?_eq_none (no_mark_idDigits f), splitAt?_eq_none (no_mark_idDigits f)]
  dsimp only
  rw [readColumns_text h]
  rfl

lemma length_paddedHex (width n) : (paddedHex width n).length = max width (hexDigits n).length := by
  rw [paddedHex, length_append, length_replicate]
  omega

lemma kind_of_idDigits (h : maxStandardId < f.id → f.extended) :
    (decide (3 < f.idDigits.length) || decide (maxStandardId < f.id)) = f.extended := by
  rw [idDigits, length_paddedHex]
  cases hkind : f.extended with
  | true =>
    rw [Bool.or_eq_true]
    exact .inl (decide_eq_true (Nat.lt_of_lt_of_le (by decide) (Nat.le_max_left 8 _)))
  | false =>
    have hid : f.id ≤ maxStandardId := by
      refine Nat.not_lt.mp fun hgreat => ?_
      rw [h hgreat] at hkind
      cases hkind
    have hdigits : (hexDigits f.id).length ≤ 3 := by
      rw [hexDigits, length_map, Nat.length_toDigits_le_iff (by decide) (by decide)]
      exact Nat.lt_of_le_of_lt hid (by decide)
    have hlength : max 3 (hexDigits f.id).length = 3 := Nat.max_eq_left hdigits
    rw [Bool.or_eq_false_iff, decide_eq_false_iff_not, decide_eq_false_iff_not]
    exact ⟨Nat.not_lt.mpr (Nat.le_of_eq hlength), Nat.not_lt.mpr hid⟩

lemma makeFrame_text (h : Listed f) :
    makeFrame f.port.toList f.idDigits f.data = .ok { f with timestamp := 0 } := by
  have hword : f.id ≤ maxWord32 := Nat.le_trans h.id_le (by decide)
  rw [makeFrame, idDigits, readNat?_paddedHex hword]
  dsimp only
  rw [if_neg (Nat.not_lt.mpr h.id_le), if_neg (Nat.not_lt.mpr h.payload), ← idDigits,
    kind_of_idDigits h.extended, String.ofList_toList]
  rfl

lemma readLine_text (h : Listed f) :
    readLine f.text.toList = .ok (some ({ f with timestamp := 0 }, none)) := by
  obtain ⟨rest, htrim⟩ := trim_text h.port.solid
  have hcomment : isComment (trim f.text.toList) = false := by
    rw [htrim, isComment_port h.port]
  have htime : readTime (fields f.text.toList) = .ok (none, fields f.text.toList) := by
    rw [fields_text h.port.solid, readTime, timeField?_port h.port]
  have hfields : readFields (fields f.text.toList) = .ok ({ f with timestamp := 0 }, none) := by
    rw [readFields, htime, fields_text h.port.solid]
    show (readBody _ _ >>= _) = _
    rw [readBody_text h.payload]
    show (makeFrame _ _ _ >>= _) = _
    rw [makeFrame_text h]
    rfl
  rw [readLine, hcomment, fields_trim, hfields]
  rfl

/-- Frames as a text with a line for each. -/
def listing (frames : List Frame) : String :=
  "\n".intercalate (frames.map Frame.text)

lemma lines_listing {frames} (h : ∀ f ∈ frames, Listed f) :
    lines (listing frames).toList = frames.map fun f => f.text.toList := by
  rw [listing, String.toList_intercalate, map_map]
  exact lines_intercalate (forall_mem_map.mpr fun f hf => line_text (h f hf).port.solid)

lemma readLines_text {frames : List Frame} (h : ∀ f ∈ frames, Listed f) (number) :
    readLines number {} (frames.map fun f => f.text.toList)
      = .ok (frames.map fun f => { f with timestamp := 0 }) := by
  induction frames generalizing number with
  | nil => rfl
  | cons f frames ih =>
    rw [forall_mem_cons] at h
    rw [map_cons, readLines, readLine_text h.1]
    show (readLines (number + 1) {} _).map _ = _
    rw [ih h.2]
    rfl

/-- **Printed frames are a trace.**  The lines of frames, one under the
    other, are read as the same frames in their order, at the time zero. -/
theorem read_listing (frames : List Frame) (h : ∀ f ∈ frames, Listed f) :
    read (listing frames) = .ok (frames.map fun f => { f with timestamp := 0 }) := by
  rw [read, lines_listing h, readLines_text h]

/-- Frames of both kinds, one of them without data, on ports with names that look like the beginning
    of something else. -/
def mixedFrames : List Frame :=
  [⟨0x7, [], true, "can0", 5⟩, ⟨0x7FF, [0xAB, 0x00], false, "/", 0⟩,
    ⟨0x1FFFFFFF, [1, 2, 3], true, "(a#b", 40⟩]

theorem read_listing_mixed : (∀ f ∈ mixedFrames, Listed f)
    ∧ read (listing mixedFrames) = .ok (mixedFrames.map fun f => { f with timestamp := 0 }) := by
  have h : ∀ f ∈ mixedFrames, Listed f := by decide +kernel
  exact ⟨h, read_listing mixedFrames h⟩

end Trace

end CanScript
