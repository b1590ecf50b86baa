import CanScript.Program.Reader
import Mathlib.Tactic.Lemma

/-! # Skipping to a boundary

    After an error the parser skips tokens up to a boundary of statements.  It stops at the first
    one, and a group in braces is passed as a whole.  So what it passes leaves the blocks around a
    faulty statement as they are, unless the text ends inside of a group. -/

namespace CanScript

open List

/-! ## Counting braces -/

def countSymbol (sym : Symbol) (ts : List Token) : Nat :=
  ts.countP fun t => t.kind == .symbol sym

/-- No brace closes a group that is not open, and every group is closed. -/
structure Balanced (ts : List Token) : Prop where
  prefixes : ∀ n, countSymbol .rightBrace (ts.take n) ≤ countSymbol .leftBrace (ts.take n)
  totals : countSymbol .rightBrace ts = countSymbol .leftBrace ts

namespace Parse

/-! ## Depth -/

def isBrace (kind : TokenKind) : Bool :=
  kind == .symbol .leftBrace || kind == .symbol .rightBrace

def nested (kind : TokenKind) (depth : Nat) : Option Nat :=
  if kind = .symbol .leftBrace then some (depth + 1)
  else if kind = .symbol .rightBrace then
    if depth = 0 then none else some (depth - 1)
  else some depth

def climb : Nat → List Token → Option Nat
  | depth, [] => some depth
  | depth, t :: ts => (nested t.kind depth).bind fun depth => climb depth ts

variable {kind : TokenKind}

section Climb

variable {depth e k : Nat} {t : Token} {ts us : List Token}

@[simp] lemma climb_nil : climb depth [] = some depth := rfl

lemma nested_plain (h : isBrace kind = false) : nested kind depth = some depth := by
  simp only [isBrace, Bool.or_eq_false_iff, beq_eq_false_iff_ne] at h
  rw [nested, if_neg h.1, if_neg h.2]

lemma climb_opens (h : t.kind = .symbol .leftBrace) :
    climb depth (t :: ts) = climb (depth + 1) ts := by
  rw [climb, nested, if_pos h, Option.bind_some]

lemma climb_closes (h : t.kind = .symbol .rightBrace) :
    climb (depth + 1) (t :: ts) = climb depth ts := by
  rw [climb, h]
  rfl

lemma climb_unmatched (h : t.kind = .symbol .rightBrace) : climb 0 (t :: ts) = none := by
  rw [climb, h]
  rfl

lemma climb_plain (h : isBrace t.kind = false) : climb depth (t :: ts) = climb depth ts := by
  rw [climb, nested_plain h, Option.bind_some]

lemma climb_append : climb depth (ts ++ us) = (climb depth ts).bind fun d => climb d us := by
  induction ts generalizing depth with
  | nil => rfl
  | cons t ts ih =>
    show (nested t.kind depth).bind _ = ((nested t.kind depth).bind _).bind _
    rw [Option.bind_assoc]
    exact congrArg _ (funext fun d => ih)

lemma nested_raise (h : nested kind depth = some e) : nested kind (depth + k) = some (e + k) := by
  unfold nested at h ⊢
  grind

lemma climb_raise (h : climb depth ts = some e) : climb (depth + k) ts = some (e + k) := by
  induction ts generalizing depth with
  | nil => exact congrArg (fun d => some (d + k)) (Option.some.inj h)
  | cons t ts ih =>
    obtain ⟨d, hd, hts⟩ := Option.bind_eq_some_iff.mp h
    rw [climb, nested_raise hd, Option.bind_some]
    exact ih hts

end Climb

/-! ## Tokens -/

def isInner (kind : TokenKind) : Bool :=
  !isBrace kind && kind != .eof

lemma isInner_brace (h : isInner kind) : isBrace kind = false := by
  simp only [isInner, Bool.and_eq_true, Bool.not_eq_true'] at h
  exact h.1

lemma isInner_end (h : isInner kind) : kind ≠ .eof := by
  simp only [isInner, Bool.and_eq_true, bne_iff_ne] at h
  exact h.2

/-! ## Depth and counts -/

lemma countSymbol_cons (sym : Symbol) (t ts) :
    countSymbol sym (t :: ts) = countSymbol sym ts + if t.kind = .symbol sym then 1 else 0 := by
  unfold countSymbol
  rw [countP_cons]
  simp

lemma forall_take_cons {P : List Token → Prop} (hnil : P []) (t ts) :
    (∀ n, P ((t :: ts).take n)) ↔ ∀ n, P (t :: ts.take n) := by
  constructor
  · intro h n
    exact h (n + 1)
  · intro h n
    cases n with
    | zero => exact hnil
    | succ n => exact h n

/-- Tokens that lead from one depth to another, by their counts: no prefix closes more groups than
    are open, and the depths differ by the braces. -/
lemma climb_eq_some_iff {depth e ts} : climb depth ts = some e ↔
      (∀ n, countSymbol .rightBrace (ts.take n) ≤ depth + countSymbol .leftBrace (ts.take n))
        ∧ e + countSymbol .rightBrace ts = depth + countSymbol .leftBrace ts := by
  induction ts generalizing depth with
  | nil =>
    simp only [climb_nil, Option.some.injEq, take_nil]
    exact ⟨fun h => ⟨fun _ => Nat.zero_le _, h.symm⟩, fun h => h.2.symm⟩
  | cons t ts ih =>
    rw [forall_take_cons (P := fun us => countSymbol .rightBrace us
      ≤ depth + countSymbol .leftBrace us) (Nat.zero_le _)]
    simp only [countSymbol_cons]
    by_cases hopen : t.kind = .symbol .leftBrace
    · rw [climb_opens hopen, ih]
      simp only [hopen, TokenKind.symbol.injEq, reduceCtorEq, if_false, if_true, Nat.add_zero]
      simp only [Nat.add_assoc, Nat.add_comm 1]
    · by_cases hclose : t.kind = .symbol .rightBrace
      · simp only [hclose, TokenKind.symbol.injEq, reduceCtorEq, if_false, if_true, Nat.add_zero]
        cases depth with
        | zero =>
          rw [climb_unmatched hclose]
          constructor
          · intro h
            cases h
          · rintro ⟨hbelow, -⟩
            exact absurd (hbelow 0) (by simp [countSymbol])
        | succ depth =>
          rw [climb_closes hclose, ih]
          constructor
          · rintro ⟨hbelow, htotal⟩
            exact ⟨fun n => by have := hbelow n; omega, by omega⟩
          · rintro ⟨hbelow, htotal⟩
            exact ⟨fun n => by have := hbelow n; omega, by omega⟩
      · have hplain : isBrace t.kind = false := by simp [isBrace, hopen, hclose]
        rw [climb_plain hplain, ih]
        simp only [hopen, hclose, if_false, Nat.add_zero]

lemma balanced_iff_climb (ts) : Balanced ts ↔ climb 0 ts = some 0 := by
  rw [climb_eq_some_iff]
  simp only [Nat.zero_add]
  exact ⟨fun h => ⟨h.prefixes, h.totals⟩, fun h => ⟨h.1, h.2⟩⟩

/-! ## Boundaries -/

/-- A group in braces as a whole. -/
inductive IsGroup : List Token → Prop where
  | braces {left right : Token} {body : List Token} : left.kind = .symbol .leftBrace →
      Balanced body → right.kind = .symbol .rightBrace → IsGroup (left :: (body ++ [right]))

/-- Where a skip can stop after an error in something that started on a line, by the tokens that lie
    before that place and those from there on.  A place outside of groups has balanced braces before
    it.  A semicolon is passed, whatever line it is on: the boundary is behind it. -/
inductive Boundary (line : Nat) : List Token → List Token → Prop where
  | atEnd {xs ys} : (ys.headD endToken).kind = .eof → Boundary line xs ys
  | atBrace {xs t ys} : Balanced xs → t.kind = .symbol .rightBrace → Boundary line xs (t :: ys)
  | afterSemicolon {xs t ys} : Balanced xs → t.kind = .symbol .semicolon →
      Boundary line (xs ++ [t]) ys
  | afterGroup {xs group ys} : Balanced xs → IsGroup group → Boundary line (xs ++ group) ys
  | atLaterLine {xs t ys} : Balanced xs → t.kind ≠ .symbol .leftBrace →
      t.kind ≠ .symbol .semicolon → line < t.pos.line → Boundary line xs (t :: ys)

/-- A token outside of groups with no boundary before it or behind it. -/
structure Idle (line : Nat) (t : Token) : Prop where
  inner : isInner t.kind = true
  semicolon : t.kind ≠ .symbol .semicolon
  line : t.pos.line ≤ line

variable {line : Nat} {t : Token} {xs ys : List Token}

lemma balanced_nil : Balanced [] :=
  (balanced_iff_climb []).mpr rfl

lemma balanced_cons (h : isBrace t.kind = false) : Balanced (t :: xs) ↔ Balanced xs := by
  rw [balanced_iff_climb, balanced_iff_climb, climb_plain h]

lemma IsGroup.climb (h : IsGroup xs) : climb 0 xs = some 0 := by
  obtain ⟨hleft, hbody, hright⟩ := h
  have hbody := climb_raise (k := 1) ((balanced_iff_climb _).mp hbody)
  rw [climb_opens hleft, climb_append, hbody, Option.bind_some, climb_closes hright, climb_nil]

/-- Away from the end a skip stops outside of groups only. -/
lemma Boundary.level (h : Boundary line xs ys) (hys : (ys.headD endToken).kind ≠ .eof) :
    climb 0 xs = some 0 := by
  cases h with
  | atEnd hend => exact absurd hend hys
  | atBrace hxs | atLaterLine hxs => exact (balanced_iff_climb _).mp hxs
  | afterSemicolon hxs ht =>
    rw [climb_append, (balanced_iff_climb _).mp hxs, Option.bind_some,
      climb_plain (by rw [ht]; rfl), climb_nil]
  | afterGroup hxs hgroup =>
    rw [climb_append, (balanced_iff_climb _).mp hxs, Option.bind_some, hgroup.climb]

lemma boundary_nil_iff : Boundary line [] (t :: ys) ↔ t.kind = .eof ∨
    t.kind = .symbol .rightBrace ∨ t.kind ≠ .symbol .leftBrace ∧ t.kind ≠ .symbol .semicolon ∧
      line < t.pos.line := by
  constructor
  · intro h
    generalize hxs : ([] : List Token) = xs at h
    cases h with
    | atEnd hend => exact .inl hend
    | atBrace _ ht => exact .inr (.inl ht)
    | atLaterLine _ hopen hsemi hline => exact .inr (.inr ⟨hopen, hsemi, hline⟩)
    | afterSemicolon => simp at hxs
    | afterGroup _ hgroup =>
      cases hgroup
      simp at hxs
  · rintro (hend | hclose | ⟨hopen, hsemi, hline⟩)
    · exact .atEnd hend
    · exact .atBrace balanced_nil hclose
    · exact .atLaterLine balanced_nil hopen hsemi hline

/-- Such a token makes no difference to the boundaries further on. -/
lemma Idle.boundary_iff (h : Idle line t) : Boundary line (t :: xs) ys ↔ Boundary line xs ys := by
  have hplain := isInner_brace h.inner
  constructor
  · intro hbound
    generalize hzs : t :: xs = zs at hbound
    cases hbound with
    | atEnd hend => exact .atEnd hend
    | atBrace hxs ht => exact .atBrace ((balanced_cons hplain).mp (hzs ▸ hxs)) ht
    | atLaterLine hxs hopen hsemi hline =>
      exact .atLaterLine ((balanced_cons hplain).mp (hzs ▸ hxs)) hopen hsemi hline
    | afterSemicolon hps hu =>
      rcases cons_eq_append_iff.mp hzs with ⟨rfl, hlast⟩ | ⟨ps, rfl, rfl⟩
      · cases hlast
        exact absurd hu h.semicolon
      · exact .afterSemicolon ((balanced_cons hplain).mp hps) hu
    | afterGroup hps hgroup =>
      rcases cons_eq_append_iff.mp hzs with ⟨rfl, rfl⟩ | ⟨ps, rfl, rfl⟩
      · cases hgroup with
        | braces hleft => simp [isBrace, hleft] at hplain
      · exact .afterGroup ((balanced_cons hplain).mp hps) hgroup
  · intro hbound
    cases hbound with
    | atEnd hend => exact .atEnd hend
    | atBrace hxs ht => exact .atBrace ((balanced_cons hplain).mpr hxs) ht
    | atLaterLine hxs hopen hsemi hline =>
      exact .atLaterLine ((balanced_cons hplain).mpr hxs) hopen hsemi hline
    | afterSemicolon hps hu => exact .afterSemicolon ((balanced_cons hplain).mpr hps) hu
    | afterGroup hps hgroup => exact .afterGroup ((balanced_cons hplain).mpr hps) hgroup

/-! ## Inside of groups -/

/-- Where a skip comes to when groups are open: behind the brace that closes the outermost one, or
    to the end. -/
inductive Inside (depth : Nat) (last : Token) : List Token → Token × List Token → Prop where
  | closed {body right ys} : (∀ t ∈ body, t.kind ≠ .eof) → climb depth body = some 0 →
      right.kind = .symbol .rightBrace → Inside depth last (body ++ right :: ys) (right, ys)
  | cut {body ys k} : (∀ t ∈ body, t.kind ≠ .eof) → climb depth body = some k →
      (ys.headD endToken).kind = .eof → Inside depth last (body ++ ys) (body.getLastD last, ys)

lemma Inside.cons {depth e last stop} (ht : t.kind ≠ .eof) (he : nested t.kind depth = some e)
    (h : Inside e t xs stop) : Inside depth last (t :: xs) stop := by
  cases h with
  | @closed body right ys hends hbody hright =>
    refine @closed _ _ (t :: body) right ys (forall_mem_cons.mpr ⟨ht, hends⟩) ?_ hright
    rw [climb, he, Option.bind_some, hbody]
  | @cut body ys k hends hbody hys =>
    rw [← getLastD_cons (a := last)]
    refine @cut _ _ (t :: body) ys k (forall_mem_cons.mpr ⟨ht, hends⟩) ?_ hys
    rw [climb, he, Option.bind_some, hbody]

lemma boundary_inside (line depth last rest) :
    Inside depth last rest (boundary line (depth + 1) last rest) := by
  induction rest generalizing depth last with
  | nil => exact @Inside.cut _ _ [] [] depth (forall_mem_nil _) rfl rfl
  | cons t rest ih =>
    by_cases hend : t.kind = .eof
    · simp only [boundary, hend]
      exact @Inside.cut _ _ [] (t :: rest) depth (forall_mem_nil _) rfl hend
    by_cases hopen : t.kind = .symbol .leftBrace
    · simp only [boundary, hopen]
      exact .cons hend (by rw [hopen]; rfl) (ih (depth + 1) t)
    by_cases hclose : t.kind = .symbol .rightBrace
    · cases depth with
      | zero =>
        simp only [boundary, hclose]
        exact @Inside.closed _ _ [] t rest (forall_mem_nil _) rfl hclose
      | succ depth =>
        simp only [boundary, hclose]
        exact .cons hend (by rw [hclose]; rfl) (ih depth t)
    · have hplain : nested t.kind depth = some depth :=
        nested_plain (by simp [isBrace, hopen, hclose])
      have hgoes : boundary line (depth + 1) last (t :: rest)
          = boundary line (depth + 1) t rest := by
        simp [boundary, hend, hopen, hclose]
      rw [hgoes]
      exact .cons hend hplain (ih depth t)

/-! ## The first boundary -/

/-- A skip stops behind the tokens that it has passed, at the first boundary. -/
structure Stops (line : Nat) (passed tail : List Token) : Prop where
  boundary : Boundary line passed tail
  first : ∀ xs t ys, passed = xs ++ t :: ys → ¬ Boundary line xs (t :: (ys ++ tail))
  ends : ∀ t ∈ passed, t.kind ≠ .eof
  matched : ∃ k, climb 0 passed = some k

lemma Stops.here (h : Boundary line [] ys) : Stops line [] ys where
  boundary := h
  first _ _ _ hsplit := by simp at hsplit
  ends := forall_mem_nil _
  matched := ⟨0, rfl⟩

lemma Stops.cons (ht : Idle line t) (h : Stops line xs ys) : Stops line (t :: xs) ys where
  boundary := ht.boundary_iff.mpr h.boundary
  first := by
    intro us u vs hsplit
    rcases cons_eq_append_iff.mp hsplit with ⟨rfl, hrest⟩ | ⟨us, rfl, hrest⟩
    · cases hrest
      rw [boundary_nil_iff]
      rintro (hend | hclose | ⟨-, -, hline⟩)
      · exact isInner_end ht.inner hend
      · simpa [isBrace, hclose] using isInner_brace ht.inner
      · exact Nat.not_lt.mpr ht.line hline
    · rw [ht.boundary_iff]
      exact h.first us u vs hrest
  ends := forall_mem_cons.mpr ⟨isInner_end ht.inner, h.ends⟩
  matched := by
    rw [climb_plain (isInner_brace ht.inner)]
    exact h.matched

lemma Stops.semicolon (ht : t.kind = .symbol .semicolon) : Stops line [t] ys where
  boundary := @Boundary.afterSemicolon _ [] t ys balanced_nil ht
  first := by
    intro us u vs hsplit
    rcases cons_eq_append_iff.mp hsplit with ⟨rfl, hrest⟩ | ⟨us, rfl, hrest⟩
    · cases hrest
      simp [boundary_nil_iff, ht]
    · simp at hrest
  ends := forall_mem_singleton.mpr (by simp [ht])
  matched := ⟨0, climb_plain (by rw [ht]; rfl)⟩

/-- A skip that comes to a group goes on as long as the group is open. -/
lemma Stops.group {passed k} (ht : t.kind = .symbol .leftBrace)
    (hstop : Boundary line (t :: passed) ys) (hends : ∀ u ∈ passed, u.kind ≠ .eof)
    (hpassed : climb 1 passed = some k)
    (hopen : ∀ xs u zs, passed = xs ++ u :: zs → ∃ j, climb 0 xs = some j) :
    Stops line (t :: passed) ys where
  boundary := hstop
  first := by
    intro us u vs hsplit hbound
    rcases cons_eq_append_iff.mp hsplit with ⟨rfl, hrest⟩ | ⟨us, rfl, hrest⟩
    · cases hrest
      simp [boundary_nil_iff, ht] at hbound
    · obtain ⟨j, hj⟩ := hopen us u vs hrest
      have hlevel := hbound.level (hends u (by simp [hrest]))
      rw [climb_opens ht, climb_raise hj] at hlevel
      cases hlevel
  ends := forall_mem_cons.mpr ⟨by simp [ht], hends⟩
  matched := ⟨k, by rw [climb_opens ht, hpassed]⟩

lemma climb_of_append {depth k} (h : climb depth (xs ++ ys) = some k) :
    ∃ j, climb depth xs = some j := by
  rw [climb_append] at h
  obtain ⟨j, hj, -⟩ := Option.bind_eq_some_iff.mp h
  exact ⟨j, hj⟩

lemma Inside.stops {last rest stop} (ht : t.kind = .symbol .leftBrace)
    (h : Inside 0 last rest stop) : ∃ passed, rest = passed ++ stop.2 ∧
      stop.1 = passed.getLastD last ∧ Stops line (t :: passed) stop.2 := by
  cases h with
  | @closed body right ys hends hbody hright =>
    have hgroup : IsGroup (t :: (body ++ [right])) :=
      .braces ht ((balanced_iff_climb _).mpr hbody) hright
    refine ⟨body ++ [right], by simp, by simp, ?_⟩
    refine .group (k := 0) ht (@Boundary.afterGroup _ [] _ ys balanced_nil hgroup) ?_ ?_ ?_
    · exact forall_mem_append.mpr ⟨hends, forall_mem_singleton.mpr (by simp [hright])⟩
    · rw [← climb_opens ht, hgroup.climb]
    · intro xs u zs hsplit
      have hxs := congrArg dropLast hsplit
      rw [dropLast_concat, dropLast_append_cons] at hxs
      exact climb_of_append (hxs ▸ hbody)
  | @cut body ys k hends hbody hys =>
    refine ⟨body, rfl, rfl, .group ht (.atEnd hys) hends (climb_raise (k := 1) hbody) ?_⟩
    intro xs u zs hsplit
    exact climb_of_append (hsplit ▸ hbody)

/-- A skip stops at the first boundary. -/
lemma boundary_stops (line last rest) :
    ∃ passed, rest = passed ++ (boundary line 0 last rest).2 ∧
      (boundary line 0 last rest).1 = passed.getLastD last ∧
      Stops line passed (boundary line 0 last rest).2 := by
  induction rest generalizing last with
  | nil => exact ⟨[], rfl, rfl, .here (.atEnd rfl)⟩
  | cons t rest ih =>
    by_cases hend : t.kind = .eof
    · simp only [boundary, hend]
      exact ⟨[], rfl, rfl, .here (.atEnd hend)⟩
    by_cases hopen : t.kind = .symbol .leftBrace
    · simp only [boundary, hopen]
      obtain ⟨passed, hrest, hlast, hstops⟩ := (boundary_inside line 0 t rest).stops hopen
      exact ⟨t :: passed, congrArg _ hrest, by rw [getLastD_cons]; exact hlast, hstops⟩
    by_cases hclose : t.kind = .symbol .rightBrace
    · simp only [boundary, hclose]
      exact ⟨[], rfl, rfl, .here (.atBrace balanced_nil hclose)⟩
    by_cases hsemi : t.kind = .symbol .semicolon
    · simp only [boundary, hsemi]
      exact ⟨[t], rfl, rfl, .semicolon hsemi⟩
    by_cases hline : line < t.pos.line
    · have hstays : boundary line 0 last (t :: rest) = (last, t :: rest) := by
        simp [boundary, hend, hopen, hclose, hsemi, hline]
      rw [hstays]
      exact ⟨[], rfl, rfl, .here (.atLaterLine balanced_nil hopen hsemi hline)⟩
    · have hidle : Idle line t :=
        ⟨by simp [isInner, isBrace, hend, hopen, hclose], hsemi, Nat.not_lt.mp hline⟩
      obtain ⟨passed, hrest, hlast, hstops⟩ := ih t
      have hgoes : boundary line 0 last (t :: rest) = boundary line 0 t rest := by
        simp [boundary, hend, hopen, hclose, hsemi, hline]
      rw [hgoes]
      exact ⟨t :: passed, congrArg _ hrest, by rw [getLastD_cons]; exact hlast, hstops.cons hidle⟩

/-- Skipping to a boundary passes whole groups, or comes to the end inside one. -/
lemma boundary_passes (line last rest) :
    ∃ used, rest = used ++ (boundary line 0 last rest).2
      ∧ (climb 0 used = some 0 ∨ (∃ k, climb 0 used = some (k + 1))
        ∧ ((boundary line 0 last rest).2.headD endToken).kind = .eof)
      ∧ ∀ t ∈ used, t.kind ≠ .eof := by
  obtain ⟨passed, hrest, -, hstops⟩ := boundary_stops line last rest
  refine ⟨passed, hrest, ?_, hstops.ends⟩
  by_cases hend : ((boundary line 0 last rest).2.headD endToken).kind = .eof
  · obtain ⟨k, hk⟩ := hstops.matched
    cases k with
    | zero => exact .inl hk
    | succ k => exact .inr ⟨⟨k, hk⟩, hend⟩
  · exact .inl (hstops.boundary.level hend)

lemma boundary_length_lt (last rest) (hend : t.kind ≠ .eof) (hclose : t.kind ≠ .symbol .rightBrace)
    (hline : t.pos.line ≤ line) :
    (boundary line 0 last (t :: rest)).2.length < (t :: rest).length := by
  obtain ⟨passed, hrest, -, hstops⟩ := boundary_stops line last (t :: rest)
  have hlength := congrArg length hrest
  cases passed with
  | nil =>
    have hbound := hstops.boundary
    rw [nil_append] at hrest
    rw [← hrest, boundary_nil_iff] at hbound
    simp [hend, hclose, Nat.not_lt.mpr hline] at hbound
  | cons u passed =>
    rw [hlength, length_append, length_cons]
    omega

/-- Skipping stops at the first boundary. What it passes holds no brace that closes a group which it
    has not passed from its beginning, and a group that stays open only if it comes to the end. -/
theorem synchronize_stops_first (line : Nat) (s : State) : ∃ passed tail,
    s.rest = passed ++ tail ∧
    synchronize line s = (.ok (), { s with rest := tail, last := passed.getLastD s.last }) ∧
    Boundary line passed tail ∧
    (∀ xs t ys, passed = xs ++ t :: ys → ¬ Boundary line xs (t :: (ys ++ tail))) ∧
    (∀ n, countSymbol .rightBrace (passed.take n) ≤ countSymbol .leftBrace (passed.take n)) ∧
    (countSymbol .rightBrace passed ≠ countSymbol .leftBrace passed →
      (tail.headD endToken).kind = .eof) := by
  obtain ⟨passed, hrest, hlast, hstops⟩ := boundary_stops line s.last s.rest
  obtain ⟨k, hk⟩ := hstops.matched
  obtain ⟨hprefixes, -⟩ := climb_eq_some_iff.mp hk
  refine ⟨passed, _, hrest, ?_, hstops.boundary, hstops.first, ?_, ?_⟩
  · rw [← hlast]
    rfl
  · intro n
    rw [← Nat.zero_add (countSymbol .leftBrace _)]
    exact hprefixes n
  · refine fun hopen => Decidable.byContradiction fun hend => hopen ?_
    exact ((balanced_iff_climb passed).mpr (hstops.boundary.level hend)).totals

/-- A semicolon that follows the keyword of a declaration on a later line. -/
def laterSemicolon : State where
  rest := [⟨.symbol .semicolon, ";", ⟨2, 1⟩⟩, ⟨.eof, "", ⟨2, 2⟩⟩]
  last := ⟨.keyword .var, "var", ⟨1, 1⟩⟩

/-- A brace that closes no block, in the place of a name. -/
def strayBrace : State where
  rest := [⟨.symbol .rightBrace, "\x7d", ⟨1, 5⟩⟩, ⟨.symbol .semicolon, ";", ⟨1, 7⟩⟩,
    ⟨.eof, "", ⟨1, 8⟩⟩]
  last := ⟨.keyword .var, "var", ⟨1, 1⟩⟩

/-- A token on a later line is passed if it is a semicolon, and a brace that closes no block is a
    boundary. -/
theorem synchronize_passes_later_semicolon :
    laterSemicolon.last.pos.line < (laterSemicolon.rest.headD endToken).pos.line ∧
    (laterSemicolon.rest.headD endToken).kind ≠ .symbol .leftBrace ∧
    (synchronize 1 laterSemicolon).2.rest = laterSemicolon.rest.tail ∧
    (synchronize 1 strayBrace).2.rest = strayBrace.rest := by
  decide

end Parse

end CanScript
