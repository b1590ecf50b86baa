import CanScript.Proofs.Examination

/-! # Names and what they lead to

    A task opens scopes on top of others and closes them again, binds names in them and assigns to
    names.  However it does so, a scope has an older one as its parent, so the way from a scope to
    the binding of a name ends, and it leads through open scopes only. -/

namespace CanScript

/-- The scope that a place belongs to. -/
def Place.scope : Place → Option ScopeId
  | inner id => some id
  | global => none

namespace Scopes

/-- A name leads from a scope to the first on the way up that binds it, all the scopes on the way
    being open. -/
inductive Leads (s : Scopes) (name : String) : Option ScopeId → Place → Prop where
  | global : Leads s name none .global
  | here {id scope} : s[id]? = some scope →
      scope.bindings.contains name = true → Leads s name (some id) (.inner id)
  | up {id scope place} : s[id]? = some scope →
      scope.bindings.contains name = false → Leads s name scope.parent place →
      Leads s name (some id) place

/-- The scopes of a task and the global variables, after any number of steps that each have to do
    with open scopes. -/
inductive Reached : Scopes → Bindings → Prop where
  | start : Reached .empty []
  | opened {s g parent} : Reached s g → s.Own parent → Reached (s.openScope parent) g
  | closed {s g} {id : ScopeId} : Reached s g → id < s.size → Reached (s.close id) g
  | defined {s g scope name v} : Reached s g → s.Own scope →
      Reached (s.define scope name v g).1 (s.define scope name v g).2
  | assigned {s g scope name v after} : Reached s g → s.Own scope →
      s.assign? scope name v g = some after → Reached after.1 after.2

section Resolve

variable {s s' : Scopes} {g : Bindings} {name name' : String} {v : Value}
  {scope scope' : Option ScopeId} {place : Place}

lemma Reached.nested (h : Reached s g) : s.Nested := by
  induction h with
  | start => exact nested_empty
  | opened _ hparent ih => exact ih.openScope hparent
  | closed _ _ ih => exact ih.close _
  | @defined s g scope name v _ _ ih =>
    cases scope with
    | none => exact ih
    | some id => exact ih.bind id name v
  | assigned _ _ hassign ih => exact (ih.assign? hassign).2

lemma resolveFrom?_leads (h : s.Nested) {budget}
    (hscope : ∀ id : Nat, scope = some id → id < budget ∧ id < s.size) :
    ∃ place, s.resolveFrom? name budget scope = some place ∧ s.Leads name scope place := by
  induction budget generalizing scope with
  | zero =>
    cases scope with
    | none => exact ⟨.global, rfl, .global⟩
    | some id => exact absurd (hscope id rfl).1 (Nat.not_lt_zero id)
  | succ budget ih =>
    cases scope with
    | none => exact ⟨.global, rfl, .global⟩
    | some id =>
      obtain ⟨hbudget, hopen⟩ := hscope id rfl
      have hfound := Array.getElem?_eq_getElem hopen
      rw [resolveFrom?, hfound]
      dsimp only
      cases hbound : s[id].bindings.contains name with
      | true => exact ⟨.inner id, rfl, .here hfound hbound⟩
      | false =>
        obtain ⟨place, hplace, hleads⟩ := ih fun parent hparent => by
          have hlt := h id s[id] parent hfound hparent
          exact ⟨by omega, by omega⟩
        exact ⟨place, hplace, .up hfound hbound hleads⟩

lemma resolve?_leads (h : s.Nested) (hscope : s.Own scope) (name) :
    ∃ place, s.resolve? scope name = some place ∧ s.Leads name scope place :=
  resolveFrom?_leads h fun id hid => ⟨hscope id hid, hscope id hid⟩

lemma Leads.unique {place'} (h : s.Leads name scope place)
    (h' : s.Leads name scope place') : place = place' := by
  induction h with
  | global => cases h'; rfl
  | here hfound hbound =>
    cases h' with
    | here => rfl
    | up hfound' hbound' =>
      rw [hfound] at hfound'
      cases hfound'
      rw [hbound] at hbound'
      cases hbound'
  | up hfound hbound _ ih =>
    cases h' with
    | here hfound' hbound' =>
      rw [hfound] at hfound'
      cases hfound'
      rw [hbound] at hbound'
      cases hbound'
    | up hfound' _ hleads' =>
      rw [hfound] at hfound'
      cases hfound'
      exact ih hleads'

lemma resolve?_eq_some_iff (h : s.Nested) (hscope : s.Own scope) :
    s.resolve? scope name = some place ↔ s.Leads name scope place := by
  obtain ⟨place', hplace', hleads'⟩ := resolve?_leads h hscope name
  rw [hplace']
  constructor
  · rintro ⟨⟩
    exact hleads'
  · intro hleads
    rw [hleads.unique hleads']

lemma lookup?_of_leads (h : s.Nested) (hscope : s.Own scope) (hleads : s.Leads name scope place)
    (g) : s.lookup? scope name g = s.boundIn g name place.scope := by
  rw [lookup?, (resolve?_eq_some_iff h hscope).mpr hleads]
  cases place <;> rfl

lemma Leads.congr (hleads : s.Leads name scope place) (h : s.Nested) {bound}
    (hscope : ∀ id, scope = some id → id < bound) (hsame : ∀ id, id < bound → s'[id]? = s[id]?) :
    s'.Leads name scope place ∧ ∀ id, place.scope = some id → id < bound := by
  induction hleads with
  | global => exact ⟨.global, nofun⟩
  | here hfound hbound =>
    refine ⟨.here ((hsame _ (hscope _ rfl)).trans hfound) hbound, fun id hid => hscope id hid⟩
  | @up id found place hfound hbound _ ih =>
    have hlt := hscope id rfl
    obtain ⟨hleads', hplace⟩ := ih fun parent hparent =>
      (h id found parent hfound hparent).trans hlt
    exact ⟨.up ((hsame id hlt).trans hfound) hbound hleads', hplace⟩

lemma lookup?_congr (h : s.Nested) (h' : s'.Nested) {bound} (hbound : bound ≤ s.size)
    (hscope : ∀ id, scope = some id → id < bound) (hsame : ∀ id, id < bound → s'[id]? = s[id]?)
    (name g) : s'.lookup? scope name g = s.lookup? scope name g := by
  have hopen : s.Own scope := fun id hid => (hscope id hid).trans_le hbound
  have hopen' : s'.Own scope := by
    intro id hid
    have hlt := hopen id hid
    have hfound := hsame id (hscope id hid)
    rw [Array.getElem?_eq_getElem hlt] at hfound
    exact (Array.getElem?_eq_some_iff.mp hfound).1
  obtain ⟨place, -, hleads⟩ := resolve?_leads h hopen name
  obtain ⟨hleads', hplace⟩ := hleads.congr h hscope hsame
  rw [lookup?_of_leads h hopen hleads, lookup?_of_leads h' hopen' hleads']
  cases place with
  | global => rfl
  | inner id =>
    show (s'[id]?.bind _) = s[id]?.bind _
    rw [hsame id (hplace id rfl)]

lemma Leads.bound {id} (h : s.Leads name scope (.inner id)) (g) :
    (s.boundIn g name (some id)).isSome := by
  generalize hplace : Place.inner id = place at h
  induction h with
  | global => cases hplace
  | here hfound hbound =>
    cases hplace
    rw [boundIn, hfound]
    exact hbound
  | up _ _ _ ih => exact ih hplace

lemma assign?_of_leads (h : s.Nested) (hscope : s.Own scope) (hleads : s.Leads name scope place)
    (v g) : s.assign? scope name v g
      = if (s.boundIn g name place.scope).isSome then some (s.define place.scope name v g)
        else none := by
  rw [assign?, (resolve?_eq_some_iff h hscope).mpr hleads]
  cases place with
  | global => rfl
  | inner id =>
    exact (if_pos (hleads.bound g)).symm

/-- Where a name is bound already, binding it anew leads no name elsewhere. -/
lemma Leads.define {at'} (hbound : (s.boundIn g name' at').isSome)
    (hleads : s.Leads name scope place) : (s.define at' name' v g).1.Leads name scope place := by
  cases at' with
  | none => exact hleads
  | some id' =>
    have hcontains : ∀ {id : Nat} {found : Scope}, s[id]? = some found → ∃ found',
        (s.bind id' name' v)[id]? = some found' ∧ found'.parent = found.parent ∧
          found'.bindings.contains name = found.bindings.contains name := by
      intro id found hfound
      rw [bind, Array.getElem?_modify, hfound]
      by_cases hid : id' = id
      · rw [if_pos hid]
        refine ⟨_, rfl, rfl, ?_⟩
        rw [hid, boundIn, hfound] at hbound
        by_cases hname : name = name'
        · rw [Bindings.contains, hname, Bindings.get?_insert_self]
          exact hbound.symm
        · rw [Bindings.contains, Bindings.get?_insert_ne hname]
          rfl
      · rw [if_neg hid]
        exact ⟨found, rfl, rfl, rfl⟩
    induction hleads with
    | global => exact .global
    | here hfound hhere =>
      obtain ⟨found', hfound', -, hsame⟩ := hcontains hfound
      exact .here hfound' (hsame.trans hhere)
    | up hfound hhere _ ih =>
      obtain ⟨found', hfound', hparent, hsame⟩ := hcontains hfound
      exact .up hfound' (hsame.trans hhere) (hparent ▸ ih)

/-- **An assignment**, seen from every open scope: the name has the new value where it leads to the
    same binding, and nothing else is changed. -/
lemma assign?_account (h : s.Nested) (hscope : s.Own scope) (hscope' : s.Own scope')
    {after} (hassign : s.assign? scope name v g = some after) : after.1.lookup? scope' name' after.2
      = if name' = name ∧ s.resolve? scope' name = s.resolve? scope name then some v
        else s.lookup? scope' name' g := by
  have hafter := (h.assign? hassign).2
  obtain ⟨place, hplace, hleads⟩ := resolve?_leads h hscope name
  obtain ⟨place', hplace', hleads'⟩ := resolve?_leads h hscope' name'
  rw [assign?_of_leads h hscope hleads] at hassign
  split at hassign
  · next hbound =>
      cases hassign
      rw [lookup?_of_leads hafter (define_own hscope') (hleads'.define hbound),
        lookup?_of_leads h hscope' hleads']
      split
      · next hsame =>
          obtain ⟨rfl, hsame⟩ := hsame
          rw [hplace, hplace'] at hsame
          cases hsame
          refine define_boundIn_self ?_
          cases place with
          | global => exact nofun
          | inner id =>
            rintro _ ⟨⟩
            have hfound := hleads.bound g
            rw [boundIn] at hfound
            rcases lt_or_ge id s.size with hlt | hge
            · exact hlt
            · rw [Array.getElem?_eq_none hge] at hfound
              cases hfound
      · next hother =>
          refine define_boundIn_ne fun hname => ?_
          subst hname
          intro hsame
          refine hother ⟨rfl, ?_⟩
          rw [hplace, hplace']
          cases place <;> cases place' <;> cases hsame <;> rfl
  · cases hassign

end Resolve

/-- **Scopes.**  However a task opens and closes scopes, binds names and assigns
    to them, each scope has an older one as its parent, and so from every open scope the way of a
    name ends without leaving the open scopes.  An assignment is made just if the name is defined;
    it is seen wherever the name leads to the same binding and changes nothing else.  To open a
    scope, to bind names in it or to close it changes nothing for older scopes and for the global
    level. -/
theorem resolution_of_reached (s : Scopes) (g : Bindings) (h : Reached s g) :
    s.Nested ∧
    (∀ scope name, s.Own scope →
      ∃ place, s.resolve? scope name = some place ∧ s.Leads name scope place) ∧
    (∀ scope name v, s.Own scope →
      ((s.assign? scope name v g).isSome ↔ (s.lookup? scope name g).isSome) ∧
      ∀ scope' name', s.Own scope' →
        let after := (s.assign? scope name v g).getD (s, g)
        after.1.lookup? scope' name' after.2
          = if (s.assign? scope name v g).isSome ∧ name' = name ∧
              s.resolve? scope' name = s.resolve? scope name then some v
            else s.lookup? scope' name' g) ∧
    (∀ parent scope name, s.Own parent → s.Own scope →
      (s.openScope parent).lookup? scope name g = s.lookup? scope name g) ∧
    ∀ id scope name, id < s.size → (∀ k, scope = some k → k < id) →
      (s.close id).lookup? scope name g = s.lookup? scope name g ∧
      ∀ name' v, (s.define (some id) name' v g).1.lookup? scope name
        (s.define (some id) name' v g).2 = s.lookup? scope name g := by
  have hnested := h.nested
  refine ⟨hnested, fun scope name hscope => resolve?_leads hnested hscope name, ?_, ?_, ?_⟩
  · intro scope name v hscope
    obtain ⟨place, -, hleads⟩ := resolve?_leads hnested hscope name
    refine ⟨?_, fun scope' name' hscope' => ?_⟩
    · rw [assign?_of_leads hnested hscope hleads, lookup?_of_leads hnested hscope hleads]
      split
      · next hbound => exact iff_of_true rfl hbound
      · next hunbound => exact iff_of_false Bool.false_ne_true hunbound
    · cases hassign : s.assign? scope name v g with
      | none => simp
      | some after => simpa using assign?_account hnested hscope hscope' hassign
  · intro parent scope name hparent hscope
    refine lookup?_congr hnested (hnested.openScope hparent) (Nat.le_refl _) hscope ?_ name g
    intro id hid
    rw [openScope, Array.getElem?_push, if_neg (Nat.ne_of_lt hid)]
  · intro id scope name hid hscope
    refine ⟨?_, fun name' v => ?_⟩
    · refine lookup?_congr hnested (hnested.close id) (Nat.le_of_lt hid) hscope ?_ name g
      intro k hk
      rw [close, Array.take_eq_extract, Array.getElem?_extract, Nat.zero_add, if_pos (by omega)]
    · refine lookup?_congr hnested (hnested.bind id name' v) (Nat.le_of_lt hid) hscope ?_ name g
      intro k hk
      rw [bind, Array.getElem?_modify, if_neg (Nat.ne_of_gt hk)]

/-- A block in a handler, with a call on top: the way from the call passes by the scopes of the
    handler. -/
theorem resolution_of_reached_call :
    let block : Scopes := #[⟨[("a", .int 1)], none⟩, ⟨[], some 0⟩]
    Reached (block.openScope none) [] ∧
      (block.openScope none).resolve? (some 2) "a" = some .global ∧
      (block.openScope none).Leads "a" (some 2) .global ∧
      (block.openScope none).lookup? (some 1) "a" [] = block.lookup? (some 1) "a" [] := by
  have hown : ∀ {s : Scopes} {k : Nat}, k < s.size → s.Own (some k) := by
    rintro s k hk _ ⟨⟩
    exact hk
  have hblock : Reached #[⟨[("a", .int 1)], none⟩, ⟨[], some 0⟩] [] :=
    @Reached.opened _ _ (some 0) (@Reached.defined _ _ (some 0) "a" (.int 1)
      (@Reached.opened _ _ none .start nofun) (hown (by decide))) (hown (by decide))
  have hcall := @Reached.opened _ _ none hblock nofun
  obtain ⟨place, hplace, hleads⟩ := (resolution_of_reached _ _ hcall).2.1 (some 2) "a"
    (hown (by decide))
  have hglobal : place = .global := Option.some.inj hplace.symm
  rw [hglobal] at hplace hleads
  exact ⟨hcall, hplace, hleads, (resolution_of_reached _ _ hblock).2.2.2.1 none (some 1) "a" nofun
    (hown (by decide))⟩

end Scopes

end CanScript
