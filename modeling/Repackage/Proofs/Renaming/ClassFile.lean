import Repackage.Proofs.Renaming.Attributes

/-!
# The renaming of a class that succeeds

The parts of a class are walked in turn. A member's descriptor then follows its text
(`Follows`): it stays where it is, or goes to the entry that holds the new form. The pool
comes last and leaves no text that was not tried (`renamePool_settles`).
-/

namespace Repackage

namespace Rewriter

variable {failed : Prop} {U : Role → Index → Prop} {s s₁ s₂ : Rewriter} {role : Role} {i j : Index}

/-- What referred to the text at `i` refers to `j` now. -/
def Follows (role : Role) (s s' : Rewriter) (i j : Index) : Prop := j = i ∨ Named role s s' i j

theorem Follows.later (hf : Follows role s s₁ i j) (h : Evolves failed U s₁ s₂) :
    Follows role s s₂ i j := by
  obtain ⟨is, h⟩ := h
  exact hf.imp_right (·.later h)

theorem Follows.earlier (h : Evolves failed U s s₁) (hf : Follows role s₁ s₂ i j) :
    Follows role s s₂ i j := by
  obtain ⟨is, h⟩ := h
  exact hf.imp_right (·.earlier h)

theorem Evolves.settled (h : Evolves failed U s s₁) (hi : i ∈ s.settled) : i ∈ s₁.settled := by
  obtain ⟨is, h⟩ := h
  exact h.settled i hi

theorem Evolves.text {old : String} (h : Evolves failed U s s₁)
    (hold : s.pool.get i = .ok (.utf8 old)) : ∃ text, s₁.pool.get i = .ok (.utf8 text) := by
  obtain ⟨is, h⟩ := h
  exact h.text hold

end Rewriter

namespace Rewrite

open Rewriter

variable {α β : Type} {U : Role → Index → Prop} {s s' : Rewriter} {i : Index}

/-! ## Walks -/

theorem Walks.rewriteCounting {f : α → Rewrite (Option α)} {as : List α}
    (h : ∀ a ∈ as, Walks U (f a)) : Walks U (rewriteCounting f as) := by
  induction as with
  | nil => exact .pure _
  | cons a as ih =>
    refine .bind (h a List.mem_cons_self) fun a' => ?_
    exact .bind (ih fun b hb => h b (List.mem_cons_of_mem a hb)) fun as' => .pure _

theorem Walks.rewriteMember {kind : SignatureKind} {m : Member} (h : Covers U (m.texts kind)) :
    Walks U (rewriteMember kind m) := by
  refine .bind (.renameUtf8 h.head) fun descriptor => ?_
  refine .bind (.rewriteAttributes kind m.attributes h.tail) fun attributes => ?_
  exact .ite (.pure none) (.pure _)

theorem Walks.rewriteField {m : Member} (h : Covers U (m.texts .ofField)) :
    Walks U (rewriteField m) :=
  .bind (.tell _) fun _ => .rewriteMember h

theorem Walks.rewriteMethod {m : Member} (h : Covers U (m.texts .ofMethod)) :
    Walks U (rewriteMethod m) :=
  .bind (.tell _) fun _ => .rewriteMember h

theorem Walks.renameNamed (i : Index) (name : String) : Walks U (renameNamed i name) := by
  refine .bind (.renameClass i) fun changed => .ite ?_ (.pure _)
  exact .bind .get fun _ => .bind (.lift _) fun _ => .pure _

theorem Walks.renameThis (resource : String) (i : Index) (name : String) :
    Walks U (renameThis resource i name) := by
  refine .bind (.renameClass i) fun changed => .ite ?_ (.pure _)
  exact .bind .get fun _ => .bind (.lift _) fun _ => .bind (.tellAll _) fun _ => .pure _

theorem Walks.renameSuper (superName : Option (Index × String)) :
    Walks U (renameSuper superName) := by
  cases superName with
  | none => exact .pure _
  | some named => exact .bind (.renameNamed named.1 named.2) fun _ => .pure _

/-! ## Successful steps -/

theorem outcome_bind_eq_ok {m : Rewrite α} {f : α → Rewrite β} {b : β}
    (h : (m >>= f).outcome s = (.ok b, s')) :
    ∃ a s₁, m.outcome s = (.ok a, s₁) ∧ (f a).outcome s₁ = (.ok b, s') := by
  rw [outcome_bind] at h
  rcases hm : m.outcome s with ⟨e | a, s₁⟩
  · rw [hm] at h
    cases h
  · rw [hm] at h
    exact ⟨a, s₁, rfl, h⟩

theorem outcome_lift_eq_ok {r : Except ClassError α} {a : α}
    (h : outcome (liftM r) s = (.ok a, s')) : r = .ok a ∧ s = s' :=
  Prod.mk.inj h

theorem Walks.succeeds {m : Rewrite α} {a : α} (hm : Walks U m) (hs : s.pool.Indexed)
    (h : m.outcome s = (.ok a, s')) : Evolves False U s s' := by
  have := hm s hs
  rw [h] at this
  refine this.imp ?_
  rintro ⟨e, he⟩
  rw [h] at he
  cases he

theorem renameConstant_settles {changed : Bool} {old : String} (hs : s.pool.Indexed)
    (hold : s.pool.get i = .ok (.utf8 old)) (h : (renameConstant i).outcome s = (.ok changed, s')) :
    i ∈ s'.settled := by
  have := (renameEntry_evolves (U := AnyUse) (i := i) hs).2
  rw [renameConstant, outcome_bind, outcome_constant, hold] at h
  change (renameEntry i).outcome s = _ at h
  rwa [h] at this

theorem renameConstants_settles {is : List Index} {count total : Nat} (hs : s.pool.Indexed)
    (h : (renameConstants is count).outcome s = (.ok total, s')) :
    ∀ i ∈ is, ∀ old, s.pool.get i = .ok (.utf8 old) → i ∈ s'.settled := by
  induction is generalizing s count with
  | nil => exact fun i hi => nomatch hi
  | cons k is ih =>
    obtain ⟨changed, s₁, hk, htail⟩ := outcome_bind_eq_ok h
    have h₁ := (Walks.renameConstant (U := AnyUse) k).succeeds hs hk
    have h₂ := (Walks.renameConstants (U := AnyUse) is _).succeeds h₁.indexed htail
    intro i hi old hold
    rcases List.mem_cons.1 hi with rfl | hi
    · exact h₂.settled (renameConstant_settles hs hold hk)
    · obtain ⟨text, htext⟩ := h₁.text hold
      exact ih h₁.indexed htail i hi text htext

theorem renamePool_settles {total : Nat} {old : String} (hs : s.pool.Indexed)
    (h : renamePool.outcome s = (.ok total, s')) (hold : s.pool.get i = .ok (.utf8 old)) :
    i ∈ s'.settled := by
  obtain ⟨_, _, hget, h⟩ := outcome_bind_eq_ok h
  cases hget
  obtain ⟨changed, s₁, hall, h⟩ := outcome_bind_eq_ok h
  have hi := renameConstants_settles hs hall i (Pool.mem_indices_of_get hold) old hold
  obtain ⟨_, _, htell, h⟩ := outcome_bind_eq_ok h
  cases htell
  cases h
  exact hi

/-! ## Members -/

theorem renameUtf8_follows {role : Role} {new : Option Index} (hs : s.pool.Indexed)
    (h : (renameUtf8 role i).outcome s = (.ok new, s')) : Follows role s s' i (new.getD i) := by
  obtain ⟨r, s₁, hr, hren⟩ := renameUtf8_renaming role i s
  cases hr.symm.trans h
  cases new with
  | none => exact .inl rfl
  | some j => exact .inr (hren.named hs)

theorem rewriteMember_follows {kind : SignatureKind} {m : Member} {m' : Option Member}
    (hs : s.pool.Indexed) (h : (rewriteMember kind m).outcome s = (.ok m', s')) :
    Follows .descriptor s s' m.descriptor (m'.getD m).descriptor := by
  obtain ⟨descriptor, s₁, hd, h⟩ := outcome_bind_eq_ok h
  obtain ⟨attributes, s₂, ha, h⟩ := outcome_bind_eq_ok h
  have h₁ := (Walks.renameUtf8 (U := AnyUse) trivial).succeeds hs hd
  have h₂ := (Walks.rewriteAttributes (U := AnyUse) kind m.attributes
    fun _ _ => trivial).succeeds h₁.indexed ha
  have hf := (renameUtf8_follows hs hd).later h₂
  rw [outcome_ite] at h
  split at h
  · rename_i hnone
    cases h
    cases descriptor with
    | none => exact hf
    | some j => cases hnone
  · cases h
    exact hf

theorem visitMember_follows {e : Event} {kind : SignatureKind} {m : Member} {m' : Option Member}
    (hs : s.pool.Indexed)
    (h : outcome (do tell e; rewriteMember kind m) s = (.ok m', s')) :
    Follows .descriptor s s' m.descriptor (m'.getD m).descriptor := by
  obtain ⟨_, s₁, htell, h⟩ := outcome_bind_eq_ok h
  have h₁ := (Walks.tell (U := AnyUse) e).succeeds hs htell
  exact (rewriteMember_follows h₁.indexed h).earlier h₁

/-- The members of a list keep their order, and their descriptors follow. -/
def MembersFollow (s s' : Rewriter) (ms ms' : List Member) : Prop :=
  ms'.length = ms.length ∧
    ∀ m m', (m, m') ∈ ms.zip ms' → Follows .descriptor s s' m.descriptor m'.descriptor

theorem rewriteCounting_follow {f : Member → Rewrite (Option Member)} {ms : List Member}
    {result : List Member × Nat} (hwalks : ∀ m ∈ ms, Walks AnyUse (f m))
    (hfollows : ∀ m ∈ ms, ∀ s s' m', s.pool.Indexed → (f m).outcome s = (.ok m', s') →
      Follows .descriptor s s' m.descriptor (m'.getD m).descriptor)
    (hs : s.pool.Indexed) (h : (rewriteCounting f ms).outcome s = (.ok result, s')) :
    MembersFollow s s' ms result.1 := by
  induction ms generalizing s result with
  | nil =>
    cases h
    exact ⟨rfl, fun _ _ hm => nomatch hm⟩
  | cons m ms ih =>
    obtain ⟨m', s₁, hm, h⟩ := outcome_bind_eq_ok h
    obtain ⟨rest, s₂, hrest, h⟩ := outcome_bind_eq_ok h
    cases h
    have hwalks' := fun b hb => hwalks b (List.mem_cons_of_mem m hb)
    have h₁ := (hwalks m List.mem_cons_self).succeeds hs hm
    have h₂ := (Walks.rewriteCounting hwalks').succeeds h₁.indexed hrest
    obtain ⟨hlen, hall⟩ :=
      ih hwalks' (fun b hb => hfollows b (List.mem_cons_of_mem m hb)) h₁.indexed hrest
    refine ⟨congrArg (· + 1) hlen, fun a b hab => ?_⟩
    rcases List.mem_cons.1 hab with hab | hab
    · cases hab
      exact (hfollows m List.mem_cons_self s s₁ m' hs hm).later h₂
    · exact (hall a b hab).earlier h₁

/-! ## Class files -/

/-- What is known of the states around the renaming of a class, and of the class. -/
structure Rewritten (s s' : Rewriter) (c c' : ClassFile) : Prop where
  evolves : Evolves False c.UsesText s s'
  settled : ∀ i old, s.pool.get i = .ok (.utf8 old) → i ∈ s'.settled
  fields : MembersFollow s s' c.fields c'.fields
  methods : MembersFollow s s' c.methods c'.methods

theorem MembersFollow.within {failed : Prop} {s₁ s₂ : Rewriter} {ms ms' : List Member}
    (h₁ : Evolves failed U s s₁) (h : MembersFollow s₁ s₂ ms ms') (h₂ : Evolves failed U s₂ s') :
    MembersFollow s s' ms ms' :=
  ⟨h.1, fun m m' hm => ((h.2 m m' hm).earlier h₁).later h₂⟩

theorem superName_read {superClass : Option Index} {named : Option (Index × String)}
    (h : outcome (superClass.mapM fun i => return (i, ← (← get).pool.className i)) s =
      (.ok named, s')) :
    s = s' ∧ named.map Prod.fst = superClass ∧
      ∀ p, named = some p → s.pool.className p.1 = .ok p.2 := by
  cases superClass with
  | none =>
    cases h
    exact ⟨rfl, rfl, fun _ hp => nomatch hp⟩
  | some i =>
    obtain ⟨p, s₁, hp, h⟩ := outcome_bind_eq_ok h
    obtain ⟨_, _, hget, hp⟩ := outcome_bind_eq_ok hp
    cases hget
    obtain ⟨name, s₂, hlift, hp⟩ := outcome_bind_eq_ok hp
    obtain ⟨hname, rfl⟩ := outcome_lift_eq_ok hlift
    cases hp
    cases h
    refine ⟨rfl, rfl, fun p hp => ?_⟩
    cases hp
    exact hname

/-- The steps of the renaming of a class that succeeds, from state to state. -/
inductive Stages (resource : String) (c : ClassFile) (s s' : Rewriter) :
    ClassFile → Changes → Prop where
  | mk {thisName : String} {superName : Option (Index × String)}
      {this : Change String × Change String} {superChange : Change (Option String)}
      {interfaces : List Index × Nat} {fields methods : List Member × Nat}
      {attributes : List Attribute × Nat} {count : Nat} {s₃ s₄ s₅ s₆ s₇ s₈ : Rewriter} :
      s.pool.className c.thisClass = .ok thisName →
      superName.map Prod.fst = c.superClass →
      (∀ p, superName = some p → s.pool.className p.1 = .ok p.2) →
      (renameThis resource c.thisClass thisName).outcome s = (.ok this, s₃) →
      (renameSuper superName).outcome s₃ = (.ok superChange, s₄) →
      (rewriteCounting rewriteClass c.interfaces).outcome s₄ = (.ok interfaces, s₅) →
      (rewriteCounting rewriteField c.fields).outcome s₅ = (.ok fields, s₆) →
      (rewriteCounting rewriteMethod c.methods).outcome s₆ = (.ok methods, s₇) →
      (rewriteCounting (rewriteAttribute .ofClass) c.attributes).outcome s₇ =
        (.ok attributes, s₈) →
      renamePool.outcome s₈ = (.ok count, s') →
      Stages resource c s s'
        { c with
          interfaces := interfaces.1, fields := fields.1, methods := methods.1
          attributes := attributes.1 }
        ⟨this.1, this.2, superChange, interfaces.2, fields.2, methods.2, attributes.2, count⟩

theorem rewriteClassFile_stages {resource : String} {c c' : ClassFile} {changes : Changes}
    (h : (rewriteClassFile resource c).outcome s = (.ok (c', changes), s')) :
    Stages resource c s s' c' changes := by
  obtain ⟨superName, s₁, hread, h⟩ := outcome_bind_eq_ok h
  obtain ⟨rfl, hsuperClass, hsuperName⟩ := superName_read hread
  obtain ⟨_, _, hget, h⟩ := outcome_bind_eq_ok h
  cases hget
  obtain ⟨thisName, s₂, hlift, h⟩ := outcome_bind_eq_ok h
  obtain ⟨hname, rfl⟩ := outcome_lift_eq_ok hlift
  obtain ⟨this, s₃, hthis, h⟩ := outcome_bind_eq_ok h
  obtain ⟨superChange, s₄, hsuper, h⟩ := outcome_bind_eq_ok h
  obtain ⟨interfaces, s₅, hinterfaces, h⟩ := outcome_bind_eq_ok h
  obtain ⟨fields, s₆, hfields, h⟩ := outcome_bind_eq_ok h
  obtain ⟨methods, s₇, hmethods, h⟩ := outcome_bind_eq_ok h
  obtain ⟨attributes, s₈, hattributes, h⟩ := outcome_bind_eq_ok h
  obtain ⟨count, s₉, hpool, h⟩ := outcome_bind_eq_ok h
  cases h
  exact ⟨hname, hsuperClass, hsuperName, hthis, hsuper, hinterfaces, hfields, hmethods, hattributes,
    hpool⟩

theorem rewriteClassFile_rewritten {resource : String} {c c' : ClassFile} {changes : Changes}
    (hs : s.pool.Indexed)
    (h : (rewriteClassFile resource c).outcome s = (.ok (c', changes), s')) :
    Rewritten s s' c c' := by
  have hall : Covers c.UsesText c.texts := fun _ hm => hm
  obtain ⟨-, -, -, hthis, hsuper, hinterfaces, hfields, hmethods, hattributes, hpool⟩ :=
    rewriteClassFile_stages h
  -- the class, its superclass and its interfaces
  have e₃ := (Walks.renameThis _ _ _).succeeds (U := c.UsesText) hs hthis
  have e₄ := e₃.trans ((Walks.renameSuper _).succeeds e₃.indexed hsuper)
  have e₅ := e₄.trans ((Walks.rewriteCounting fun i _ => .rewriteClass i).succeeds e₄.indexed
    hinterfaces)
  -- its members
  have w₆ := (Walks.rewriteCounting fun m hm => .rewriteField
    (hall.left.left.member hm)).succeeds e₅.indexed hfields
  have w₇ := (Walks.rewriteCounting fun m hm => .rewriteMethod
    (hall.left.right.member hm)).succeeds w₆.indexed hmethods
  have f₆ := rewriteCounting_follow (fun m _ => .rewriteField fun _ _ => trivial)
    (fun m _ s s' m' hs h => visitMember_follows hs h) e₅.indexed hfields
  have f₇ := rewriteCounting_follow (fun m _ => .rewriteMethod fun _ _ => trivial)
    (fun m _ s s' m' hs h => visitMember_follows hs h) w₆.indexed hmethods
  -- its attributes and what is left
  have w₈ := (Walks.rewriteCounting fun a ha => .rewriteAttribute .ofClass a
    (hall.right.attribute ha)).succeeds w₇.indexed hattributes
  have w₉ := Walks.renamePool.succeeds (U := c.UsesText) w₈.indexed hpool
  have e₈ := ((e₅.trans w₆).trans w₇).trans w₈
  exact {
    evolves := e₈.trans w₉
    settled := fun i old hold => by
      obtain ⟨text, htext⟩ := e₈.text hold
      exact renamePool_settles e₈.indexed hpool htext
    fields := f₆.within e₅ ((w₇.trans w₈).trans w₉)
    methods := f₇.within (e₅.trans w₆) (w₈.trans w₉) }

end Rewrite

end Repackage
