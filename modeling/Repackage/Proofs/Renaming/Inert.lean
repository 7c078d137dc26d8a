import Repackage.Proofs.Renaming.Names
import Repackage.Proofs.Renaming.Traversal

/-!
# Nothing to rename

A pool is inert for a table if no use of a text in it changes the text. Then no step changes
anything, whatever the class is like: `Rests m quiet` says that `m`, if it does not fail, leaves an
inert pool inert and gives a `quiet` result. All rewrites do (`Rests.hereditary`), so such a class
is passed through.
-/

namespace Repackage

namespace Rewriter

/-- No use of a text in the pool changes it. -/
def Inert (s : Rewriter) : Prop :=
  ∀ i text role new, s.pool.get i = .ok (.utf8 text) →
    Role.rename s.rules role text ≠ .ok (some new)

end Rewriter

namespace Rewrite

open Rewriter

variable {α β : Type} {s s' : Rewriter} {role : Role} {i : Index}

/-- Where there is nothing to rename `m` changes nothing, and its result says so. -/
def Rests (m : Rewrite α) (quiet : α → Prop) : Prop :=
  ∀ ⦃s a s'⦄, s.Inert → m.outcome s = (.ok a, s') → quiet a ∧ s'.Inert

variable {P : α → Prop} {Q : β → Prop}

theorem Rests.pure {a : α} (h : P a) : Rests (pure a) P := by
  intro s a' s' hs hm
  cases hm
  exact ⟨h, hs⟩

theorem Rests.bind {m : Rewrite α} {f : α → Rewrite β} (hm : Rests m P)
    (hf : ∀ a, P a → Rests (f a) Q) : Rests (m >>= f) Q := by
  intro s b s' hs h
  obtain ⟨a, s₁, ha, h⟩ := outcome_bind_eq_ok h
  obtain ⟨hP, hs₁⟩ := hm hs ha
  exact hf a hP hs₁ h

/-- What only looks at the state. -/
theorem Rests.look {m : Rewrite α} (h : ∀ s, (m.outcome s).2 = s) : Rests m fun _ => True := by
  intro s a s' hs hm
  have hs' : s' = s := by rw [← h s, hm]
  exact ⟨trivial, hs' ▸ hs⟩

theorem Rests.tell (e : Event) : Rests (tell e) fun _ => True := by
  intro s a s' hs hm
  cases hm
  exact ⟨trivial, hs⟩

theorem Rests.of_referring {m : Rewrite Bool} (h : ∀ s, Referring role m i s) :
    Rests m (· = false) := by
  intro s changed s' hs hm
  cases h s with
  | settled _ hm' =>
    cases hm'.symm.trans hm
    exact ⟨rfl, hs⟩
  | failed hm' => cases hm'.symm.trans hm
  | refers _ _ _ hm' hrep =>
    cases hm'.symm.trans hm
    cases hrep with
    | kept => exact ⟨rfl, hs⟩
    | shared _ hold hr => exact absurd hr (hs _ _ _ _ hold)
    | overwritten _ hold hr => exact absurd hr (hs _ _ _ _ hold)

theorem Rests.renameUtf8 : Rests (renameUtf8 role i) (· = none) := by
  intro s new s' hs hm
  obtain ⟨r, s₁, hm', hren⟩ := renameUtf8_renaming role i s
  cases hm'.symm.trans hm
  cases hren with
  | kept => exact ⟨rfl, hs⟩
  | shared _ hold hr => exact absurd hr (hs _ _ _ _ hold)
  | overwritten _ hold hr => exact absurd hr (hs _ _ _ _ hold)

theorem Rests.renameEntry : Rests (renameEntry i) (· = false) := by
  intro s changed s' hs hm
  obtain ⟨r, s₁, hm', hrewording⟩ := renameEntry_rewording i s
  cases hm'.symm.trans hm
  cases hrewording with
  | kept => exact ⟨rfl, hs⟩
  | renamed _ hr hp =>
    exact absurd (congrArg Except.ok hr) (hs _ _ .plain _ (Pool.replace_eq_ok hp).1)

theorem Rests.renameConstantValue (i : Index) : Rests (renameConstantValue i) (· = false) := by
  refine .bind (.look fun _ => rfl) fun c _ => ?_
  cases c with
  | string text => exact .of_referring (renameStringConstant_referring i)
  | _ => exact .pure rfl

theorem Rests.hereditary :
    Hereditary AnyUse (Rests · (· = false)) fun f x => Rests (f x) (· = none) where
  never := .pure rfl
  refers := .of_referring
  value := .renameConstantValue
  text _ := .renameUtf8
  still h := by
    intro s x' s' hs hm
    obtain ⟨r, events, hr, hnone⟩ := h s
    cases hr.symm.trans hm
    exact ⟨hnone x' rfl, hs⟩
  after h hf := by
    rw [hf]
    exact .bind (.tell _) fun _ _ => h
  flag h hf := by
    rw [hf]
    refine .bind h fun changed hchanged => ?_
    cases hchanged
    exact .pure rfl
  flags hm hn hf := by
    rw [hf]
    refine .bind hm fun a ha => .bind hn fun b hb => ?_
    cases ha
    cases hb
    exact .pure rfl
  map h hf := by
    rw [hf]
    refine .bind h fun x' hx => ?_
    cases hx
    exact .pure rfl
  both hx hy hf := by
    rw [hf]
    refine .bind hx fun x' hx => .bind hy fun y' hy => ?_
    cases hx
    cases hy
    exact .pure rfl
  cons hx hxs hf := by
    rw [hf]
    refine .bind hx fun x' hx => .bind hxs fun xs' hxs => ?_
    cases hx
    cases hxs
    exact .pure rfl

/-! ## Class files -/

theorem Rests.renameNamed (i : Index) (name : String) :
    Rests (renameNamed i name) (· = .unchanged name) := by
  refine .bind (.of_referring (renameClass_referring i)) fun changed hchanged => ?_
  cases hchanged
  exact .pure rfl

theorem Rests.renameThis (resource : String) (i : Index) (name : String) :
    Rests (renameThis resource i name) (· = (.unchanged resource, .unchanged name)) := by
  refine .bind (.of_referring (renameClass_referring i)) fun changed hchanged => ?_
  cases hchanged
  exact .pure rfl

theorem Rests.renameSuper (superName : Option (Index × String)) :
    Rests (renameSuper superName) fun change => change.differs = false := by
  cases superName with
  | none => exact .pure Change.differs_unchanged
  | some named =>
    refine .bind (.renameNamed named.1 named.2) fun change hchange => ?_
    cases hchange
    exact .pure Change.differs_unchanged

theorem Rests.rewriteCounting {f : α → Rewrite (Option α)} {xs : List α}
    (h : ∀ x ∈ xs, Rests (f x) (· = none)) : Rests (rewriteCounting f xs) fun r => r.2 = 0 := by
  induction xs with
  | nil => exact .pure rfl
  | cons x xs ih =>
    refine .bind (h x List.mem_cons_self) fun x' hx => ?_
    refine .bind (ih fun y hy => h y (List.mem_cons_of_mem x hy)) fun r hr => ?_
    cases hx
    exact .pure hr

theorem Rests.renameConstant (i : Index) : Rests (renameConstant i) (· = false) := by
  refine .bind (.look fun _ => rfl) fun c _ => ?_
  cases c with
  | classInfo name => exact .of_referring (renameClass_referring i)
  | nameAndType name descriptor => exact .of_referring (renameNameAndType_referring i)
  | methodType descriptor => exact .of_referring (renameMethodType_referring i)
  | string text => exact .of_referring (renameStringConstant_referring i)
  | utf8 text => exact .renameEntry
  | _ => exact .pure rfl

theorem Rests.renameConstants (is : List Index) (count : Nat) :
    Rests (renameConstants is count) (· = count) := by
  induction is generalizing count with
  | nil => exact .pure rfl
  | cons i is ih =>
    refine .bind (.renameConstant i) fun changed hchanged => ?_
    cases hchanged
    exact ih count

theorem Rests.renamePool : Rests renamePool (· = 0) := by
  refine .bind (.look fun _ => rfl) fun _ _ => .bind (.renameConstants _ 0) fun count hcount => ?_
  exact .bind (.tell _) fun _ _ => .pure hcount

theorem Rests.rewriteClassFile (resource : String) (c : ClassFile) :
    Rests (rewriteClassFile resource c) fun r => r.2.any = false := by
  rintro s ⟨c', changes⟩ s' hs h
  have hany : ∀ texts, Covers AnyUse texts := fun _ _ _ => trivial
  obtain ⟨-, -, -, hthis, hsuper, hinterfaces, hfields, hmethods, hattributes, hpool⟩ :=
    rewriteClassFile_stages h
  obtain ⟨hthis, hs⟩ := Rests.renameThis _ _ _ hs hthis
  obtain ⟨hsuper, hs⟩ := Rests.renameSuper _ hs hsuper
  obtain ⟨hinterfaces, hs⟩ :=
    Rests.rewriteCounting (fun i _ => hereditary.rewriteClass i) hs hinterfaces
  obtain ⟨hfields, hs⟩ :=
    Rests.rewriteCounting (fun _ _ => hereditary.rewriteField (hany _)) hs hfields
  obtain ⟨hmethods, hs⟩ :=
    Rests.rewriteCounting (fun _ _ => hereditary.rewriteMethod (hany _)) hs hmethods
  obtain ⟨hattributes, hs⟩ :=
    Rests.rewriteCounting (fun a _ => hereditary.rewriteAttribute .ofClass a (hany _)) hs hattributes
  obtain ⟨hpool, hs⟩ := Rests.renamePool hs hpool
  refine ⟨Changes.any_eq_false.2 ⟨?_, hsuper, hinterfaces, hfields, hmethods, hattributes, hpool⟩,
    hs⟩
  rw [hthis, Change.differs_unchanged, Change.differs_unchanged, Bool.or_false]

end Rewrite

namespace Table

variable {t : Table} {resource text : String} {bytes : Bytes} {c : ClassFile}

/-! ## Resources -/

/-- The table leaves a text alone, whether it names a class, is a descriptor or a signature or
anything else. -/
structure Leaves (t : Table) (text : String) : Prop where
  type : t.renameType text = none
  plain : t.renameText text = none
  descriptor : ∀ new, t.renameDescriptor text ≠ .ok (some new)
  signature : ∀ kind new, t.renameSignature kind text ≠ .ok (some new)

theorem Leaves.role (h : t.Leaves text) (role : Role) (new : String) :
    role.rename t text ≠ .ok (some new) := by
  intro hr
  cases role with
  | className => cases h.type.symm.trans (Except.ok.inj hr)
  | descriptor => exact h.descriptor new hr
  | classLiteral =>
    have hr : t.renameClassLiteral text = .ok (some new) := hr
    unfold renameClassLiteral at hr
    split at hr
    · cases hr
    · exact h.descriptor new hr
  | signature kind => exact h.signature kind new hr
  | plain => cases h.plain.symm.trans (Except.ok.inj hr)

theorem Leaves.of_roles (h : ∀ role new, Role.rename t role text ≠ .ok (some new)) :
    t.Leaves text where
  type := Option.eq_none_iff_forall_ne_some.2 fun new hr => h .className new (congrArg _ hr)
  plain := Option.eq_none_iff_forall_ne_some.2 fun new hr => h .plain new (congrArg _ hr)
  descriptor := h .descriptor
  signature kind := h (.signature kind)

/-- A class that cannot be renamed is passed through, as one in which nothing changes. -/
theorem transform_eq_none (hc : ClassFile.parse bytes = .ok c)
    (h : ∀ c' changes, (t.renameClassFile resource c).1 = .ok (c', changes) →
      changes.any = false) : (t.transform resource bytes).1 = .ok none := by
  rcases hr : t.renameClassFile resource c with ⟨_ | ⟨c', changes⟩, events⟩
  · unfold transform
    simp only [hc, hr]
  · have hok : (t.renameClassFile resource c).1 = .ok (c', changes) := by rw [hr]
    exact transform_of_unchanged hc hok (h c' changes hok)

theorem transform_of_leaves (hc : ClassFile.parse bytes = .ok c)
    (h : ∀ i text, c.constants.get i = .ok (.utf8 text) → t.Leaves text) :
    (t.transform resource bytes).1 = .ok none := by
  refine transform_eq_none hc fun c' changes hr => ?_
  obtain ⟨c₁, s', ho, -⟩ := renameClassFile_eq_ok hr
  have hinert : (Rewriter.start t c.constants).Inert :=
    fun i text role new hg => (h i text hg).role role new
  exact (Rewrite.Rests.rewriteClassFile resource c hinert ho).1

theorem ordered_of_isEmpty (ht : t.isEmpty = true) (form : NameForm) : t.ordered form = [] := by
  rw [isEmpty, Bool.and_eq_true, List.isEmpty_iff] at ht
  refine List.eq_nil_iff_forall_not_mem.2 fun r hr => ?_
  obtain ⟨r, hrule, -⟩ := mem_ordered.1 hr
  rw [ht.1] at hrule
  cases hrule

theorem renameType_of_isEmpty (ht : t.isEmpty = true) (name : String) :
    t.renameType name = none := by
  have hrename (package : String) : t.rename package .binary = none := by
    rw [rename, candidate?, ordered_of_isEmpty ht]
    rfl
  have hchars (cs : List Char) : t.renameTypeChars cs = none := by
    fun_induction renameTypeChars t cs with
    | case1 => rfl
    | case2 _ _ _ _ ih => rw [ih, Option.map_none]
    | case3 cs =>
      cases Text.splitLast? '/' cs with
      | none => rfl
      | some parts =>
        refine Option.bind_eq_none_iff.2 fun parts _ => Option.bind_eq_none_iff.2 fun package h => ?_
        cases (hrename _).symm.trans h
  rw [renameType, hchars, Option.map_none]

/-- A table without rules and direct replacements leaves all texts alone. -/
theorem leaves_of_isEmpty (ht : t.isEmpty = true) (text : String) : t.Leaves text := by
  have htree (d : Descriptor) : t.renameTree d = none :=
    renameTree_eq_none fun name _ => by rw [renameName, renameType_of_isEmpty ht, Option.bind_none]
  have hpackages (form : NameForm) : t.replacePackages text form = none := by
    rw [replacePackages, ordered_of_isEmpty ht]
    rfl
  refine ⟨renameType_of_isEmpty ht text, ?_, fun new h => ?_, fun kind new h => ?_⟩
  · have hdescriptor : t.renameAsDescriptor text = none := by
      unfold renameAsDescriptor
      split
      · rw [htree, Option.map_none]
      · exact hpackages .dotted
    have htype : t.renameAsType text = none := by
      unfold renameAsType
      split
      · exact renameType_of_isEmpty ht text
      · exact hpackages .binary
    have hdirect : t.direct? text = none := by
      rw [isEmpty, Bool.and_eq_true, List.isEmpty_iff, List.isEmpty_iff] at ht
      rw [direct?, ht.2]
      rfl
    unfold renameText
    rw [hdescriptor, htype, hdirect]
    split <;> rfl
  · obtain ⟨d, -, hnew⟩ := renameDescriptor_eq_ok h
    rw [htree] at hnew
    cases hnew
  · unfold renameSignature at h
    split at h
    · cases h
    · rw [renameSignatureTree_eq_none fun name _ => renameType_of_isEmpty ht name] at h
      cases h

theorem transform_of_isEmpty (ht : t.isEmpty = true) (resource : String) (bytes : Bytes) :
    (t.transform resource bytes).1 = .ok none ∨
      ∃ tag index, ClassFile.parse bytes = .error (.unknownConstantTag tag index) ∧
        (t.transform resource bytes).1 = .error (.unknownConstantTag resource tag index) := by
  cases hc : ClassFile.parse bytes with
  | ok c => exact .inl (transform_of_leaves hc fun _ text _ => leaves_of_isEmpty ht text)
  | error e =>
    cases e with
    | unknownConstantTag tag index =>
      refine .inr ⟨tag, index, rfl, ?_⟩
      unfold transform
      simp only [hc]
    | _ =>
      refine .inl ?_
      unfold transform
      simp only [hc]

/-- Where there is nothing to rename, a class is passed through. A table that is empty passes
through whatever it is given, unless it has constants of an unknown kind. -/
theorem transform_unmoved (t : Table) (resource : String) (bytes : Bytes) :
    (∀ c, ClassFile.parse bytes = .ok c →
      (∀ i text, c.constants.get i = .ok (.utf8 text) → t.Leaves text) →
      (t.transform resource bytes).1 = .ok none) ∧
    (t.isEmpty = true → (t.transform resource bytes).1 = .ok none ∨
      ∃ tag index, ClassFile.parse bytes = .error (.unknownConstantTag tag index) ∧
        (t.transform resource bytes).1 = .error (.unknownConstantTag resource tag index)) :=
  ⟨fun _ hc h => transform_of_leaves hc h, fun ht => transform_of_isEmpty ht resource bytes⟩

theorem transform_unmoved_unusual :
    ∃ c, ClassFile.parse ClassFile.unusual = .ok c ∧
      (∀ i text, c.constants.get i = .ok (.utf8 text) → lengthening.Leaves text) ∧
      (lengthening.transform "A.class" ClassFile.unusual).1 = .ok none ∧ Table.empty.isEmpty = true ∧
      (Table.empty.transform "A.class" ClassFile.unusual).1 = .ok none := by
  have hqualified : lengthening.Qualified := ⟨by decide +kernel, rfl⟩
  have h : ((ClassFile.parse ClassFile.unusual).toOption.map fun c => c.constants.entries.all
      fun e => (c.constants.utf8 e.1).toOption.all
        fun text => !text.toList.contains '.' && !text.toList.contains '/') = some true := by
    decide +kernel
  cases hc : ClassFile.parse ClassFile.unusual with
  | error e => rw [hc] at h; cases h
  | ok c =>
    rw [hc] at h
    have hleaves : ∀ i text, c.constants.get i = .ok (.utf8 text) → lengthening.Leaves text := by
      intro i text hg
      have hi := List.all_eq_true.1 (Option.some.inj h) _ (Pool.mem_entries_of_get hg)
      rw [Pool.utf8_eq_ok.2 hg] at hi
      have hi : (!text.toList.contains '.' && !text.toList.contains '/') = true := hi
      simp only [Bool.and_eq_true, Bool.not_eq_true', List.contains_eq_mem,
        decide_eq_false_iff_not] at hi
      exact .of_roles fun role new => Role.rename_identifier hqualified hi.1 hi.2 role
    refine ⟨c, rfl, hleaves, (transform_unmoved _ _ _).1 c hc hleaves, rfl, ?_⟩
    rcases (transform_unmoved Table.empty "A.class" ClassFile.unusual).2 rfl with h | ⟨_, _, h, -⟩
    · exact h
    · cases hc.symm.trans h

end Table

end Repackage
