import Repackage.Proofs.Encoding.Comparison
import Repackage.Proofs.Renaming.Consistency
import Repackage.Proofs.Renaming.Tracking

/-!
# What changes in a class

Renaming keeps the skeleton of a class (`ClassFile.skeleton`), so all that changes are texts and
the indices of texts, and a class grows by as many bytes as its texts do. Every change is told:
the record of changes is empty exactly if nothing in the class or its pool has changed
(`Rewrite.rewriteClassFile_told`).
-/

namespace Repackage

/-! ## Records -/

namespace Change

variable {α : Type} [DecidableEq α] {x y : α}

theorem differs_unchanged : (unchanged x).differs = false := by simp [differs, unchanged]

theorem differs_of_ne (h : x ≠ y) : (Change.mk x y).differs = true := decide_eq_true h

end Change

theorem Changes.any_eq_false {c : Changes} :
    c.any = false ↔ (c.resource.differs || c.className.differs) = false ∧
      c.superName.differs = false ∧ c.interfaces = 0 ∧ c.fields = 0 ∧ c.methods = 0 ∧
      c.attributes = 0 ∧ c.constants = 0 := by
  simp only [Changes.any, Changes.moved, Changes.contentChanged, Bool.or_eq_false_iff,
    decide_eq_false_iff_not, Nat.not_lt, Nat.le_zero, gt_iff_lt, and_assoc]

theorem ClassFile.parts_eq_iff {c : ClassFile} {interfaces : List Index}
    {fields methods : List Member} {attributes : List Attribute} :
    { c with interfaces, fields, methods, attributes } = c ↔
      interfaces = c.interfaces ∧ fields = c.fields ∧ methods = c.methods ∧
        attributes = c.attributes := by
  obtain ⟨⟩ := c
  simp

/-- What is known of a class that was read. -/
structure ClassFile.ReadFrom (bytes : Bytes) (c : ClassFile) : Prop where
  indexed : c.constants.Indexed
  count : c.constants.count ≤ 0x10000
  written : c.toBytes = .ok bytes

theorem ClassFile.readFrom_of_parse {bytes : Bytes} {c : ClassFile}
    (h : ClassFile.parse bytes = .ok c) : c.ReadFrom bytes := by
  obtain ⟨left, rest, hread⟩ := read_constants (parse_eq_ok h)
  exact ⟨indexed_of_parse h, Nat.le_of_lt (Pool.built_of_read hread).2,
    toBytes_of_read (parse_eq_ok h)⟩

/-! ## Pools -/

namespace Pool

variable {p p' : Pool} {i : Index} {c : Constant}

/-- The constants, from their indices. -/
theorem toList_eq_filterMap (hc : p.count ≤ 0x10000) :
    p.toList = (p.entries.map Prod.fst).filterMap fun i => (p.get i).toOption := by
  rw [toList_eq, List.filterMap_map, ← List.filterMap_eq_map]
  refine List.filterMap_congr fun e he => ?_
  simp [get_of_mem_entries hc he, Except.toOption]

theorem skeleton_eq (hshape : p'.shape = p.shape) (hc : p.count ≤ 0x10000)
    (h : ∀ i c, p.get i = .ok c → ∃ d, p'.get i = .ok d ∧ d.skeleton = c.skeleton) :
    p'.skeleton = p.skeleton := by
  have hc' : p'.count ≤ 0x10000 := count_eq_of_shape hshape ▸ hc
  refine congrArg (Pool.mk · ∅) (OffsetArray.eq_of_toList ?_)
  show p'.skeleton.toList = p.skeleton.toList
  rw [toList_skeleton, toList_skeleton, toList_eq_filterMap hc, toList_eq_filterMap hc',
    indices_eq_of_shape hshape, List.map_filterMap, List.map_filterMap]
  refine List.filterMap_congr fun i hi => ?_
  obtain ⟨e, he, rfl⟩ := List.mem_map.1 hi
  have hget := get_of_mem_entries hc he
  obtain ⟨d, hd, hskeleton⟩ := h _ _ hget
  simp [hget, hd, hskeleton, Except.toOption]

end Pool

namespace Rewriter

variable {failed : Prop} {U : Role → Index → Prop} {s s' s₁ : Rewriter} {i : Index}
  {c d : Constant} {name : String}

theorem Renames.skeleton (h : Renames U s s' i c d) : d.skeleton = c.skeleton := by
  cases h with
  | text => rfl
  | reference => cases c <;> rfl

theorem Evolves.get_skeleton (h : Evolves failed U s s') (hc : s.pool.get i = .ok c) :
    ∃ d, s'.pool.get i = .ok d ∧ d.skeleton = c.skeleton := by
  obtain ⟨is, h⟩ := h
  by_cases hi : i ∈ is
  · obtain ⟨c', d, hc', hd, hr⟩ := h.renamed i hi
    cases hc.symm.trans hc'
    exact ⟨d, hd, hr.skeleton⟩
  · exact ⟨c, (h.kept i hi).trans hc, rfl⟩

theorem Evolves.skeleton (h : Evolves failed U s s') (hc : s.pool.count ≤ 0x10000) :
    s'.pool.skeleton = s.pool.skeleton := by
  have hget := fun i c => h.get_skeleton (i := i) (c := c)
  obtain ⟨is, h⟩ := h
  exact Pool.skeleton_eq h.shape hc hget

/-! ## Names of classes -/

/-- The name that the class `i` has as long as it is not renamed. -/
def KnownAs (s : Rewriter) (i : Index) (name : String) : Prop :=
  ∀ j old, i ∉ s.settled → j ∉ s.settled → s.pool.get i = .ok (.classInfo j) →
    s.pool.get j = .ok (.utf8 old) → old = name

theorem KnownAs.of_className (h : s.pool.className i = .ok name) : KnownAs s i name := by
  intro j old _ _ hi hj
  obtain ⟨j', hi', hj'⟩ := Pool.className_eq_ok.1 h
  cases hi.symm.trans hi'
  cases hj.symm.trans hj'
  rfl

theorem KnownAs.later (hk : KnownAs s i name) (h : Evolves failed U s s₁) : KnownAs s₁ i name := by
  obtain ⟨is, h⟩ := h
  intro j old hi hj hgi hgj
  rw [h.get_of_not_settled hi] at hgi
  rw [h.get_of_not_settled hj] at hgj
  exact hk j old (h.not_settled hi) (h.not_settled hj) hgi hgj

end Rewriter

namespace Rewrite

open Rewriter

variable {s s' : Rewriter} {i : Index} {name : String}

/-- A class that is renamed has its new name at its index. -/
theorem renameClass_renamed (hs : s.pool.Indexed)
    (h : (renameClass i).outcome s = (.ok true, s')) :
    ∃ j old new, i ∉ s.settled ∧ j ∉ s.settled ∧ s.pool.get i = .ok (.classInfo j) ∧
      s.pool.get j = .ok (.utf8 old) ∧ s.rules.renameType old = some new ∧
      s'.pool.className i = .ok new := by
  cases renameClass_referring i s with
  | settled _ hm => cases hm.symm.trans h
  | failed hm => cases hm.symm.trans h
  | @refers c j r s'' hi hc href hm hrep =>
    cases hm.symm.trans h
    have hinfo : c = .classInfo j := by
      cases c <;> cases href
      rfl
    subst hinfo
    cases hrep with
    | @shared old new k p events hj hold hr hf _ hp =>
      have hk : s.pool.get k = .ok (.utf8 new) := hs hf
      have hki : k ≠ i := fun e => nomatch (e ▸ hc).symm.trans hk
      refine ⟨j, old, new, hi, fun hj' => hj (mem_settle.2 (.inr hj')), hc, hold,
        Except.ok.inj hr, Pool.className_eq_ok.2 ⟨k, Pool.get_replace_self hp, ?_⟩⟩
      exact (Pool.get_replace_of_ne hp hki).trans hk
    | @overwritten old new p events hj hold hr hp =>
      have hij : i ≠ j := fun e => nomatch (e ▸ hc).symm.trans hold
      refine ⟨j, old, new, hi, fun hj' => hj (mem_settle.2 (.inr hj')), hc, hold,
        Except.ok.inj hr, Pool.className_eq_ok.2 ⟨j, ?_, Pool.get_replace_self hp⟩⟩
      exact (Pool.get_replace_of_ne hp hij).trans hc

/-- The name that a renamed class gets is not the one that it had. -/
theorem renameClass_ne {new : String} (hk : KnownAs s i name) (hs : s.pool.Indexed)
    (h : (renameClass i).outcome s = (.ok true, s')) (hnew : s'.pool.className i = .ok new) :
    name ≠ new := by
  obtain ⟨j, old, new', hi, hj, hgi, hgj, hr, hnew'⟩ := renameClass_renamed hs h
  cases hnew.symm.trans hnew'
  rw [← hk j old hi hj hgi hgj]
  exact (Table.renameType_ne hr).symm

theorem renameNamed_told {change : Change String} (hk : KnownAs s i name) (hs : s.pool.Indexed)
    (h : (renameNamed i name).outcome s = (.ok change, s')) : Touch change.differs s s' := by
  obtain ⟨changed, s₁, hclass, h⟩ := outcome_bind_eq_ok h
  have htouch := Signals.renameClass i hclass
  cases changed with
  | false =>
    cases h
    rwa [Change.differs_unchanged]
  | true =>
    obtain ⟨_, _, hget, h⟩ := outcome_bind_eq_ok h
    cases hget
    obtain ⟨new, s₂, hnew, h⟩ := outcome_bind_eq_ok h
    obtain ⟨hname, rfl⟩ := outcome_lift_eq_ok hnew
    cases h
    rwa [Change.differs_of_ne (renameClass_ne hk hs hclass hname)]

theorem renameThis_told {resource : String} {changes : Change String × Change String}
    (hk : KnownAs s i name) (hs : s.pool.Indexed)
    (h : (renameThis resource i name).outcome s = (.ok changes, s')) :
    Touch (changes.1.differs || changes.2.differs) s s' := by
  obtain ⟨changed, s₁, hclass, h⟩ := outcome_bind_eq_ok h
  have htouch := Signals.renameClass i hclass
  cases changed with
  | false =>
    cases h
    rwa [Change.differs_unchanged, Change.differs_unchanged]
  | true =>
    obtain ⟨_, _, hget, h⟩ := outcome_bind_eq_ok h
    cases hget
    obtain ⟨new, s₂, hnew, h⟩ := outcome_bind_eq_ok h
    obtain ⟨hname, rfl⟩ := outcome_lift_eq_ok hnew
    cases h
    rw [Change.differs_of_ne (renameClass_ne hk hs hclass hname), Bool.or_true]
    exact htouch.trans (.still rfl rfl)

theorem renameSuper_told {named : Option (Index × String)} {change : Change (Option String)}
    (hk : ∀ p, named = some p → KnownAs s p.1 p.2) (hs : s.pool.Indexed)
    (h : (renameSuper named).outcome s = (.ok change, s')) : Touch change.differs s s' := by
  cases named with
  | none =>
    cases h
    rw [Change.differs_unchanged]
    exact .refl _
  | some p =>
    obtain ⟨inner, s₁, hinner, h⟩ := outcome_bind_eq_ok h
    cases h
    have hdiffers : (Change.mk (some inner.input) (some inner.output)).differs = inner.differs := by
      simp [Change.differs]
    rw [hdiffers]
    exact renameNamed_told (hk p rfl) hs hinner

/-- What is told of a class: nothing, exactly if nothing changed in the class or its pool. -/
theorem rewriteClassFile_told {resource : String} {c c' : ClassFile} {changes : Changes}
    (hs : s.pool.Indexed)
    (h : (rewriteClassFile resource c).outcome s = (.ok (c', changes), s')) :
    ∃ touched, Touch touched s s' ∧ c'.skeleton = c.skeleton ∧ c'.constants = c.constants ∧
      (changes.any = false ↔ touched = false ∧ c' = c) := by
  obtain ⟨hname, -, hsuperName, hthis, hsuper, hinterfaces, hfields, hmethods, hattributes,
    hpool⟩ := rewriteClassFile_stages h
  have touch₃ := renameThis_told (.of_className hname) hs hthis
  have e₃ := (Walks.renameThis (U := AnyUse) _ _ _).succeeds hs hthis
  have touch₄ := renameSuper_told
    (fun p hp => (KnownAs.of_className (hsuperName p hp)).later e₃) e₃.indexed hsuper
  obtain ⟨b₅, touch₅, counted₅⟩ := rewriteCounting_counted .rewriteClass hinterfaces
  obtain ⟨b₆, touch₆, counted₆⟩ :=
    rewriteCounting_counted (fun m => (Tracks.rewriteMember .ofField m).after_tell) hfields
  obtain ⟨b₇, touch₇, counted₇⟩ :=
    rewriteCounting_counted (fun m => (Tracks.rewriteMember .ofMethod m).after_tell) hmethods
  obtain ⟨b₈, touch₈, counted₈⟩ := rewriteCounting_counted (.rewriteAttribute .ofClass) hattributes
  have touch₉ := renamePool_counts hpool
  refine ⟨_, (((((touch₃.trans touch₄).trans touch₅).trans touch₆).trans touch₇).trans
    touch₈).trans touch₉, ?_, rfl, ?_⟩
  · have hinterfaces := counted₅.skeleton
    rw [List.map_id, List.map_id] at hinterfaces
    have hattributes := counted₈.skeleton
    rw [← Attribute.skeletons_eq_map, ← Attribute.skeletons_eq_map] at hattributes
    simp only [ClassFile.skeleton, hinterfaces, counted₆.skeleton, counted₇.skeleton, hattributes]
  · rw [Changes.any_eq_false, ClassFile.parts_eq_iff]
    simp only [counted₅.silent, counted₆.silent, counted₇.silent, counted₈.silent,
      Bool.or_eq_false_iff, decide_eq_false_iff_not, Nat.not_lt, Nat.le_zero]
    constructor
    · rintro ⟨hthis, hsuper, ⟨h₅, hi⟩, ⟨h₆, hf⟩, ⟨h₇, hm⟩, ⟨h₈, ha⟩, h₉⟩
      exact ⟨⟨⟨⟨⟨⟨⟨hthis, hsuper⟩, h₅⟩, h₆⟩, h₇⟩, h₈⟩, h₉⟩, hi, hf, hm, ha⟩
    · rintro ⟨⟨⟨⟨⟨⟨⟨hthis, hsuper⟩, h₅⟩, h₆⟩, h₇⟩, h₈⟩, h₉⟩, hi, hf, hm, ha⟩
      exact ⟨hthis, hsuper, ⟨h₅, hi⟩, ⟨h₆, hf⟩, ⟨h₇, hm⟩, ⟨h₈, ha⟩, h₉⟩

end Rewrite

/-! ## The length of texts -/

namespace Pool

variable {p p' : Pool} {i : Index} {c : Constant}

/-- The length in bytes of the text at `i`, if there is one. -/
def textLength (p : Pool) (i : Index) : Nat :=
  match p.utf8 i with
  | .ok text => (ModifiedUtf8.encode text).length
  | .error _ => 0

/-- By how much the texts of the pool `p` have grown in `p'`, index by index. -/
def growth (p p' : Pool) : Int :=
  ((p.entries.map Prod.fst).map fun i => (p'.textLength i : Int) - p.textLength i).sum

theorem textLength_of_get (h : p.get i = .ok c) : p.textLength i = c.textSize := by
  unfold textLength utf8
  rw [h]
  cases c <;> rfl

theorem textSize_eq (hc : p.count ≤ 0x10000) :
    p.textSize = ((p.entries.map Prod.fst).map p.textLength).sum := by
  rw [textSize, Writer.total, toList_eq, List.map_map, List.map_map]
  refine congrArg List.sum (List.map_congr_left fun e he => ?_)
  exact (textLength_of_get (get_of_mem_entries hc he)).symm

theorem sum_map_sub {α : Type} (f g : α → Nat) (xs : List α) :
    (xs.map fun x => (f x : Int) - g x).sum = ((xs.map f).sum : Nat) - ((xs.map g).sum : Nat) := by
  induction xs with
  | nil => rfl
  | cons x xs ih =>
    simp only [List.map_cons, List.sum_cons, ih]
    omega

theorem growth_eq (hshape : p'.shape = p.shape) (hc : p.count ≤ 0x10000) :
    p.growth p' = (p'.textSize : Int) - p.textSize := by
  have hc' : p'.count ≤ 0x10000 := count_eq_of_shape hshape ▸ hc
  rw [growth, sum_map_sub, textSize_eq hc, textSize_eq hc', indices_eq_of_shape hshape]

end Pool

/-! ## Class files -/

namespace Table

variable {t : Table} {resource : String} {bytes : Bytes} {c c' : ClassFile} {changes : Changes}

theorem renameClassFile_skeleton (hc : ClassFile.parse bytes = .ok c)
    (h : (t.renameClassFile resource c).1 = .ok (c', changes)) :
    c'.skeleton = c.skeleton ∧ c'.constants.shape = c.constants.shape := by
  obtain ⟨c₁, s', ho, rfl⟩ := renameClassFile_eq_ok h
  have hread := ClassFile.readFrom_of_parse hc
  have hevolves := (Rewrite.rewriteClassFile_rewritten hread.indexed ho).evolves
  obtain ⟨touched, -, hskeleton, -, -⟩ := Rewrite.rewriteClassFile_told hread.indexed ho
  have hpool := hevolves.skeleton hread.count
  obtain ⟨is, hreplaces⟩ := hevolves
  refine ⟨?_, hreplaces.shape⟩
  calc ClassFile.skeleton { c₁ with constants := s'.pool }
      = { c₁.skeleton with constants := s'.pool.skeleton } := rfl
    _ = { c.skeleton with constants := c.constants.skeleton } := by rw [hskeleton, hpool]; rfl
    _ = c.skeleton := rfl

/-- When a class changes, only texts change and the indices of texts that name types, and the
class grows by what its texts do. -/
theorem transform_skeleton {out : Transformed}
    (h : (t.transform resource bytes).1 = .ok (some out)) :
    ∃ c c', ClassFile.parse bytes = .ok c ∧
      (t.renameClassFile resource c).1 = .ok (c', out.changes) ∧ c'.toBytes = .ok out.bytes ∧
      c'.skeleton = c.skeleton ∧
      (out.bytes.length : Int) - bytes.length = c.constants.growth c'.constants := by
  obtain ⟨c, c', hc, hr, hw⟩ := transform_eq_ok h
  obtain ⟨hskeleton, hshape⟩ := renameClassFile_skeleton hc hr
  have hread := ClassFile.readFrom_of_parse hc
  refine ⟨c, c', hc, hr, hw, hskeleton, ?_⟩
  have hlength := (ClassFile.toBytes_of_skeleton hskeleton hw hread.written).1
  rw [Pool.growth_eq hshape hread.count]
  omega

/-- What is evaluated of a result shows that there is one. -/
theorem exists_transformed {α : Type} {f : Transformed → α} {a : α}
    (h : (t.transform resource bytes).1.toOption.join.map f = some a) :
    ∃ out, (t.transform resource bytes).1 = .ok (some out) ∧ f out = a := by
  cases hr : (t.transform resource bytes).1 with
  | error e => rw [hr] at h; cases h
  | ok result =>
    rw [hr] at h
    obtain ⟨out, rfl, hout⟩ := Option.map_eq_some_iff.1 h
    exact ⟨out, rfl, hout⟩

/-- The rule `p.q` to `lib.inner`. -/
def lengthening : Table := .ofSorted [⟨"p.q", "lib.inner", false⟩]

/-- A class `p.q.A` with a field of its type, which extends a class of the same name that has an
entry of its own. -/
def repeatedName : Bytes :=
  [0xCA, 0xFE, 0xBA, 0xBE, 0, 0, 0, 55, 0, 7,
   1, 0, 5, 0x70, 0x2F, 0x71, 0x2F, 0x41,
   7, 0, 1,
   1, 0, 5, 0x70, 0x2F, 0x71, 0x2F, 0x41,
   7, 0, 3,
   1, 0, 1, 0x66,
   1, 0, 7, 0x4C, 0x70, 0x2F, 0x71, 0x2F, 0x41, 0x3B,
   0, 1, 0, 2, 0, 4, 0, 0, 0, 1, 0, 1, 0, 5, 0, 6, 0, 0, 0, 0, 0, 0]

theorem transform_skeleton_lengthening :
    ∃ out c, ∃ c' : ClassFile,
      (lengthening.transform "p/q/A.class" repeatedName).1 = .ok (some out) ∧
      ClassFile.parse repeatedName = .ok c ∧ c'.toBytes = .ok out.bytes ∧
      c'.skeleton = c.skeleton ∧ c.constants.growth c'.constants = 18 := by
  have h : (lengthening.transform "p/q/A.class" repeatedName).1.toOption.join.map
      (·.bytes.length) = some (repeatedName.length + 18) := by decide +kernel
  obtain ⟨out, hr, hlength⟩ := exists_transformed h
  obtain ⟨c, c', hc, -, hw, hskeleton, hgrowth⟩ := transform_skeleton hr
  exact ⟨out, c, c', hr, hc, hw, hskeleton, by omega⟩

theorem transform_of_unchanged (hc : ClassFile.parse bytes = .ok c)
    (h : (t.renameClassFile resource c).1 = .ok (c', changes)) (hany : changes.any = false) :
    (t.transform resource bytes).1 = .ok none := by
  rcases hr : t.renameClassFile resource c with ⟨result, events⟩
  rw [hr] at h
  cases h
  unfold transform
  simp only [hc, hr, hany, Bool.false_eq_true, if_false]

/-- If no change is recorded then nothing has changed. -/
theorem renameClassFile_eq_self (hc : ClassFile.parse bytes = .ok c)
    (h : (t.renameClassFile resource c).1 = .ok (c', changes)) (hany : changes.any = false) :
    c' = c ∧ c'.toBytes = .ok bytes ∧ (t.transform resource bytes).1 = .ok none := by
  have hread := ClassFile.readFrom_of_parse hc
  have hself : c' = c := by
    obtain ⟨c₁, s', ho, rfl⟩ := renameClassFile_eq_ok h
    obtain ⟨touched, htouch, -, -, htold⟩ := Rewrite.rewriteClassFile_told hread.indexed ho
    obtain ⟨rfl, rfl⟩ := htold.1 hany
    cases htouch with
    | still hpool _ => rw [hpool]; rfl
  exact ⟨hself, hself ▸ hread.written, transform_of_unchanged hc h hany⟩

theorem renameClassFile_eq_self_unusual :
    ∃ c changes, ClassFile.parse ClassFile.unusual = .ok c ∧
      (lengthening.renameClassFile "A.class" c).1 = .ok (c, changes) ∧ changes.any = false ∧
      c.toBytes = .ok ClassFile.unusual ∧
      (lengthening.transform "A.class" ClassFile.unusual).1 = .ok none := by
  have h : ((ClassFile.parse ClassFile.unusual).toOption.bind fun c =>
      (lengthening.renameClassFile "A.class" c).1.toOption.map fun r => r.2.any) = some false := by
    decide +kernel
  cases hc : ClassFile.parse ClassFile.unusual with
  | error e => rw [hc] at h; cases h
  | ok c =>
    rw [hc] at h
    obtain ⟨r, hr, hany⟩ := Option.map_eq_some_iff.1 h
    cases hrename : (lengthening.renameClassFile "A.class" c).1 with
    | error e => rw [hrename] at hr; cases hr
    | ok result =>
      rw [hrename] at hr
      cases hr
      obtain ⟨hself, hwritten, hnone⟩ := renameClassFile_eq_self hc hrename hany
      refine ⟨c, r.2, rfl, ?_, hany, hself ▸ hwritten, hnone⟩
      rw [hrename, ← hself]

end Table

end Repackage
