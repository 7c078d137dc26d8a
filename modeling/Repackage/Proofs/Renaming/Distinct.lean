import Repackage.Proofs.Grammar.Signature
import Repackage.Proofs.Renaming.Changes
import Repackage.Proofs.Rules.Table

/-!
# Changes that change nothing

A class, a descriptor or a signature that is renamed is another one, because one of its names is.
The replacement of packages in a text and of a text as a whole has no such guard: a rule may put
in what it takes out, and one rule may undo another. Such a text is `Table.Idle`, and only plain
texts can be (`Role.rename_self`). So a class can be told to have changed and have the bytes that
it had, but only through an idle text (`Table.transform_bytes_ne`).
-/

namespace Repackage

/-! ## Texts -/

namespace Table

variable {t : Table} {text new : String} {name : BinaryName}

/-- A replacement in the text gives the text itself. -/
def Idle (t : Table) (text : String) : Prop :=
  (∃ form, t.replacePackages text form = some text) ∨ t.direct? text = some text

theorem renameName_ne {name' : BinaryName} (h : t.renameName name = some name') :
    name' ≠ name := by
  obtain ⟨renamed, hrenamed, hok⟩ := Option.bind_eq_some_iff.1 h
  cases hname : BinaryName.ofString renamed with
  | error e => rw [hname] at hok; cases hok
  | ok result =>
    rw [hname] at hok
    cases hok
    intro e
    refine renameType_ne hrenamed ?_
    rw [← BinaryName.text_of_ofString hname, e]

theorem renameTree_ne {d d' : Descriptor} (h : t.renameTree d = some d') :
    d'.render ≠ d.render := by
  rw [renameTree_eq] at h
  split at h
  · rename_i hany
    cases h
    obtain ⟨name, hname, hsome⟩ := List.any_eq_true.1 hany
    obtain ⟨renamed, hrenamed⟩ := Option.isSome_iff_exists.1 hsome
    intro e
    have hself := Descriptor.eq_of_render_mapNames _ e name hname
    rw [newName, hrenamed, Option.getD_some] at hself
    exact renameName_ne hrenamed hself
  · cases h

theorem renameDescriptor_ne (h : t.renameDescriptor text = .ok (some new)) : new ≠ text := by
  obtain ⟨d, hd, hnew⟩ := renameDescriptor_eq_ok h
  obtain ⟨d', hd', rfl⟩ := Option.map_eq_some_iff.1 hnew.symm
  rw [← Descriptor.render_of_parse hd]
  exact renameTree_ne hd'

theorem renameClassLiteral_ne (h : t.renameClassLiteral text = .ok (some new)) : new ≠ text := by
  unfold renameClassLiteral at h
  split at h
  · cases h
  · exact renameDescriptor_ne h

theorem renameSignature_ne {kind : SignatureKind}
    (h : t.renameSignature kind text = .ok (some new)) : new ≠ text := by
  unfold renameSignature at h
  split at h
  · cases h
  · rename_i s hs
    obtain ⟨hrender, -, hwf⟩ := Signature.render_of_parse hs
    obtain ⟨s', hs', rfl⟩ := Option.map_eq_some_iff.1 (Except.ok.inj h)
    rw [renameSignatureTree_eq] at hs'
    split at hs'
    · rename_i hany
      cases hs'
      obtain ⟨name, hname, hsome⟩ := List.any_eq_true.1 hany
      obtain ⟨renamed, hrenamed⟩ := Option.isSome_iff_exists.1 hsome
      intro e
      have hself := Signature.eq_of_render_mapNames _ hwf (e.trans hrender.symm) name hname
      rw [newType, hrenamed, Option.getD_some] at hself
      exact renameType_ne hrenamed hself
    · cases hs'

theorem renameText_self (h : t.renameText text = some text) : t.Idle text := by
  unfold renameText at h
  split at h
  · cases h
  rcases Option.or_eq_some_iff.1 h with h | ⟨-, h⟩
  · unfold renameAsDescriptor at h
    split at h
    · rename_i d hd
      obtain ⟨d', hd', hself⟩ := Option.map_eq_some_iff.1 h
      exact absurd (hself.trans (Descriptor.render_of_parse hd).symm) (renameTree_ne hd')
    · exact .inl ⟨_, h⟩
  rcases Option.or_eq_some_iff.1 h with h | ⟨-, h⟩
  · unfold renameAsType at h
    split at h
    · exact absurd rfl (renameType_ne h)
    · exact .inl ⟨_, h⟩
  · exact .inr h

end Table

/-- A text that is renamed to itself is a plain one. -/
theorem Role.rename_self {role : Role} {t : Table} {text : String}
    (h : role.rename t text = .ok (some text)) : t.renameText text = some text := by
  cases role with
  | className => exact absurd rfl (Table.renameType_ne (Except.ok.inj h))
  | descriptor => exact absurd rfl (Table.renameDescriptor_ne h)
  | classLiteral => exact absurd rfl (Table.renameClassLiteral_ne h)
  | signature kind => exact absurd rfl (Table.renameSignature_ne h)
  | plain => exact Except.ok.inj h

/-! ## Pools -/

namespace Rewriter

variable {failed : Prop} {U : Role → Index → Prop} {s s' : Rewriter} {i : Index}
  {c d : Constant}

/-- Where a constant is replaced and nothing is different after all, some text is renamed to
itself. -/
theorem Renames.exists_self (h : Renames U s s' i c d) (hc : s.pool.get i = .ok c)
    (hd : s'.pool.get i = .ok d) (hsame : ∀ j, s'.pool.get j = s.pool.get j) :
    ∃ j text, s.pool.get j = .ok (.utf8 text) ∧ s.rules.renameText text = some text := by
  rw [hsame, hc] at hd
  cases h with
  | @text role old new _ hr =>
    cases hd
    exact ⟨i, old, hc, Role.rename_self hr⟩
  | @reference _ role j k href hnamed =>
    obtain ⟨old, new, -, hold, hr, -, hnew⟩ := hnamed
    -- the constant refers to the text that it did, so the new text is the old one
    have hk := Constant.reference?_withReference href k
    rw [← Except.ok.inj hd, href] at hk
    cases hk
    rw [hsame, hold] at hnew
    cases hnew
    exact ⟨j, old, hold, Role.rename_self hr⟩

theorem Evolves.exists_self (h : Evolves failed U s s')
    (hwrote : s.replaced.length < s'.replaced.length) (htable : s'.pool.table = s.pool.table) :
    ∃ j text, s.pool.get j = .ok (.utf8 text) ∧ s.rules.renameText text = some text := by
  obtain ⟨is, h⟩ := h
  have hsame : ∀ j, s'.pool.get j = s.pool.get j := by
    intro j
    rw [Pool.get, Pool.get, htable]
  cases is with
  | nil =>
    rw [h.history] at hwrote
    exact absurd hwrote (Nat.lt_irrefl _)
  | cons i is =>
    obtain ⟨c, d, hc, hd, hr⟩ := h.renamed i List.mem_cons_self
    exact hr.exists_self hc hd hsame

end Rewriter

/-! ## Class files -/

namespace Table

variable {t : Table} {resource : String} {bytes : Bytes}

/-- A class that is told to have changed has other bytes, unless a text in it is idle. -/
theorem transform_bytes_ne {out : Transformed}
    (h : (t.transform resource bytes).1 = .ok (some out)) :
    out.bytes ≠ bytes ∨ ∃ c i text, ClassFile.parse bytes = .ok c ∧
      c.constants.get i = .ok (.utf8 text) ∧ t.renameText text = some text ∧ t.Idle text := by
  obtain ⟨c, c', hc, hr, hw⟩ := transform_eq_ok h
  refine Classical.or_iff_not_imp_left.2 fun hsame => ?_
  have hbytes : out.bytes = bytes := Classical.not_not.1 hsame
  have hread := ClassFile.readFrom_of_parse hc
  have hany : out.changes.any = true := by
    refine eq_true_of_ne_false fun hany => ?_
    cases h.symm.trans (transform_of_unchanged hc hr hany)
  obtain ⟨hskeleton, -⟩ := renameClassFile_skeleton hc hr
  obtain ⟨htable, hfields, hmethods, hattributes⟩ :=
    (ClassFile.toBytes_of_skeleton hskeleton hw hread.written).2 hbytes
  obtain ⟨c₁, s', ho, rfl⟩ := renameClassFile_eq_ok hr
  obtain ⟨touched, htouch, hskeleton₁, hconstants, htold⟩ :=
    Rewrite.rewriteClassFile_told hread.indexed ho
  cases htouch with
  | wrote hwrote =>
    have hevolves := (Rewrite.rewriteClassFile_rewritten hread.indexed ho).evolves
    obtain ⟨i, text, htext, hself⟩ := hevolves.exists_self hwrote htable
    exact ⟨c, i, text, hc, htext, hself, renameText_self hself⟩
  | still =>
    -- nothing is written to the pool and the parts are the same, so no change could be told
    have hself : c₁ = c := by
      simp only [ClassFile.skeleton, ClassFile.mk.injEq] at hskeleton₁
      obtain ⟨hversion, -, haccess, hthis, hsuper, hinterfaces, -⟩ := hskeleton₁
      cases c
      cases c₁
      exact (ClassFile.mk.injEq ..).mpr ⟨hversion, hconstants, haccess, hthis, hsuper,
        hinterfaces, hfields, hmethods, hattributes⟩
    rw [htold.2 ⟨rfl, hself⟩] at hany
    cases hany

theorem transform_bytes_ne_lengthening :
    ∃ out, (lengthening.transform "p/q/A.class" repeatedName).1 = .ok (some out) ∧
      (out.bytes ≠ repeatedName ∨ ∃ c i text, ClassFile.parse repeatedName = .ok c ∧
        c.constants.get i = .ok (.utf8 text) ∧ lengthening.renameText text = some text ∧
        lengthening.Idle text) := by
  have h : (lengthening.transform "p/q/A.class" repeatedName).1.toOption.join.map
      (·.name) = some "lib/inner/A.class" := by decide +kernel
  obtain ⟨out, hr, -⟩ := exists_transformed h
  exact ⟨out, hr, transform_bytes_ne hr⟩

/-- The rule `p.a` to `p.a`. -/
def restoring : Table := .ofSorted [⟨"p.a", "p.a", false⟩]

/-- A class `Main` with the text `p.a.X`. -/
def mentioning : Bytes :=
  [0xCA, 0xFE, 0xBA, 0xBE, 0, 0, 0, 55, 0, 4,
   1, 0, 4, 0x4D, 0x61, 0x69, 0x6E,
   7, 0, 1,
   1, 0, 5, 0x70, 0x2E, 0x61, 0x2E, 0x58,
   0, 1, 0, 2, 0, 0, 0, 0, 0, 0, 0, 0, 0, 0]

/-- An idle text counts as a change, though the class keeps its name and its bytes. -/
theorem transform_restoring :
    (Builder.rename {} "p.a" "p.a").build = .ok restoring ∧
      ∃ out, (restoring.transform "Main.class" mentioning).1 = .ok (some out) ∧
        out.name = "Main.class" ∧ out.bytes = mentioning := by
  have hrules : (Builder.rename {} "p.a" "p.a").rules = restoring.rules := by decide +kernel
  have hforward : (Builder.rename {} "p.a" "p.a").forward = .ok restoring := by
    unfold Builder.forward
    rw [hrules]
    exact make_parts restoring rfl rfl
  have hbuild : (Builder.rename {} "p.a" "p.a").build = .ok restoring := by
    unfold Builder.build
    rw [hforward]
    rfl
  have h : (restoring.transform "Main.class" mentioning).1.toOption.join.map
      (fun out => (out.name, out.bytes)) = some ("Main.class", mentioning) := by decide +kernel
  obtain ⟨out, hr, hout⟩ := exists_transformed h
  obtain ⟨hname, hbytes⟩ := Prod.mk.inj hout
  exact ⟨hbuild, out, hr, hname, hbytes⟩

end Table

end Repackage
