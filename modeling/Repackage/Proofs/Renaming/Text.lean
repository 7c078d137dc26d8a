import Repackage.Proofs.Grammar.Descriptor
import Repackage.Proofs.Renaming.Walked

/-!
# Renamings of one text

A class that is renamed gets another name (`Table.renameType_ne`). A descriptor is renamed name
by name (`Table.getD_renameDescriptor`), each as its class is renamed unless the new name is none
(`Table.newName_text`). Where a descriptor or the name of a class changes in its own role, it also
changes as plain text: a descriptor in the same way (`Table.renameText_of_renameDescriptor`,
`Table.renameType_eq_none`).
-/

namespace Repackage

/-- A text that is read as a descriptor is not blank. -/
theorem Descriptor.exists_not_blank (d : Descriptor) : ∃ c ∈ d.chars, Text.isBlank c = false := by
  cases d with
  | method t => exact ⟨'(', List.mem_cons_self, by decide⟩
  | field t =>
    cases t with
    | base t => exact ⟨t.letter, List.mem_cons_self, by cases t <;> decide⟩
    | ref t =>
      cases t with
      | object name => exact ⟨'L', List.mem_cons_self, by decide⟩
      | objectArray extra name => exact ⟨'[', List.mem_cons_self, by decide⟩
      | primitiveArray extra base => exact ⟨'[', List.mem_cons_self, by decide⟩

theorem BinaryName.isBinaryName_of_ofString {text : String} {e : NameError}
    (h : BinaryName.ofString text = .error e) : isBinaryName text = false := by
  unfold BinaryName.ofString at h
  split at h
  · cases h
  · rename_i e' he
    rw [isBinaryName, he]
    rfl

theorem Text.eq_of_splitLast? {sep : Char} {cs before after : List Char}
    (h : Text.splitLast? sep cs = some (before, after)) : cs = before ++ sep :: after := by
  induction cs generalizing before after with
  | nil => cases h
  | cons c cs ih =>
    unfold Text.splitLast? at h
    split at h
    · rename_i before' after' hcs
      cases h
      rw [ih hcs, List.cons_append]
    · split at h
      · rename_i hc
        cases h
        rw [hc, List.nil_append]
      · cases h

theorem Text.mem_of_splitLast? {sep : Char} {cs : List Char} {parts : List Char × List Char}
    (h : Text.splitLast? sep cs = some parts) : sep ∈ cs := by
  rw [Text.eq_of_splitLast? h]
  exact List.mem_append_right _ List.mem_cons_self

namespace Table

variable {t : Table} {text : String} {x : Option String}

/-! ## Class names -/

theorem eq_of_elementClass? {element name : List Char} (h : elementClass? element = some name) :
    element = 'L' :: name ++ [';'] := by
  unfold elementClass? at h
  split at h
  · rename_i rest
    split at h
    · rename_i hlast
      cases h
      obtain ⟨init, rfl⟩ := List.getLast?_eq_some_iff.1 hlast
      rw [List.dropLast_concat, List.cons_append]
    · cases h
  · cases h

/-- The new name of a class is another one. -/
theorem renameTypeChars_ne {name new : List Char} (h : t.renameTypeChars name = some new) :
    new ≠ name := by
  fun_induction renameTypeChars t name generalizing new with
  | case1 rest hnone => cases h
  | case2 rest dimensions element helement =>
    rename_i ih
    obtain ⟨renamed, hrenamed, rfl⟩ := Option.map_eq_some_iff.1 h
    intro e
    have hrest : rest = dimensions ++ ('L' :: element ++ [';']) := by
      rw [← eq_of_elementClass? helement, List.takeWhile_append_dropWhile]
    rw [hrest, List.cons_append, List.cons_append, List.append_assoc] at e
    have := List.append_cancel_left (List.cons.inj e).2
    exact ih hrenamed (List.append_cancel_right (List.cons.inj this).2)
  | case3 name _ =>
    obtain ⟨parts, hparts, h⟩ := Option.bind_eq_some_iff.1 h
    obtain ⟨package, hpackage, h⟩ := Option.bind_eq_some_iff.1 h
    cases h
    obtain ⟨-, hne⟩ := Option.filter_eq_some_iff.1 hpackage
    intro e
    rw [Text.eq_of_splitLast? hparts] at e
    have := List.append_cancel_right e
    exact of_decide_eq_true hne (by rw [← this, String.ofList_toList])

theorem renameType_ne {new : String} (h : t.renameType text = some new) : new ≠ text := by
  obtain ⟨cs, hcs, rfl⟩ := Option.map_eq_some_iff.1 h
  intro e
  exact renameTypeChars_ne hcs (by rw [← e, String.toList_ofList])

/-! ## Descriptors -/

theorem newName_text (t : Table) (name : BinaryName) :
    (t.newName name).text = (t.renameType name.text).getD name.text ∨
      t.newName name = name ∧ isBinaryName ((t.renameType name.text).getD name.text) = false := by
  unfold newName renameName
  cases h : t.renameType name.text with
  | none => exact .inl rfl
  | some renamed =>
    rw [Option.bind_some, Option.getD_some]
    cases hname : BinaryName.ofString renamed with
    | ok name' => exact .inl (BinaryName.text_of_ofString hname)
    | error e => exact .inr ⟨rfl, BinaryName.isBinaryName_of_ofString hname⟩

theorem renameDescriptor_eq_ok (h : t.renameDescriptor text = .ok x) :
    ∃ d, Descriptor.parse text = .ok d ∧ x = (t.renameTree d).map Descriptor.render := by
  unfold renameDescriptor at h
  split at h
  · cases h
  · rename_i d hd
    cases h
    exact ⟨d, hd, rfl⟩

theorem getD_renameTree (t : Table) (d : Descriptor) :
    (t.renameTree d).getD d = d.mapNames t.newName := by
  rw [renameTree_eq]
  split
  · rfl
  · rename_i hany
    refine (Descriptor.mapNames_eq_self fun name hn => ?_).symm
    have hnone : ¬ (t.renameName name).isSome = true := fun hsome =>
      hany (List.any_eq_true.2 ⟨name, hn, hsome⟩)
    rw [newName, Option.not_isSome_iff_eq_none.1 hnone]
    rfl

theorem renameTree_eq_none {d : Descriptor} (h : ∀ name ∈ d.names, t.renameName name = none) :
    t.renameTree d = none := by
  rw [renameTree_eq]
  refine if_neg fun hany => ?_
  obtain ⟨name, hname, hsome⟩ := List.any_eq_true.1 hany
  rw [h name hname] at hsome
  cases hsome

theorem renameSignatureTree_eq_none {s : Signature}
    (h : ∀ name ∈ s.names, t.renameType name = none) : t.renameSignatureTree s = none := by
  rw [renameSignatureTree_eq]
  refine if_neg fun hany => ?_
  obtain ⟨name, hname, hsome⟩ := List.any_eq_true.1 hany
  rw [h name hname] at hsome
  cases hsome

/-- A descriptor is renamed name by name. -/
theorem getD_renameDescriptor (h : t.renameDescriptor text = .ok x) :
    ∃ d, Descriptor.parse text = .ok d ∧ x.getD text = (d.mapNames t.newName).render := by
  obtain ⟨d, hd, rfl⟩ := renameDescriptor_eq_ok h
  refine ⟨d, hd, ?_⟩
  rw [← getD_renameTree]
  cases t.renameTree d with
  | none => exact (Descriptor.render_of_parse hd).symm
  | some d' => rfl

/-- A text that is not blank goes through all stages. -/
theorem renameText_of_not_blank (h : ∃ c ∈ text.toList, Text.isBlank c = false) :
    t.renameText text = (t.renameAsDescriptor text).or
      ((t.renameAsType text).or (t.direct? text)) := by
  obtain ⟨c, hc, hblank⟩ := h
  refine if_neg fun hall => ?_
  exact Bool.eq_false_iff.1 hblank (List.all_eq_true.1 hall c hc)

/-- A descriptor that changes is renamed as a text in the same way. -/
theorem renameText_of_renameDescriptor {new : String}
    (h : t.renameDescriptor text = .ok (some new)) : t.renameText text = some new := by
  obtain ⟨d, hd, hnew⟩ := renameDescriptor_eq_ok h
  have htext : text.toList = d.chars := by
    rw [← Descriptor.render_of_parse hd, Descriptor.render, String.toList_ofList]
  have hstage : t.renameAsDescriptor text = some new := by
    rw [renameAsDescriptor, hd]
    exact hnew.symm
  rw [renameText_of_not_blank (htext ▸ d.exists_not_blank), hstage]
  rfl

/-- A class name that changes is not blank. -/
theorem exists_not_blank_of_renameType {new : String} (h : t.renameType text = some new) :
    ∃ c ∈ text.toList, Text.isBlank c = false := by
  obtain ⟨cs, hcs, -⟩ := Option.map_eq_some_iff.1 h
  rw [renameTypeChars.eq_def] at hcs
  split at hcs
  · rename_i rest hrest
    exact ⟨'[', hrest ▸ List.mem_cons_self, by decide⟩
  · obtain ⟨parts, hparts, -⟩ := Option.bind_eq_some_iff.1 hcs
    exact ⟨'/', Text.mem_of_splitLast? hparts, by decide⟩

/-- A binary name that plain text leaves alone is left alone as a class. -/
theorem renameType_eq_none (hname : isBinaryName text = true) (h : t.renameText text = none) :
    t.renameType text = none := by
  cases hnew : t.renameType text with
  | none => rfl
  | some new =>
    have hstage : t.renameAsType text = some new := by
      rw [renameAsType, if_pos hname, hnew]
    rw [renameText_of_not_blank (exists_not_blank_of_renameType hnew), hstage] at h
    cases hd : t.renameAsDescriptor text with
    | none => rw [hd] at h; cases h
    | some _ => rw [hd] at h; cases h

end Table

end Repackage
