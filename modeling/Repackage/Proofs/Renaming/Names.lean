import Repackage.Proofs.Grammar.Signature
import Repackage.Proofs.Renaming.Changes
import Repackage.Proofs.Rules.Substitution

/-!
# Names are no types

The names of fields, methods and attributes and the names in constants are not renamed: they stay
at their indices (`ClassFile.names`). But they are texts of the pool, which every use of an entry
can change, and every entry is used as plain text. So a name changes if a rule finds its package
there. It takes a rule without a dot to find one in an identifier (`Role.rename_identifier`).

The name of a class is a text of the pool too, and can be met as a class or as plain text first.
With rules that have dots both come to the same (`Table.renameText_eq_renameType`).
-/

namespace Repackage

/-! ## The names of a class -/

mutual

/-- The indices of the name of an attribute and of the names of those inside it. -/
def Attribute.names : Attribute → List Index
  | ⟨name, body⟩ => name :: body.names

def AttributeBody.names : AttributeBody → List Index
  | .code c => c.names
  | _ => []

def Code.names : Code → List Index
  | ⟨_, _, _, _, attributes⟩ => Attribute.listNames attributes

def Attribute.listNames : List Attribute → List Index
  | [] => []
  | a :: rest => a.names ++ Attribute.listNames rest

end

namespace ClassFile

/-- The indices of the names of all attributes, nested ones included. -/
def attributeNames (c : ClassFile) : List Index :=
  (c.fields ++ c.methods).flatMap (fun m => Attribute.listNames m.attributes)
    ++ Attribute.listNames c.attributes

/-- The indices of the names of all fields, methods and attributes. -/
def names (c : ClassFile) : List Index :=
  c.fields.map Member.name ++ c.methods.map Member.name ++ c.attributeNames

end ClassFile

mutual

theorem Attribute.names_skeleton (a : Attribute) : a.skeleton.names = a.names := by
  cases a with
  | mk name body =>
    rw [Attribute.skeleton, Attribute.names, Attribute.names, AttributeBody.names_skeleton body]
termination_by structural a

theorem AttributeBody.names_skeleton (body : AttributeBody) : body.skeleton.names = body.names := by
  cases body with
  | code c =>
    rw [AttributeBody.skeleton, AttributeBody.names, AttributeBody.names, Code.names_skeleton c]
  | _ =>
    simp only [AttributeBody.skeleton, AttributeBody.names]
termination_by structural body

theorem Code.names_skeleton (c : Code) : c.skeleton.names = c.names := by
  cases c with
  | mk maxStack maxLocals instructions handlers attributes =>
    rw [Code.skeleton, Code.names, Code.names, Attribute.listNames_skeletons attributes]
termination_by structural c

theorem Attribute.listNames_skeletons (as : List Attribute) :
    Attribute.listNames (Attribute.skeletons as) = Attribute.listNames as := by
  cases as with
  | nil => rfl
  | cons a as =>
    rw [Attribute.skeletons, Attribute.listNames, Attribute.listNames, Attribute.names_skeleton a,
      Attribute.listNames_skeletons as]
termination_by structural as

end

namespace ClassFile

variable {c c' : ClassFile}

theorem attributeNames_skeleton (c : ClassFile) : c.skeleton.attributeNames = c.attributeNames := by
  simp only [attributeNames, skeleton, Member.skeleton, ← List.map_append, List.flatMap_map,
    Attribute.listNames_skeletons]

theorem names_skeleton (c : ClassFile) : c.skeleton.names = c.names := by
  rw [names, names, attributeNames_skeleton]
  simp only [skeleton, List.map_map]
  rfl

theorem names_eq_of_skeleton (h : c'.skeleton = c.skeleton) : c'.names = c.names := by
  rw [← names_skeleton c', h, names_skeleton]

end ClassFile

/-! ## Identifiers -/

namespace Table

variable {t : Table} {text new : String}

/-- The table renames packages with a dot in their names, and no text as a whole. -/
structure Qualified (t : Table) : Prop where
  rules : ∀ r ∈ t.rules, '.' ∈ r.key.toList
  direct : t.direct = []

theorem mem_of_renameTypeChars {name new : List Char} (h : t.renameTypeChars name = some new) :
    '/' ∈ name := by
  fun_induction renameTypeChars t name generalizing new with
  | case1 rest hnone => cases h
  | case2 rest dimensions element helement =>
    rename_i ih
    obtain ⟨renamed, hrenamed, -⟩ := Option.map_eq_some_iff.1 h
    refine List.mem_cons_of_mem _ ((List.dropWhile_suffix (· = '[')).subset ?_)
    rw [eq_of_elementClass? helement]
    exact List.mem_cons_of_mem _ (List.mem_append_left _ (ih hrenamed))
  | case3 name _ =>
    obtain ⟨parts, hparts, -⟩ := Option.bind_eq_some_iff.1 h
    exact Text.mem_of_splitLast? hparts

/-- Only the name of a class in a package changes. -/
theorem mem_of_renameType (h : t.renameType text = some new) : '/' ∈ text.toList := by
  obtain ⟨cs, hcs, -⟩ := Option.map_eq_some_iff.1 h
  exact mem_of_renameTypeChars hcs

/-- A descriptor changes only with a class in it. -/
theorem exists_of_renameTree {d d' : Descriptor} (h : t.renameTree d = some d') :
    ∃ name ∈ d.names, ∃ new, t.renameType name.text = some new := by
  rw [renameTree_eq] at h
  split at h
  · rename_i hany
    obtain ⟨name, hname, hsome⟩ := List.any_eq_true.1 hany
    obtain ⟨renamed, hrenamed⟩ := Option.isSome_iff_exists.1 hsome
    obtain ⟨new, hnew, -⟩ := Option.bind_eq_some_iff.1 hrenamed
    exact ⟨name, hname, new, hnew⟩
  · cases h

theorem mem_of_renameTree {d d' : Descriptor} (h : t.renameTree d = some d') : '/' ∈ d.chars := by
  obtain ⟨name, hname, new, hnew⟩ := exists_of_renameTree h
  exact Descriptor.mem_chars hname (mem_of_renameType hnew)

theorem mem_of_renameDescriptor (h : t.renameDescriptor text = .ok (some new)) :
    '/' ∈ text.toList := by
  obtain ⟨d, hd, hnew⟩ := renameDescriptor_eq_ok h
  obtain ⟨d', hd', -⟩ := Option.map_eq_some_iff.1 hnew.symm
  rw [← Descriptor.render_of_parse hd, Descriptor.render, String.toList_ofList]
  exact mem_of_renameTree hd'

theorem mem_of_renameSignature {kind : SignatureKind}
    (h : t.renameSignature kind text = .ok (some new)) : '/' ∈ text.toList := by
  unfold renameSignature at h
  split at h
  · cases h
  · rename_i s hs
    obtain ⟨hrender, -, hwf⟩ := Signature.render_of_parse hs
    obtain ⟨s', hs', -⟩ := Option.map_eq_some_iff.1 (Except.ok.inj h)
    rw [renameSignatureTree_eq] at hs'
    split at hs'
    · rename_i hany
      obtain ⟨name, hname, hsome⟩ := List.any_eq_true.1 hany
      obtain ⟨renamed, hrenamed⟩ := Option.isSome_iff_exists.1 hsome
      rw [← hrender, Signature.render, String.toList_ofList]
      exact Signature.mem_chars hwf hname (mem_of_renameType hrenamed)
    · cases hs'

/-- Where no rule finds its package, the first stage changes only descriptors. -/
theorem renameAsDescriptor_eq_none (hrules : ∀ r ∈ t.rules, '.' ∈ r.key.toList)
    (hdot : '.' ∉ text.toList) (htree : ∀ d d', d.chars = text.toList → t.renameTree d ≠ some d') :
    t.renameAsDescriptor text = none := by
  unfold renameAsDescriptor
  split
  · rename_i d hd
    have hchars : d.chars = text.toList := by
      rw [← Descriptor.render_of_parse hd, Descriptor.render, String.toList_ofList]
    rw [Option.map_eq_none_iff, Option.eq_none_iff_forall_ne_some]
    exact fun d' => htree d d' hchars
  · exact replacePackages_eq_none hrules hdot

theorem Qualified.renameText (ht : t.Qualified) (hdot : '.' ∉ text.toList)
    (hslash : '/' ∉ text.toList) : t.renameText text = none := by
  have hdescriptor : t.renameAsDescriptor text = none :=
    renameAsDescriptor_eq_none ht.rules hdot fun d d' hchars hd' =>
      hslash (hchars ▸ mem_of_renameTree hd')
  have htype : t.renameAsType text = none := by
    unfold renameAsType
    split
    · cases hnew : t.renameType text with
      | none => rfl
      | some new => exact absurd (mem_of_renameType hnew) hslash
    · exact replacePackages_eq_none ht.rules hslash
  have hdirect : t.direct? text = none := by
    rw [direct?, ht.direct]
    rfl
  unfold Table.renameText
  rw [hdescriptor, htype, hdirect]
  split <;> rfl

/-- The name of a class is no descriptor that changes, since a class in a descriptor ends at a
semicolon. So it comes to the second stage as it is. -/
theorem renameText_of_isBinaryName (hrules : ∀ r ∈ t.rules, '.' ∈ r.key.toList)
    (hname : isBinaryName text = true) (hblank : ∃ c ∈ text.toList, Text.isBlank c = false) :
    t.renameText text = (t.renameType text).or (t.direct? text) := by
  have hdot : '.' ∉ text.toList := BinaryName.not_mem_of_isBinaryName hname rfl (by decide)
  have hsemicolon : ';' ∉ text.toList := BinaryName.not_mem_of_isBinaryName hname rfl (by decide)
  have hdescriptor : t.renameAsDescriptor text = none := by
    refine renameAsDescriptor_eq_none hrules hdot fun d d' hchars hd' => hsemicolon ?_
    obtain ⟨name, hmem, -⟩ := exists_of_renameTree hd'
    exact hchars ▸ Descriptor.semicolon_mem_chars hmem
  rw [renameText_of_not_blank hblank, hdescriptor, Option.none_or, renameAsType, if_pos hname]

/-- As a text, the name of a class is renamed like the class, if the rules have dots and the text is
not replaced as a whole. -/
theorem renameText_eq_renameType (hrules : ∀ r ∈ t.rules, '.' ∈ r.key.toList)
    (hname : isBinaryName text = true) (hdirect : text ∉ t.direct.map Prod.fst) :
    t.renameText text = t.renameType text := by
  have hnone : t.direct? text = none := by
    rw [direct?, List.lookup_eq_none_iff]
    intro pair hpair
    refine bne_iff_ne.2 fun e => hdirect ?_
    exact List.mem_map.2 ⟨pair, hpair, e.symm⟩
  by_cases hblank : ∃ c ∈ text.toList, Text.isBlank c = false
  · rw [renameText_of_isBinaryName hrules hname hblank, hnone, Option.or_none]
  · have htype : t.renameType text = none :=
      Option.eq_none_iff_forall_ne_some.2 fun new hnew =>
        hblank (exists_not_blank_of_renameType hnew)
    have hall : text.toList.all Text.isBlank = true := by simpa using hblank
    rw [htype, renameText, if_pos hall]

/-- A wildcard, and a text that is replaced as a whole. -/
def migrating : Table :=
  { ofSorted [⟨"javax.servlet", "jakarta.servlet", true⟩] with
    direct := [("javax/servlet/Filter", "Filter")] }

/-- The second name is also a descriptor. -/
theorem renameText_eq_renameType_migrating :
    (∀ r ∈ migrating.rules, '.' ∈ r.key.toList) ∧
      (isBinaryName "javax/servlet/http/Cookie" = true ∧
        "javax/servlet/http/Cookie" ∉ migrating.direct.map Prod.fst ∧
        migrating.renameText "javax/servlet/http/Cookie" = some "jakarta/servlet/http/Cookie") ∧
      isBinaryName "(I)V" = true ∧ "(I)V" ∉ migrating.direct.map Prod.fst ∧
        (Descriptor.parse "(I)V").toBool = true ∧ migrating.renameText "(I)V" = none := by
  have hrules : ∀ r ∈ migrating.rules, '.' ∈ r.key.toList := by decide +kernel
  have hcookie : isBinaryName "javax/servlet/http/Cookie" = true := by decide +kernel
  have hcookie' : "javax/servlet/http/Cookie" ∉ migrating.direct.map Prod.fst := by decide +kernel
  have hmethod : isBinaryName "(I)V" = true := by decide +kernel
  have hmethod' : "(I)V" ∉ migrating.direct.map Prod.fst := by decide +kernel
  refine ⟨hrules, ⟨hcookie, hcookie', ?_⟩, hmethod, hmethod', ?_, ?_⟩
  · rw [renameText_eq_renameType hrules hcookie hcookie']
    decide +kernel
  · decide +kernel
  · rw [renameText_eq_renameType hrules hmethod hmethod']
    decide +kernel

end Table

/-- No use changes a text that has neither dots nor slashes in it, if the rules have dots. -/
theorem Role.rename_identifier {t : Table} (ht : t.Qualified) {text new : String}
    (hdot : '.' ∉ text.toList) (hslash : '/' ∉ text.toList) (role : Role) :
    role.rename t text ≠ .ok (some new) := by
  intro h
  cases role with
  | className => exact hslash (Table.mem_of_renameType (Except.ok.inj h))
  | descriptor => exact hslash (Table.mem_of_renameDescriptor h)
  | classLiteral =>
    have h : t.renameClassLiteral text = .ok (some new) := h
    unfold Table.renameClassLiteral at h
    split at h
    · cases h
    · exact hslash (Table.mem_of_renameDescriptor h)
  | signature kind => exact hslash (Table.mem_of_renameSignature h)
  | plain => cases (ht.renameText hdot hslash).symm.trans (Except.ok.inj h)

/-! ## Class files -/

namespace ClassFile

/-- What the name `old` at `i` can be after the class is renamed: it stays, unless a use of the
entry changes it, and if it is an identifier it stays whatever uses it. -/
structure NameBecomes (t : Table) (c : ClassFile) (i : Index) (old new : String) : Prop where
  renamed : new = old ∨ ∃ role, c.Uses role i ∧ Role.rename t role old = .ok (some new)
  identifier : t.Qualified → '.' ∉ old.toList → '/' ∉ old.toList → new = old

theorem Renamed.nameBecomes {t : Table} {c : ClassFile} {i : Index} {old new : String}
    (h : Renamed t c i old new) : NameBecomes t c i old new := by
  cases h with
  | kept => exact ⟨.inl rfl, fun _ _ _ => rfl⟩
  | changed hu hr =>
    exact ⟨.inr ⟨_, hu, hr⟩,
      fun ht hdot hslash => absurd hr (Role.rename_identifier ht hdot hslash _)⟩

end ClassFile

namespace Table

variable {t : Table} {resource : String} {bytes : Bytes}

/-- When a class changes, names stay at their indices, and what stands there stays unless the
entry is also used as something else that changes. -/
theorem transform_names {out : Transformed}
    (h : (t.transform resource bytes).1 = .ok (some out)) :
    ∃ c c', ClassFile.parse bytes = .ok c ∧
      (t.renameClassFile resource c).1 = .ok (c', out.changes) ∧ c'.toBytes = .ok out.bytes ∧
      c'.names = c.names ∧
      (∀ i name descriptor, c.constants.get i = .ok (.nameAndType name descriptor) →
        ∃ descriptor', c'.constants.get i = .ok (.nameAndType name descriptor')) ∧
      ∀ i old, c.constants.get i = .ok (.utf8 old) →
        ∃ new, c'.constants.get i = .ok (.utf8 new) ∧ ClassFile.NameBecomes t c i old new := by
  obtain ⟨c, c', hc, hr, hw⟩ := transform_eq_ok h
  obtain ⟨hskeleton, -⟩ := renameClassFile_skeleton hc hr
  refine ⟨c, c', hc, hr, hw, ClassFile.names_eq_of_skeleton hskeleton, ?_⟩
  obtain ⟨c₁, s', ho, rfl⟩ := renameClassFile_eq_ok hr
  have hrewritten := Rewrite.rewriteClassFile_rewritten (ClassFile.indexed_of_parse hc) ho
  constructor
  · intro i name descriptor hi
    obtain ⟨is, hreplaces⟩ := hrewritten.evolves
    by_cases hmem : i ∈ is
    · obtain ⟨d, d', hd, hd', hrenames⟩ := hreplaces.renamed i hmem
      cases hi.symm.trans hd
      cases hrenames with
      | reference => exact ⟨_, hd'⟩
    · exact ⟨descriptor, (hreplaces.kept i hmem).trans hi⟩
  · intro i old hold
    obtain ⟨new, hnew, hrenamed⟩ := hrewritten.text hold
    exact ⟨new, hnew, hrenamed.nameBecomes⟩

theorem transform_names_lengthening :
    ∃ out c, ∃ c' : ClassFile,
      (lengthening.transform "p/q/A.class" repeatedName).1 = .ok (some out) ∧
      ClassFile.parse repeatedName = .ok c ∧ c'.toBytes = .ok out.bytes ∧ lengthening.Qualified ∧
      c'.names = c.names ∧ ∀ i, c.constants.get i = .ok (.utf8 "f") →
        c'.constants.get i = .ok (.utf8 "f") := by
  have h : (lengthening.transform "p/q/A.class" repeatedName).1.toOption.join.map
      (·.name) = some "lib/inner/A.class" := by decide +kernel
  have hqualified : lengthening.Qualified := ⟨by decide +kernel, rfl⟩
  obtain ⟨out, hr, -⟩ := exists_transformed h
  obtain ⟨c, c', hc, -, hw, hnames, -, htexts⟩ := transform_names hr
  refine ⟨out, c, c', hr, hc, hw, hqualified, hnames, fun i hi => ?_⟩
  obtain ⟨new, hnew, hbecomes⟩ := htexts i "f" hi
  rw [hnew, hbecomes.identifier hqualified (by decide) (by decide)]

/-! ## A rule without a dot -/

/-- The rule `f` to `g`. -/
def unqualified : Table := .ofSorted [⟨"f", "g", false⟩]

/-- A class `Main` with a number `f`. -/
def numbered : Bytes :=
  [0xCA, 0xFE, 0xBA, 0xBE, 0, 0, 0, 55, 0, 5,
   1, 0, 4, 0x4D, 0x61, 0x69, 0x6E,
   7, 0, 1,
   1, 0, 1, 0x66,
   1, 0, 1, 0x49,
   0, 1, 0, 2, 0, 0, 0, 0, 0, 1, 0, 1, 0, 3, 0, 4, 0, 0, 0, 0, 0, 0]

/-- The names of the fields of a class. -/
def fieldNames (bytes : Bytes) : Option (List String) := do
  let c ← (ClassFile.parse bytes).toOption
  c.fields.mapM fun m => (c.constants.utf8 m.name).toOption

/-- The name of a field is taken for the package of a rule. -/
theorem field_renamed_as_text :
    fieldNames numbered = some ["f"] ∧
      ((unqualified.transform "Main.class" numbered).1.toOption.join.bind
        fun out => fieldNames out.bytes) = some ["g"] := by
  decide +kernel

end Table

end Repackage
