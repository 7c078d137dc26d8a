import Repackage.Proofs.Grammar.Exchange
import Repackage.Proofs.Renaming.Names

/-!
# Renaming a text once more

In a table that renames no renamed package again (`Table.Settling`), what is renamed as a class, a
descriptor or a signature stays as it is in the same role (`Role.rename_again`). For descriptors
and signatures this takes that the new text is read as the tree that was written, or not at all.

Plain text may change again: the stages stop at the first that changes something, so a text can
have something left for a later stage.
-/

namespace Repackage

/-! ## Exchanged names -/

section Descriptors

variable (f : BinaryName → BinaryName)

theorem FieldType.names_mapNames (t : FieldType) : (t.mapNames f).names = t.names.map f := by
  cases t with
  | base t => rfl
  | ref t => cases t <;> rfl

theorem Descriptor.names_mapNames (d : Descriptor) : (d.mapNames f).names = d.names.map f := by
  cases d with
  | field t => exact t.names_mapNames f
  | method t =>
    obtain ⟨parameters, result⟩ := t
    have hresult : (result.map (FieldType.mapNames f)).elim [] FieldType.names =
        (result.elim [] FieldType.names).map f := by
      cases result with
      | none => rfl
      | some t => exact t.names_mapNames f
    simp only [Descriptor.mapNames, Descriptor.names, MethodType.mapNames, MethodType.names,
      List.flatMap_map, List.map_append, List.map_flatMap, FieldType.names_mapNames, hresult]

end Descriptors

section Signatures

variable (f : String → String)

mutual

theorem JavaType.names_mapNames : (t : JavaType) → (t.mapNames f).names = t.names.map f
  | .base _ => rfl
  | .reference t => ReferenceType.names_mapNames t

theorem ReferenceType.names_mapNames : (t : ReferenceType) → (t.mapNames f).names = t.names.map f
  | .classType t => ClassType.names_mapNames t
  | .typeVariable _ => rfl
  | .array element => JavaType.names_mapNames element

theorem ClassType.names_mapNames : (t : ClassType) → (t.mapNames f).names = t.names.map f
  | ⟨name, arguments, suffixes⟩ => by
    simp only [ClassType.mapNames, ClassType.names, List.map_append, List.map_cons,
      TypeArgument.listNames_mapNames arguments, SimpleClassType.suffixNames_mapNames suffixes]

theorem SimpleClassType.names_mapNames :
    (t : SimpleClassType) → (t.mapNames f).names = t.names.map f
  | ⟨_, arguments⟩ => TypeArgument.listNames_mapNames arguments

theorem SimpleClassType.suffixNames_mapNames : (ts : List SimpleClassType) →
    SimpleClassType.suffixNames (SimpleClassType.mapSuffixNames f ts) =
      (SimpleClassType.suffixNames ts).map f
  | [] => rfl
  | t :: ts => by
    simp only [SimpleClassType.mapSuffixNames, SimpleClassType.suffixNames, List.map_append,
      SimpleClassType.names_mapNames t, SimpleClassType.suffixNames_mapNames ts]

theorem TypeArgument.names_mapNames : (t : TypeArgument) → (t.mapNames f).names = t.names.map f
  | .wildcard => rfl
  | .concrete _ t => ReferenceType.names_mapNames t

theorem TypeArgument.listNames_mapNames : (ts : List TypeArgument) →
    TypeArgument.listNames (TypeArgument.mapListNames f ts) = (TypeArgument.listNames ts).map f
  | [] => rfl
  | t :: ts => by
    simp only [TypeArgument.mapListNames, TypeArgument.listNames, List.map_append,
      TypeArgument.names_mapNames t, TypeArgument.listNames_mapNames ts]

end

theorem TypeParameter.names_mapNames (p : TypeParameter) :
    (p.mapNames f).names = p.names.map f := by
  obtain ⟨name, classBound, interfaceBounds⟩ := p
  have hclass : (classBound.map (ReferenceType.mapNames f)).elim [] ReferenceType.names =
      (classBound.elim [] ReferenceType.names).map f := by
    cases classBound with
    | none => rfl
    | some t => exact t.names_mapNames f
  simp only [TypeParameter.mapNames, TypeParameter.names, List.map_append, List.flatMap_map,
    List.map_flatMap, ReferenceType.names_mapNames, hclass]

theorem Signature.names_mapNames (s : Signature) : (s.mapNames f).names = s.names.map f := by
  cases s with
  | ofClass s =>
    simp only [Signature.mapNames, Signature.names, ClassSignature.mapNames, ClassSignature.names,
      List.map_append, List.flatMap_map, List.map_flatMap, TypeParameter.names_mapNames,
      ClassType.names_mapNames]
  | ofField t => exact t.names_mapNames f
  | ofMethod s =>
    obtain ⟨typeParameters, parameters, result, throws⟩ := s
    have hresult : (result.map (JavaType.mapNames f)).elim [] JavaType.names =
        (result.elim [] JavaType.names).map f := by
      cases result with
      | none => rfl
      | some t => exact t.names_mapNames f
    simp only [Signature.mapNames, Signature.names, MethodSignature.mapNames, MethodSignature.names,
      List.map_append, List.flatMap_map, List.map_flatMap, TypeParameter.names_mapNames,
      JavaType.names_mapNames, ReferenceType.names_mapNames, hresult]

end Signatures

/-! ## Cutting -/

namespace Text

variable {sep : Char} {cs before after : List Char}

theorem splitLast?_eq_none (h : sep ∉ cs) : splitLast? sep cs = none := by
  induction cs with
  | nil => rfl
  | cons c cs ih =>
    rw [List.mem_cons, not_or] at h
    rw [splitLast?, ih h.2]
    exact if_neg fun e => h.1 e.symm

theorem splitLast?_append (h : sep ∉ after) :
    splitLast? sep (before ++ sep :: after) = some (before, after) := by
  induction before with
  | nil =>
    rw [List.nil_append, splitLast?, splitLast?_eq_none h]
    exact if_pos rfl
  | cons c before ih => rw [List.cons_append, splitLast?, ih]

theorem not_mem_of_splitLast?_eq_none (h : splitLast? sep cs = none) : sep ∉ cs := by
  induction cs with
  | nil => exact List.not_mem_nil
  | cons c cs ih =>
    unfold splitLast? at h
    split at h
    · cases h
    · rename_i hnone
      split at h
      · cases h
      · rename_i hne
        rw [List.mem_cons, not_or]
        exact ⟨fun e => hne e.symm, ih hnone⟩

theorem not_mem_of_splitLast? (h : splitLast? sep cs = some (before, after)) : sep ∉ after := by
  induction cs generalizing before with
  | nil => cases h
  | cons c cs ih =>
    unfold splitLast? at h
    split at h
    · rename_i before' after' hcs
      cases h
      exact ih hcs
    · rename_i hnone
      split at h
      · cases h
        exact not_mem_of_splitLast?_eq_none hnone
      · cases h

end Text

/-! ## Packages -/

namespace Table

variable {t : Table} {text new package : String} {form : NameForm}

/-- The new name of a package is the replacement of a rule, and if the rule is a wildcard what the
old name has more than its key. -/
theorem exists_rule_of_rename (h : t.rename package form = some new) :
    ∃ r ∈ t.rules, ∃ rest, package.toList = (r.inForm form).key.toList ++ rest ∧
      new.toList = (r.inForm form).replacement.toList ++ rest ∧
      (rest = [] ∨ r.wildcard = true ∧ endsName true rest = true) := by
  obtain ⟨hcandidate, -⟩ := Option.filter_eq_some_iff.1 h
  rcases Option.or_eq_some_iff.1 hcandidate with h | ⟨-, h⟩
  · obtain ⟨r, hr, happly⟩ := List.exists_of_findSome?_eq_some h
    obtain ⟨r, hrule, rfl⟩ := mem_ordered.1 hr
    unfold Rule.applyExactly? at happly
    split at happly
    · rename_i hkey
      cases happly
      obtain ⟨-, hkey⟩ := Bool.and_eq_true_iff.1 hkey
      refine ⟨r, hrule, [], ?_, (List.append_nil _).symm, .inl rfl⟩
      rw [List.append_nil, eq_of_beq hkey]
    · cases happly
  · obtain ⟨r, hr, happly⟩ := List.exists_of_findSome?_eq_some h
    obtain ⟨r, hrule, rfl⟩ := mem_ordered.1 hr
    unfold Rule.applyBelow? at happly
    split at happly
    · rename_i hwildcard
      split at happly
      · rename_i rest hprefix
        split at happly
        · rename_i hends
          cases happly
          refine ⟨r, hrule, rest, (List.isPrefixOf?_eq_some_iff_append_eq.1 hprefix).symm, ?_,
            .inr ⟨hwildcard, hends⟩⟩
          rw [String.toList_append, String.toList_ofList]
        · cases happly
      · cases happly
    · cases happly

/-- No renamed package is renamed again. -/
def RenamesOnce (t : Table) : Prop :=
  ∀ form package new, t.rename package form = some new → t.rename new form = none

/-- The table renames no renamed package again, and to names with no characters in them that end
a name but dots. Wildcards do not take the start of a name away. -/
structure Settling (t : Table) : Prop where
  once : t.RenamesOnce
  names : ∀ r ∈ t.rules, ∀ c ∈ r.replacement.toList, endsClassName c = true → c = '.'
  wildcards : ∀ r ∈ t.rules, r.wildcard = true → r.replacement ≠ ""

theorem Settling.replacement (ht : t.Settling) {r : Rule} (hr : r ∈ t.rules) :
    ∀ c ∈ (r.inForm .binary).replacement.toList, endsClassName c = false := by
  simp only [Rule.inForm, NameForm.spell, String.toList_ofList, Text.replaceChar]
  intro c hc
  obtain ⟨d, hd, rfl⟩ := List.mem_map.1 hc
  split
  · rfl
  · rename_i hdot
    exact eq_false_of_ne_true fun hends => hdot (ht.names r hr d hd hends)

/-- The new name of a package does not start like that of an array. -/
theorem Settling.head_rename (ht : t.Settling) (h : t.rename package .binary = some new) :
    new.toList.head? ≠ some '[' := by
  obtain ⟨r, hr, rest, -, hnew, hrest⟩ := exists_rule_of_rename h
  intro hhead
  rw [hnew, List.head?_append] at hhead
  rcases Option.or_eq_some_iff.1 hhead with hhead | ⟨hempty, hhead⟩
  · cases ht.replacement hr '[' (List.mem_of_head? hhead)
  · rcases hrest with rfl | ⟨hwildcard, -⟩
    · cases hhead
    · refine ht.wildcards r hr hwildcard ?_
      rw [List.head?_eq_none_iff] at hempty
      simpa [Rule.inForm, NameForm.spell, Text.replaceChar] using hempty

theorem Settling.mem_rename (ht : t.Settling) (h : t.rename package .binary = some new) {c : Char}
    (hc : c ∈ new.toList) : endsClassName c = false ∨ c ∈ package.toList := by
  obtain ⟨r, hr, rest, hold, hnew, -⟩ := exists_rule_of_rename h
  rw [hnew] at hc
  rw [hold]
  rcases List.mem_append.1 hc with hc | hc
  · exact .inl (ht.replacement hr c hc)
  · exact .inr (List.mem_append_right _ hc)

/-! ## Classes -/

theorem renameTypeChars_package {name : List Char} (hname : name.head? ≠ some '[') :
    t.renameTypeChars name = (Text.splitLast? '/' name).bind fun parts =>
      (t.rename (String.ofList parts.1) .binary).bind fun package =>
        some (package.toList ++ '/' :: parts.2) := by
  rw [renameTypeChars.eq_def]
  split
  · exact absurd rfl hname
  · rfl

theorem renameTypeChars_array {dimensions element : List Char}
    (hdimensions : ∀ c ∈ dimensions, c = '[') :
    t.renameTypeChars ('[' :: dimensions ++ 'L' :: element ++ [';']) =
      (t.renameTypeChars element).map fun renamed =>
        '[' :: dimensions ++ 'L' :: renamed ++ [';'] := by
  obtain ⟨htake, hdrop⟩ := Parser.takeWhile_append (· = '[') dimensions
    ('L' :: element ++ [';']) (fun c hc => decide_eq_true (hdimensions c hc))
    (fun c hc => by cases hc; rfl)
  have helement : elementClass? ('L' :: element ++ [';']) = some element := by
    simp [elementClass?]
  rw [List.append_assoc, List.cons_append, renameTypeChars]
  split
  · rename_i hnone
    rw [hdrop, helement] at hnone
    cases hnone
  · rename_i element' hsome
    rw [hdrop, helement] at hsome
    cases hsome
    rw [htake]

/-- The new name of a class is not renamed. -/
theorem Settling.renameTypeChars_again (ht : t.Settling) {name new : List Char}
    (h : t.renameTypeChars name = some new) : t.renameTypeChars new = none := by
  fun_induction renameTypeChars t name generalizing new with
  | case1 rest hnone => cases h
  | case2 rest dimensions element helement =>
    rename_i ih
    obtain ⟨renamed, hrenamed, rfl⟩ := Option.map_eq_some_iff.1 h
    rw [renameTypeChars_array, ih hrenamed, Option.map_none]
    exact fun c hc => of_decide_eq_true (List.all_eq_true.1 List.all_takeWhile c hc)
  | case3 name _ =>
    obtain ⟨parts, hparts, h⟩ := Option.bind_eq_some_iff.1 h
    obtain ⟨package, hpackage, h⟩ := Option.bind_eq_some_iff.1 h
    cases h
    have hhead : (package.toList ++ '/' :: parts.2).head? ≠ some '[' := by
      intro hhead
      rw [List.head?_append] at hhead
      rcases Option.or_eq_some_iff.1 hhead with hhead | ⟨-, hhead⟩
      · exact ht.head_rename hpackage hhead
      · cases hhead
    rw [renameTypeChars_package hhead, Text.splitLast?_append (Text.not_mem_of_splitLast? hparts),
      Option.bind_some, String.ofList_toList, ht.once _ _ _ hpackage, Option.bind_none]

theorem Settling.renameType_again (ht : t.Settling) (h : t.renameType text = some new) :
    t.renameType new = none := by
  obtain ⟨cs, hcs, rfl⟩ := Option.map_eq_some_iff.1 h
  rw [renameType, String.toList_ofList, ht.renameTypeChars_again hcs, Option.map_none]

theorem Settling.renameType_getD (ht : t.Settling) (name : String) :
    t.renameType ((t.renameType name).getD name) = none := by
  cases h : t.renameType name with
  | none => exact h
  | some new => exact ht.renameType_again h

/-- A class that is renamed has no characters of a kind that it had not. -/
theorem Settling.mem_renameTypeChars (ht : t.Settling) {name new : List Char}
    (h : t.renameTypeChars name = some new) {c : Char} (hc : c ∈ new) :
    endsClassName c = false ∨ c ∈ name := by
  fun_induction renameTypeChars t name generalizing new with
  | case1 rest hnone => cases h
  | case2 rest dimensions element helement =>
    rename_i ih
    obtain ⟨renamed, hrenamed, rfl⟩ := Option.map_eq_some_iff.1 h
    have hrest : rest = dimensions ++ ('L' :: element ++ [';']) := by
      rw [← eq_of_elementClass? helement, List.takeWhile_append_dropWhile]
    rw [hrest]
    have := @ih renamed hrenamed
    grind
  | case3 name _ =>
    obtain ⟨parts, hparts, h⟩ := Option.bind_eq_some_iff.1 h
    obtain ⟨package, hpackage, h⟩ := Option.bind_eq_some_iff.1 h
    cases h
    rw [Text.eq_of_splitLast? hparts]
    rcases List.mem_append.1 hc with hc | hc
    · refine (ht.mem_rename hpackage hc).imp_right fun hc => List.mem_append_left _ ?_
      rwa [String.toList_ofList] at hc
    · exact .inr (List.mem_append_right _ hc)

/-! ## Descriptors and signatures -/

theorem Settling.renameName_newName (ht : t.Settling) (name : BinaryName) :
    t.renameName (t.newName name) = none := by
  cases h : t.renameName name with
  | none => rw [newName, h, Option.getD_none, h]
  | some name' =>
    obtain ⟨renamed, hrenamed, hok⟩ := Option.bind_eq_some_iff.1 h
    have hname : BinaryName.ofString renamed = .ok name' := by
      cases hname : BinaryName.ofString renamed with
      | error e => rw [hname] at hok; cases hok
      | ok name => rw [hname] at hok; cases hok; rfl
    rw [newName, h, Option.getD_some, renameName, BinaryName.text_of_ofString hname,
      ht.renameType_again hrenamed, Option.bind_none]

theorem Settling.renameDescriptor_again (ht : t.Settling)
    (h : t.renameDescriptor text = .ok (some new)) : t.renameDescriptor new = .ok none := by
  obtain ⟨d, -, hnew⟩ := renameDescriptor_eq_ok h
  obtain ⟨d', hd', rfl⟩ := Option.map_eq_some_iff.1 hnew.symm
  have hnames : d'.names = d.names.map t.newName := by
    rw [← Descriptor.names_mapNames, ← getD_renameTree, hd', Option.getD_some]
  rw [renameDescriptor, Descriptor.parse_render]
  dsimp only
  rw [renameTree_eq_none, Option.map_none]
  intro name hname
  rw [hnames] at hname
  obtain ⟨n, -, rfl⟩ := List.mem_map.1 hname
  exact ht.renameName_newName n

theorem Settling.renameClassLiteral_again (ht : t.Settling)
    (h : t.renameClassLiteral text = .ok (some new)) : t.renameClassLiteral new = .ok none := by
  unfold renameClassLiteral at h ⊢
  split at h
  · cases h
  · split
    · rfl
    · exact ht.renameDescriptor_again h

/-- No name gets a character that ends it. -/
theorem Settling.ends_renameType (ht : t.Settling) (name : String)
    (hname : ∀ c ∈ name.toList, endsClassName c = false) :
    ∀ c ∈ ((t.renameType name).getD name).toList, endsClassName c = false := by
  intro c hc
  cases h : t.renameType name with
  | none =>
    rw [h] at hc
    exact hname c hc
  | some new =>
    rw [h] at hc
    obtain ⟨cs, hcs, rfl⟩ := Option.map_eq_some_iff.1 h
    rw [Option.getD_some, String.toList_ofList] at hc
    exact (ht.mem_renameTypeChars hcs hc).elim id (hname c)

theorem Settling.renameSignature_again (ht : t.Settling) {kind : SignatureKind}
    (h : t.renameSignature kind text = .ok (some new)) {x : String} :
    t.renameSignature kind new ≠ .ok (some x) := by
  unfold renameSignature at h
  split at h
  · cases h
  · rename_i s hs
    obtain ⟨s', hs', rfl⟩ := Option.map_eq_some_iff.1 (Except.ok.inj h)
    have hmap : s' = s.mapNames fun name => (t.renameType name).getD name := by
      rw [renameSignatureTree_eq] at hs'
      split at hs'
      · exact (Option.some.inj hs').symm
      · cases hs'
    subst hmap
    intro h'
    unfold renameSignature at h'
    split at h'
    · cases h'
    · -- what is read is the tree that was written, whose names are all renamed
      rename_i y hy
      rw [Signature.eq_of_parse_mapNames ht.ends_renameType hs hy] at h'
      rw [renameSignatureTree_eq_none] at h'
      · cases h'
      · intro name hname
        rw [Signature.names_mapNames] at hname
        obtain ⟨n, -, rfl⟩ := List.mem_map.1 hname
        exact ht.renameType_getD n

end Table

/-- What is renamed in any role but as plain text is not renamed again in that role. -/
theorem Role.rename_again {t : Table} (ht : t.Settling) {role : Role} (hrole : role ≠ .plain)
    {text new x : String} (h : role.rename t text = .ok (some new)) :
    role.rename t new ≠ .ok (some x) := by
  intro h'
  cases role with
  | className => cases (ht.renameType_again (Except.ok.inj h)).symm.trans (Except.ok.inj h')
  | descriptor => cases (ht.renameDescriptor_again h).symm.trans h'
  | classLiteral => cases (ht.renameClassLiteral_again h).symm.trans h'
  | signature kind => exact ht.renameSignature_again h h'
  | plain => exact hrole rfl

end Repackage
