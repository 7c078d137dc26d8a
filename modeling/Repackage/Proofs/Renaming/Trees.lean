import Repackage.Proofs.Renaming.Distinct
import Repackage.Proofs.Renaming.Stability

/-!
# Renaming through the tree of a text

A walk over a tree exchanges all its names and sees whether one of them moves
(`Table.renameTree_eq`), and a class in a descriptor has a new name just if that is another one
(`Table.newName_eq_self`). So a descriptor is renamed just if one of its names moves, and the text
that is written for it is read back as its tree with each name exchanged for the new one
(`Table.renameDescriptor_mapNames`). A text that is no descriptor is refused with the cause for which
it cannot be read.

Names in signatures have no such check: what a rule leads to is written as it is. If all rules lead
to names joined by dots (`Table.LeadsToNames`) then a new name has nothing in it that ends names,
and a signature too is read back as its tree with the new names (`Table.renameSignature_mapNames`).
-/

namespace Repackage

namespace Table

/-! ## Descriptors -/

section Descriptors

variable {t : Table} {text : String} {d : Descriptor}

theorem newName_eq_self {name : BinaryName} :
    t.newName name = name ↔ t.renameName name = none := by
  unfold newName
  cases h : t.renameName name with
  | none => exact ⟨fun _ => rfl, fun _ => rfl⟩
  | some new => exact ⟨fun e => absurd e (renameName_ne h), fun e => by cases e⟩

theorem renameTree_eq_none_iff :
    t.renameTree d = none ↔ ∀ name ∈ d.names, t.newName name = name := by
  constructor
  · intro h name hname
    rw [newName_eq_self, ← Option.not_isSome_iff_eq_none]
    intro hsome
    rw [renameTree_eq, if_pos (List.any_eq_true.2 ⟨name, hname, hsome⟩)] at h
    cases h
  · exact fun h => renameTree_eq_none fun name hname => newName_eq_self.1 (h name hname)

theorem renameTree_of_moves (h : ¬ ∀ name ∈ d.names, t.newName name = name) :
    t.renameTree d = some (d.mapNames t.newName) := by
  cases htree : t.renameTree d with
  | none => exact absurd (renameTree_eq_none_iff.1 htree) h
  | some d' => rw [← getD_renameTree, htree, Option.getD_some]

theorem renameDescriptor_of_parse (h : Descriptor.parse text = .ok d) :
    t.renameDescriptor text = .ok ((t.renameTree d).map Descriptor.render) := by
  rw [renameDescriptor, h]

theorem renameDescriptor_eq_error {e : ClassError} :
    t.renameDescriptor text = .error e ↔
      ∃ cause, Descriptor.parse text = .error cause ∧ e = .badDescriptor text cause := by
  rw [renameDescriptor]
  cases Descriptor.parse text with
  | error cause =>
    constructor
    · intro h
      cases h
      exact ⟨cause, rfl, rfl⟩
    · rintro ⟨cause', h, rfl⟩
      cases h
      rfl
  | ok d =>
    constructor
    · intro h
      cases h
    · rintro ⟨cause, h, -⟩
      cases h

/-- A text fails to be renamed as a descriptor just if it cannot be read as one. A descriptor is
kept just if all its names are, and else has its tree mapped to new names. -/
theorem renameDescriptor_mapNames (t : Table) (text : String) :
    (∀ e, t.renameDescriptor text = .error e ↔
      ∃ cause, Descriptor.parse text = .error cause ∧ e = .badDescriptor text cause) ∧
    ∀ d, Descriptor.parse text = .ok d →
      (t.renameDescriptor text = .ok none ↔ ∀ name ∈ d.names, t.newName name = name) ∧
      ((∃ name ∈ d.names, t.newName name ≠ name) →
        ∃ new, t.renameDescriptor text = .ok (some new) ∧ new ≠ text ∧
          Descriptor.parse new = .ok (d.mapNames t.newName)) := by
  refine ⟨fun e => renameDescriptor_eq_error, fun d hd => ⟨?_, ?_⟩⟩
  · rw [renameDescriptor_of_parse hd, Except.ok.injEq, Option.map_eq_none_iff,
      renameTree_eq_none_iff]
  · rintro ⟨name, hname, hmoves⟩
    have htree : t.renameTree d = some (d.mapNames t.newName) :=
      renameTree_of_moves fun hall => hmoves (hall name hname)
    have hnew : t.renameDescriptor text = .ok (some (d.mapNames t.newName).render) := by
      rw [renameDescriptor_of_parse hd, htree, Option.map_some]
    exact ⟨_, hnew, renameDescriptor_ne hnew, Descriptor.parse_render _⟩

/-- The packages below `p.a` move, and the new name of `r.s` has an empty part. -/
def halting : Table := .ofSorted [⟨"p.a", "q", true⟩, ⟨"r.s", "x..y", false⟩]

/-- A method with an array of classes that move, a class whose new name is refused and one that no
rule is about. -/
def mixed : Descriptor :=
  .method {
    parameters := [.ref (.objectArray 1 ⟨"p/a/b/In", by decide +kernel⟩), .base .int,
      .ref (.object ⟨"r/s/T", by decide +kernel⟩)]
    result := some (.ref (.object ⟨"Out", by decide +kernel⟩)) }

theorem renameDescriptor_mapNames_mixed :
    Descriptor.parse "([[Lp/a/b/In;ILr/s/T;)LOut;" = .ok mixed ∧
      (∃ name ∈ mixed.names, halting.newName name ≠ name) ∧
      ∃ new, halting.renameDescriptor "([[Lp/a/b/In;ILr/s/T;)LOut;" = .ok (some new) ∧
        new ≠ "([[Lp/a/b/In;ILr/s/T;)LOut;" ∧
        Descriptor.parse new = .ok (mixed.mapNames halting.newName) :=
  have hparse : Descriptor.parse "([[Lp/a/b/In;ILr/s/T;)LOut;" = .ok mixed := by decide +kernel
  have hmoves : ∃ name ∈ mixed.names, halting.newName name ≠ name := by decide +kernel
  ⟨hparse, hmoves, ((renameDescriptor_mapNames halting _).2 mixed hparse).2 hmoves⟩

end Descriptors

/-! ## Signatures -/

/-- Every rule leads to a list of names with dots between them. None of the names is empty or has
one of the characters in it that end a name in a signature. -/
def LeadsToNames (t : Table) : Prop :=
  ∀ r ∈ t.rules, ∀ part ∈ Text.segments '.' r.replacement.toList,
    part ≠ [] ∧ ∀ c ∈ part, c ∉ [';', '[', '<', '>', ':']

instance : DecidablePred LeadsToNames := fun t =>
  decidable_of_iff ((t.rules.all fun r => (Text.segments '.' r.replacement.toList).all fun part =>
      !part.isEmpty && part.all fun c => !List.contains [';', '[', '<', '>', ':'] c) = true)
    (by simp [LeadsToNames])

section Signatures

variable {t : Table} {kind : SignatureKind} {text : String} {s : Signature}

theorem LeadsToNames.replacement (hnames : t.LeadsToNames) (ht : t.Built) {r : Rule}
    (hr : r ∈ t.rules) : IsQualifiedName (r.inForm .binary).replacement.toList := by
  have hslash : '/' ∉ r.replacement.toList := (ht.wellFormed.dotted r hr).2
  have hsegments : Text.segments '/' (r.inForm .binary).replacement.toList =
      Text.segments '.' r.replacement.toList := by
    show Text.segments '/' (NameForm.binary.spell r.replacement).toList = _
    rw [NameForm.spell, String.toList_ofList]
    exact Text.segments_replaceChar hslash
  rw [IsQualifiedName, hsegments]
  intro part hpart
  obtain ⟨hne, hchars⟩ := hnames r hr part hpart
  refine ⟨hne, fun c hc => ?_⟩
  have hdot : c ≠ '.' := by
    rintro rfl
    exact Text.not_mem_of_mem_segments hpart hc
  have hslash' : c ≠ '/' := by
    rintro rfl
    exact hslash (Text.mem_of_mem_segments hpart hc)
  have := hchars c hc
  simp_all [isSignatureDelimiter, isNameSeparator]

/-- A renamed class has a name that can be written in a signature. -/
theorem LeadsToNames.renameTypeChars (hnames : t.LeadsToNames) (ht : t.Built)
    {name new : List Char} (hname : IsQualifiedName name)
    (h : t.renameTypeChars name = some new) : IsQualifiedName new := by
  have hhead : name.head? ≠ some '[' := fun e => by
    cases hname.endsClassName '[' (List.mem_of_head? e)
  rw [renameTypeChars_package hhead] at h
  obtain ⟨parts, hparts, h⟩ := Option.bind_eq_some_iff.1 h
  obtain ⟨package, hpackage, h⟩ := Option.bind_eq_some_iff.1 h
  cases h
  obtain ⟨r, hr, rest, hold, hnew, -⟩ := exists_rule_of_rename hpackage
  rw [String.toList_ofList] at hold
  rw [Text.eq_of_splitLast? hparts, hold, List.append_assoc] at hname
  rw [hnew, List.append_assoc]
  exact (hnames.replacement ht hr).exchangeStart hname

theorem LeadsToNames.keepsNames (hnames : t.LeadsToNames) (ht : t.Built) :
    KeepsNames fun name => (t.renameType name).getD name := by
  intro name hname
  dsimp only
  cases h : t.renameType name with
  | none => exact hname
  | some new =>
    obtain ⟨cs, hcs, rfl⟩ := Option.map_eq_some_iff.1 h
    rw [Option.getD_some, String.toList_ofList]
    exact hnames.renameTypeChars ht hname hcs

theorem renameSignatureTree_eq_none_iff :
    t.renameSignatureTree s = none ↔ ∀ name ∈ s.names, t.renameType name = none := by
  refine ⟨fun h name hname => ?_, renameSignatureTree_eq_none⟩
  rw [← Option.not_isSome_iff_eq_none]
  intro hsome
  rw [renameSignatureTree_eq, if_pos (List.any_eq_true.2 ⟨name, hname, hsome⟩)] at h
  cases h

theorem renameSignatureTree_of_moves (h : ∃ name ∈ s.names, t.renameType name ≠ none) :
    t.renameSignatureTree s = some (s.mapNames fun name => (t.renameType name).getD name) := by
  obtain ⟨name, hname, hmoves⟩ := h
  rw [renameSignatureTree_eq]
  exact if_pos (List.any_eq_true.2 ⟨name, hname, Option.isSome_iff_ne_none.2 hmoves⟩)

theorem renameSignature_of_parse (h : Signature.parse kind text = .ok s) :
    t.renameSignature kind text = .ok ((t.renameSignatureTree s).map Signature.render) := by
  rw [renameSignature, h]

/-- A signature is kept just if all classes in it are, and else has its tree mapped to new names.
All else in the tree stays as it is. -/
theorem renameSignature_mapNames (ht : t.Built) (hnames : t.LeadsToNames)
    (hs : Signature.parse kind text = .ok s) :
    (t.renameSignature kind text = .ok none ↔ ∀ name ∈ s.names, t.renameType name = none) ∧
      ((∃ name ∈ s.names, t.renameType name ≠ none) →
        ∃ new, t.renameSignature kind text = .ok (some new) ∧ new ≠ text ∧
          Signature.parse kind new =
            .ok (s.mapNames fun name => (t.renameType name).getD name)) := by
  constructor
  · rw [renameSignature_of_parse hs, Except.ok.injEq, Option.map_eq_none_iff,
      renameSignatureTree_eq_none_iff]
  · intro hmoves
    obtain ⟨-, hkind, hwf⟩ := Signature.render_of_parse hs
    have hnew : t.renameSignature kind text =
        .ok (some (s.mapNames fun name => (t.renameType name).getD name).render) := by
      rw [renameSignature_of_parse hs, renameSignatureTree_of_moves hmoves, Option.map_some]
    refine ⟨_, hnew, renameSignature_ne hnew, ?_⟩
    have hread := Signature.parse_render (hwf.mapNames (hnames.keepsNames ht))
    rwa [Signature.kind_mapNames, hkind] at hread

/-- The packages `p.a` and below go to `q.b`, and `r.s` goes to `t`. -/
def spreading : Table := .ofSorted [⟨"p.a", "q.b", true⟩, ⟨"r.s", "t", false⟩]

theorem built_spreading : spreading.Built :=
  .build (.rename "r.s" "t" (.rename "p.a.*" "q.b" .start))
    (Builder.build_of_parts (by decide +kernel) rfl rfl rfl rfl)

/-- Classes that move in the bounds of a parameter, as a superclass with members and in the
arguments of both, and classes that stay. -/
def generic : Signature :=
  .ofClass {
    typeParameters := [⟨"T",
      some (.classType ⟨"p/a/Base", [.concrete (some .lower) (.typeVariable "T")], []⟩),
      [.classType ⟨"r/s/Face", [], []⟩]⟩]
    superclass := ⟨"p/a/b/Up",
      [.concrete none (.array (.reference (.classType ⟨"r/s/X", [], []⟩))), .wildcard],
      [⟨"In", [.concrete (some .upper) (.classType ⟨"p/b/C", [], []⟩)]⟩]⟩
    interfaces := [⟨"Free", [], []⟩] }

theorem renameSignature_mapNames_generic :
    spreading.Built ∧ spreading.LeadsToNames ∧
      Signature.parse .ofClass
        "<T:Lp/a/Base<-TT;>;:Lr/s/Face;>Lp/a/b/Up<[Lr/s/X;*>.In<+Lp/b/C;>;LFree;" = .ok generic ∧
      ∃ new, spreading.renameSignature .ofClass
          "<T:Lp/a/Base<-TT;>;:Lr/s/Face;>Lp/a/b/Up<[Lr/s/X;*>.In<+Lp/b/C;>;LFree;" =
            .ok (some new) ∧
        new ≠ "<T:Lp/a/Base<-TT;>;:Lr/s/Face;>Lp/a/b/Up<[Lr/s/X;*>.In<+Lp/b/C;>;LFree;" ∧
        Signature.parse .ofClass new =
          .ok (generic.mapNames fun name => (spreading.renameType name).getD name) :=
  have hnames : spreading.LeadsToNames := by decide +kernel
  have hrender : generic.render =
      "<T:Lp/a/Base<-TT;>;:Lr/s/Face;>Lp/a/b/Up<[Lr/s/X;*>.In<+Lp/b/C;>;LFree;" := by
    decide +kernel
  have hwf : generic.WellFormed := by decide +kernel
  have hparse : Signature.parse .ofClass
      "<T:Lp/a/Base<-TT;>;:Lr/s/Face;>Lp/a/b/Up<[Lr/s/X;*>.In<+Lp/b/C;>;LFree;" = .ok generic := by
    have hread := Signature.parse_render hwf
    rwa [hrender, show generic.kind = .ofClass from rfl] at hread
  have hmoves : ∃ name ∈ generic.names, spreading.renameType name ≠ none := by decide +kernel
  ⟨built_spreading, hnames, hparse,
    (renameSignature_mapNames built_spreading hnames hparse).2 hmoves⟩

end Signatures

end Table

end Repackage
