import Repackage.Proofs.Encoding.Decoding
import Repackage.Proofs.Renaming.Names

/-!
# A renamed class is read again

Renaming keeps the skeleton of a class, and all that makes a class well-formed is in its skeleton
but for the names of its attributes. As long as no attribute gets or loses a name that is known
(`ClassFile.LabelsKept`), a class that was read and renamed is thus well-formed, and what is read
from its bytes is the renamed class (`Table.parse_renamed`).
-/

namespace Repackage

/-! ## Skeletons -/

mutual

theorem ElementValue.wellFormed_skeleton (v : ElementValue) :
    v.skeleton.WellFormed ↔ v.WellFormed := by
  cases v with
  | const tag value => rfl
  | enumConst type name => simp only [ElementValue.skeleton, ElementValue.WellFormed]
  | classLiteral type => simp only [ElementValue.skeleton, ElementValue.WellFormed]
  | nested a =>
    rw [ElementValue.skeleton, ElementValue.WellFormed, ElementValue.WellFormed]
    exact AnnotationInfo.wellFormed_skeleton a
  | array vs =>
    rw [ElementValue.skeleton, ElementValue.WellFormed, ElementValue.WellFormed]
    exact ElementValue.allWellFormed_skeletons vs
termination_by structural v

theorem ElementValue.allWellFormed_skeletons (vs : List ElementValue) :
    ElementValue.AllWellFormed (ElementValue.skeletons vs) ↔ ElementValue.AllWellFormed vs := by
  cases vs with
  | nil => rfl
  | cons v vs =>
    rw [ElementValue.skeletons, ElementValue.AllWellFormed, ElementValue.AllWellFormed,
      ElementValue.wellFormed_skeleton v, ElementValue.allWellFormed_skeletons vs]
termination_by structural vs

theorem AnnotationInfo.wellFormed_skeleton (a : AnnotationInfo) :
    a.skeleton.WellFormed ↔ a.WellFormed := by
  cases a with
  | mk type elements =>
    rw [AnnotationInfo.skeleton, AnnotationInfo.WellFormed, AnnotationInfo.WellFormed]
    exact AnnotationInfo.elementsWellFormed_skeletons elements
termination_by structural a

theorem AnnotationInfo.elementsWellFormed_skeletons (es : List (Index × ElementValue)) :
    AnnotationInfo.ElementsWellFormed (AnnotationInfo.elementSkeletons es) ↔
      AnnotationInfo.ElementsWellFormed es := by
  cases es with
  | nil => rfl
  | cons e es =>
    cases e with
    | mk name v =>
      rw [AnnotationInfo.elementSkeletons, AnnotationInfo.ElementsWellFormed,
        AnnotationInfo.ElementsWellFormed, ElementValue.wellFormed_skeleton v,
        AnnotationInfo.elementsWellFormed_skeletons es]
termination_by structural es

end

theorem TypeAnnotationInfo.wellFormed_skeleton (a : TypeAnnotationInfo) :
    a.skeleton.WellFormed ↔ a.WellFormed :=
  and_congr_right fun _ => a.info.wellFormed_skeleton

theorem AttributeBody.label?_skeleton (body : AttributeBody) :
    body.skeleton.label? = body.label? := by
  cases body with
  | annotations retention as => cases retention <;> rfl
  | parameterAnnotations retention ps => cases retention <;> rfl
  | typeAnnotations retention as => cases retention <;> rfl
  | _ => rfl

theorem AttributeBody.fits_skeleton {name : String} (body : AttributeBody) :
    body.skeleton.Fits name ↔ body.Fits name := by
  rw [Fits, Fits, label?_skeleton]

section Attributes

variable (p : Pool)

mutual

theorem Attribute.wellFormed_skeleton (a : Attribute) :
    a.skeleton.WellFormed p ↔ a.WellFormed p := by
  cases a with
  | mk name body =>
    simp only [Attribute.skeleton, Attribute.WellFormed, AttributeBody.fits_skeleton,
      AttributeBody.wellFormed_skeleton body]
termination_by structural a

theorem AttributeBody.wellFormed_skeleton (body : AttributeBody) :
    body.skeleton.WellFormed p ↔ body.WellFormed p := by
  cases body with
  | code c =>
    rw [AttributeBody.skeleton, AttributeBody.WellFormed, AttributeBody.WellFormed]
    exact Code.wellFormed_skeleton c
  | annotations retention as =>
    simp only [AttributeBody.skeleton, AttributeBody.WellFormed, List.forall_mem_map,
      AnnotationInfo.wellFormed_skeleton]
  | parameterAnnotations retention ps =>
    simp only [AttributeBody.skeleton, AttributeBody.WellFormed, List.forall_mem_map,
      AnnotationInfo.wellFormed_skeleton]
  | typeAnnotations retention as =>
    simp only [AttributeBody.skeleton, AttributeBody.WellFormed, List.forall_mem_map,
      TypeAnnotationInfo.wellFormed_skeleton]
  | annotationDefault value =>
    simp only [AttributeBody.skeleton, AttributeBody.WellFormed, ElementValue.wellFormed_skeleton]
  | _ => simp only [AttributeBody.skeleton, AttributeBody.WellFormed]
termination_by structural body

theorem Code.wellFormed_skeleton (c : Code) : c.skeleton.WellFormed p ↔ c.WellFormed p := by
  cases c with
  | mk maxStack maxLocals instructions handlers attributes =>
    rw [Code.skeleton, Code.WellFormed, Code.WellFormed, Attribute.allWellFormed_skeletons attributes]
termination_by structural c

theorem Attribute.allWellFormed_skeletons (as : List Attribute) :
    Attribute.AllWellFormed p (Attribute.skeletons as) ↔ Attribute.AllWellFormed p as := by
  cases as with
  | nil => rfl
  | cons a as =>
    rw [Attribute.skeletons, Attribute.AllWellFormed, Attribute.AllWellFormed,
      Attribute.wellFormed_skeleton a, Attribute.allWellFormed_skeletons as]
termination_by structural as

end

end Attributes

/-! ## The names of attributes -/

/-- The text at `i` is a text still, and it is the same or neither is a name that is known. -/
def Pool.KeepsLabel (p p' : Pool) (i : Index) : Prop :=
  ∀ text, p.get i = .ok (.utf8 text) → ∃ text', p'.get i = .ok (.utf8 text') ∧
    (text' = text ∨ text ∉ AttributeBody.labels ∧ text' ∉ AttributeBody.labels)

theorem AttributeBody.mem_labels {body : AttributeBody} {label : String}
    (h : body.label? = some label) : label ∈ labels := by
  cases body with
  | annotations retention as => cases retention <;> cases h <;> decide
  | parameterAnnotations retention ps => cases retention <;> cases h <;> decide
  | typeAnnotations retention as => cases retention <;> cases h <;> decide
  | other bytes => cases h
  | _ => cases h; decide

theorem AttributeBody.Fits.exchange {body : AttributeBody} {text text' : String}
    (h : body.Fits text)
    (htexts : text' = text ∨ text ∉ AttributeBody.labels ∧ text' ∉ AttributeBody.labels) :
    body.Fits text' := by
  rcases htexts with rfl | ⟨hold, hnew⟩
  · exact h
  · unfold Fits at h ⊢
    split at h
    · rename_i label hlabel
      exact absurd (h ▸ mem_labels hlabel) hold
    · exact hnew

section Names

variable {p p' : Pool}

mutual

theorem Attribute.WellFormed.exchange (a : Attribute) (hp : ∀ i ∈ a.names, p.KeepsLabel p' i)
    (ha : a.WellFormed p) : a.WellFormed p' := by
  cases a with
  | mk name body =>
    rw [Attribute.WellFormed] at ha ⊢
    rw [Attribute.names, List.forall_mem_cons] at hp
    obtain ⟨⟨text, htext, hfits⟩, hbody⟩ := ha
    obtain ⟨text', htext', hsame⟩ := hp.1 text htext
    exact ⟨⟨text', htext', hfits.exchange hsame⟩, AttributeBody.WellFormed.exchange body hp.2 hbody⟩
termination_by structural a

theorem AttributeBody.WellFormed.exchange (body : AttributeBody)
    (hp : ∀ i ∈ body.names, p.KeepsLabel p' i) (hbody : body.WellFormed p) : body.WellFormed p' := by
  cases body with
  | code c =>
    rw [AttributeBody.WellFormed] at hbody ⊢
    exact Code.WellFormed.exchange c hp hbody
  | _ => exact hbody
termination_by structural body

theorem Code.WellFormed.exchange (c : Code) (hp : ∀ i ∈ c.names, p.KeepsLabel p' i)
    (hc : c.WellFormed p) : c.WellFormed p' := by
  cases c with
  | mk maxStack maxLocals instructions handlers attributes =>
    rw [Code.WellFormed] at hc ⊢
    exact ⟨hc.1, Attribute.AllWellFormed.exchange attributes hp hc.2⟩
termination_by structural c

theorem Attribute.AllWellFormed.exchange (as : List Attribute)
    (hp : ∀ i ∈ Attribute.listNames as, p.KeepsLabel p' i) (has : Attribute.AllWellFormed p as) :
    Attribute.AllWellFormed p' as := by
  cases as with
  | nil => trivial
  | cons a as =>
    rw [Attribute.AllWellFormed] at has ⊢
    rw [Attribute.listNames, List.forall_mem_append] at hp
    exact ⟨Attribute.WellFormed.exchange a hp.1 has.1,
      Attribute.AllWellFormed.exchange as hp.2 has.2⟩
termination_by structural as

end

end Names

/-! ## Pools -/

theorem Constant.wellFormed_skeleton (c : Constant) : c.skeleton.WellFormed ↔ c.WellFormed := by
  cases c <;> rfl

namespace Pool

variable {p p' : Pool}

theorem WellFormed.of_skeleton (h : p'.skeleton = p.skeleton) (hp : p.WellFormed) :
    p'.WellFormed := by
  intro c hc
  have hmem := List.mem_map_of_mem (f := Constant.skeleton) hc
  rw [map_toList_of_skeleton h] at hmem
  obtain ⟨d, hd, hskeleton⟩ := List.mem_map.1 hmem
  rw [← c.wellFormed_skeleton, ← hskeleton, d.wellFormed_skeleton]
  exact hp d hd

end Pool

/-! ## Class files -/

theorem Attribute.AllWellFormed.of_skeletons {p p' : Pool} {as as' : List Attribute}
    (h : Attribute.skeletons as' = Attribute.skeletons as)
    (hp : ∀ i ∈ Attribute.listNames as, p.KeepsLabel p' i) (has : Attribute.AllWellFormed p as) :
    Attribute.AllWellFormed p' as' := by
  rw [← Attribute.allWellFormed_skeletons, h, Attribute.allWellFormed_skeletons]
  exact has.exchange as hp

namespace ClassFile

variable {c c' : ClassFile}

theorem membersWellFormed_of_skeleton {p p' : Pool} {ms ms' : List Member}
    (h : ms'.map Member.skeleton = ms.map Member.skeleton)
    (hp : ∀ m ∈ ms, ∀ i ∈ Attribute.listNames m.attributes, p.KeepsLabel p' i)
    (hms : ∀ m ∈ ms, m.WellFormed p) : ∀ m ∈ ms', m.WellFormed p' := by
  intro m' hm'
  have hmem := List.mem_map_of_mem (f := Member.skeleton) hm'
  rw [h] at hmem
  obtain ⟨m, hm, hskeleton⟩ := List.mem_map.1 hmem
  exact .of_skeletons (congrArg Member.attributes hskeleton).symm (hp m hm) (hms m hm)

theorem WellFormed.of_skeleton (h : c'.skeleton = c.skeleton)
    (hnames : ∀ i ∈ c.attributeNames, c.constants.KeepsLabel c'.constants i)
    (hc : c.WellFormed) : c'.WellFormed where
  constants := hc.constants.of_skeleton (congrArg ClassFile.constants h)
  superClass := by
    have hsuper : c'.skeleton.superClass = c.skeleton.superClass := by rw [h]
    exact ne_of_eq_of_ne hsuper hc.superClass
  fields := membersWellFormed_of_skeleton (congrArg ClassFile.fields h)
    (fun m hm i hi => hnames i (List.mem_append_left _
      (List.mem_flatMap.2 ⟨m, List.mem_append_left _ hm, hi⟩))) hc.fields
  methods := membersWellFormed_of_skeleton (congrArg ClassFile.methods h)
    (fun m hm i hi => hnames i (List.mem_append_left _
      (List.mem_flatMap.2 ⟨m, List.mem_append_right _ hm, hi⟩))) hc.methods
  attributes := .of_skeletons (congrArg ClassFile.attributes h)
    (fun i hi => hnames i (List.mem_append_right _ hi)) hc.attributes

/-- No use of the name of an attribute changes it from or to a name that is known. -/
def LabelsKept (t : Table) (c : ClassFile) : Prop :=
  ∀ i ∈ c.attributeNames, ∀ role old new, c.constants.get i = .ok (.utf8 old) → c.Uses role i →
    Role.rename t role old = .ok (some new) →
    old ∉ AttributeBody.labels ∧ new ∉ AttributeBody.labels

end ClassFile

namespace Table

variable {t : Table} {resource : String} {bytes bytes' : Bytes} {c c' : ClassFile}
  {changes : Changes}

/-- The bytes of a renamed class are read as the renamed class. -/
theorem parse_renamed (hc : ClassFile.parse bytes = .ok c)
    (hr : (t.renameClassFile resource c).1 = .ok (c', changes)) (hlabels : c.LabelsKept t)
    (hw : c'.toBytes = .ok bytes') :
    ∃ p : Pool, ClassFile.parse bytes' = .ok { c' with constants := p } ∧
      p.table = c'.constants.table := by
  obtain ⟨hskeleton, -⟩ := renameClassFile_skeleton hc hr
  have hgood : c'.WellFormed := by
    refine (ClassFile.wellFormed_of_parse hc).of_skeleton hskeleton fun i hi old hold => ?_
    obtain ⟨c₁, s', ho, rfl⟩ := renameClassFile_eq_ok hr
    have hrewritten := Rewrite.rewriteClassFile_rewritten (ClassFile.indexed_of_parse hc) ho
    obtain ⟨new, hnew, hrenamed⟩ := hrewritten.text hold
    refine ⟨new, hnew, ?_⟩
    cases hrenamed with
    | kept => exact .inl rfl
    | changed hu hrename => exact .inr (hlabels i hi _ _ _ hold hu hrename)
  obtain ⟨p, hread, htable⟩ := ClassFile.read_append hgood hw (Nat.le_refl _) []
  rw [List.append_nil] at hread
  exact ⟨p, by rw [ClassFile.parse, hread]; rfl, htable⟩

end Table

end Repackage
