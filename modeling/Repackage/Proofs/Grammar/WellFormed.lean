import Repackage.Proofs.Grammar.Classes

/-!
# Well-formed signatures

Some trees are not the reading of any text: a name may be empty or have a character in it that ends
names, a method may throw an array, and a type parameter without bounds may come before one whose
name looks like a bound. `Signature.WellFormed` leaves these out. It stays when the names of classes
are exchanged for others of their kind (`Signature.WellFormed.mapNames`).
-/

namespace Repackage

/-! ## Names -/

/-- A name that is not empty and has nothing in it that ends a name. -/
def IsIdentifier (name : List Char) : Prop :=
  name ≠ [] ∧ ∀ c ∈ name, isSignatureDelimiter c = false

instance : DecidablePred IsIdentifier := fun name =>
  decidable_of_iff ((!name.isEmpty && name.all (!isSignatureDelimiter ·)) = true)
    (by simp [IsIdentifier])

/-- Identifiers joined by slashes. -/
def IsQualifiedName (name : List Char) : Prop := ∀ part ∈ Text.segments '/' name, IsIdentifier part

instance : DecidablePred IsQualifiedName := fun name =>
  decidable_of_iff (((Text.segments '/' name).all fun part => decide (IsIdentifier part)) = true)
    (by simp [IsQualifiedName])

/-! ## Types -/

mutual

def JavaType.WellFormed : JavaType → Prop
  | .base _ => True
  | .reference t => t.WellFormed

def ReferenceType.WellFormed : ReferenceType → Prop
  | .classType t => t.WellFormed
  | .typeVariable name => IsIdentifier name.toList
  | .array element => element.WellFormed

def ClassType.WellFormed : ClassType → Prop
  | ⟨name, arguments, suffixes⟩ => IsQualifiedName name.toList ∧
      TypeArgument.AllWellFormed arguments ∧ SimpleClassType.AllWellFormed suffixes

def SimpleClassType.WellFormed : SimpleClassType → Prop
  | ⟨name, arguments⟩ => IsIdentifier name.toList ∧ TypeArgument.AllWellFormed arguments

def SimpleClassType.AllWellFormed : List SimpleClassType → Prop
  | [] => True
  | t :: ts => t.WellFormed ∧ SimpleClassType.AllWellFormed ts

def TypeArgument.WellFormed : TypeArgument → Prop
  | .wildcard => True
  | .concrete _ t => t.WellFormed

def TypeArgument.AllWellFormed : List TypeArgument → Prop
  | [] => True
  | t :: ts => t.WellFormed ∧ TypeArgument.AllWellFormed ts

end

theorem TypeArgument.allWellFormed_iff {ts : List TypeArgument} :
    TypeArgument.AllWellFormed ts ↔ ∀ t ∈ ts, t.WellFormed := by
  induction ts with
  | nil => exact ⟨fun _ => List.forall_mem_nil _, fun _ => trivial⟩
  | cons t ts ih => rw [TypeArgument.AllWellFormed, ih, List.forall_mem_cons]

theorem SimpleClassType.allWellFormed_iff {ts : List SimpleClassType} :
    SimpleClassType.AllWellFormed ts ↔ ∀ t ∈ ts, t.WellFormed := by
  induction ts with
  | nil => exact ⟨fun _ => List.forall_mem_nil _, fun _ => trivial⟩
  | cons t ts ih => rw [SimpleClassType.AllWellFormed, ih, List.forall_mem_cons]

mutual

def JavaType.decideWellFormed : (t : JavaType) → Decidable t.WellFormed
  | .base _ => .isTrue trivial
  | .reference t => t.decideWellFormed

def ReferenceType.decideWellFormed : (t : ReferenceType) → Decidable t.WellFormed
  | .classType t => t.decideWellFormed
  | .typeVariable name => inferInstanceAs (Decidable (IsIdentifier name.toList))
  | .array element => element.decideWellFormed

def ClassType.decideWellFormed : (t : ClassType) → Decidable t.WellFormed
  | ⟨name, arguments, suffixes⟩ =>
    have := TypeArgument.decideAllWellFormed arguments
    have := SimpleClassType.decideAllWellFormed suffixes
    inferInstanceAs (Decidable (IsQualifiedName name.toList ∧ _ ∧ _))

def SimpleClassType.decideWellFormed : (t : SimpleClassType) → Decidable t.WellFormed
  | ⟨name, arguments⟩ =>
    have := TypeArgument.decideAllWellFormed arguments
    inferInstanceAs (Decidable (IsIdentifier name.toList ∧ _))

def SimpleClassType.decideAllWellFormed :
    (ts : List SimpleClassType) → Decidable (SimpleClassType.AllWellFormed ts)
  | [] => .isTrue trivial
  | t :: ts =>
    have := t.decideWellFormed
    have := SimpleClassType.decideAllWellFormed ts
    inferInstanceAs (Decidable (_ ∧ _))

def TypeArgument.decideWellFormed : (t : TypeArgument) → Decidable t.WellFormed
  | .wildcard => .isTrue trivial
  | .concrete _ t => t.decideWellFormed

def TypeArgument.decideAllWellFormed :
    (ts : List TypeArgument) → Decidable (TypeArgument.AllWellFormed ts)
  | [] => .isTrue trivial
  | t :: ts =>
    have := t.decideWellFormed
    have := TypeArgument.decideAllWellFormed ts
    inferInstanceAs (Decidable (_ ∧ _))

end

instance : DecidablePred JavaType.WellFormed := JavaType.decideWellFormed

instance : DecidablePred ReferenceType.WellFormed := ReferenceType.decideWellFormed

instance : DecidablePred ClassType.WellFormed := ClassType.decideWellFormed

/-! ## Declarations -/

namespace TypeParameter

structure WellFormed (p : TypeParameter) : Prop where
  name : IsIdentifier p.name.toList
  classBound : ∀ t ∈ p.classBound, t.WellFormed
  interfaceBounds : ∀ t ∈ p.interfaceBounds, t.WellFormed

instance : DecidablePred WellFormed := fun _ =>
  decidable_of_iff (_ ∧ _ ∧ _)
    ⟨fun h => ⟨h.1, h.2.1, h.2.2⟩, fun h => ⟨h.name, h.classBound, h.interfaceBounds⟩⟩

/-- Neither a class nor an interface bounds the parameter. -/
def Unbounded (p : TypeParameter) : Prop := p.classBound = none ∧ p.interfaceBounds = []

/-- A parameter without bounds ends at its colon, so the next name must not look like a bound. -/
def Precedes (p q : TypeParameter) : Prop :=
  p.Unbounded → q.name.toList.head? ≠ some 'L' ∧ q.name.toList.head? ≠ some 'T'

instance : DecidablePred Unbounded := fun _ => inferInstanceAs (Decidable (_ ∧ _))

instance (p q : TypeParameter) : Decidable (p.Precedes q) := inferInstanceAs (Decidable (_ → _))

/-- Each parameter can precede the next. -/
def Separate : List TypeParameter → Prop
  | [] => True
  | [_] => True
  | p :: q :: ps => p.Precedes q ∧ Separate (q :: ps)

def decideSeparate : (ps : List TypeParameter) → Decidable (Separate ps)
  | [] => .isTrue trivial
  | [_] => .isTrue trivial
  | p :: q :: ps =>
    have := decideSeparate (q :: ps)
    inferInstanceAs (Decidable (p.Precedes q ∧ _))

instance : DecidablePred Separate := decideSeparate

structure AllWellFormed (ps : List TypeParameter) : Prop where
  each : ∀ p ∈ ps, p.WellFormed
  separate : Separate ps

instance : DecidablePred AllWellFormed := fun _ =>
  decidable_of_iff (_ ∧ _) ⟨fun h => ⟨h.1, h.2⟩, fun h => ⟨h.each, h.separate⟩⟩

theorem Separate.tail {p : TypeParameter} {ps : List TypeParameter} (h : Separate (p :: ps)) :
    Separate ps := by
  cases ps with
  | nil => trivial
  | cons q ps => exact h.2

end TypeParameter

structure ClassSignature.WellFormed (s : ClassSignature) : Prop where
  typeParameters : TypeParameter.AllWellFormed s.typeParameters
  superclass : s.superclass.WellFormed
  interfaces : ∀ t ∈ s.interfaces, t.WellFormed

instance : DecidablePred ClassSignature.WellFormed := fun _ =>
  decidable_of_iff (_ ∧ _ ∧ _)
    ⟨fun h => ⟨h.1, h.2.1, h.2.2⟩, fun h => ⟨h.typeParameters, h.superclass, h.interfaces⟩⟩

def ReferenceType.IsArray : ReferenceType → Prop
  | .array _ => True
  | .classType _ | .typeVariable _ => False

instance : DecidablePred ReferenceType.IsArray
  | .array _ => .isTrue trivial
  | .classType _ | .typeVariable _ => .isFalse id

structure MethodSignature.WellFormed (s : MethodSignature) : Prop where
  typeParameters : TypeParameter.AllWellFormed s.typeParameters
  parameters : ∀ t ∈ s.parameters, t.WellFormed
  result : ∀ t ∈ s.result, t.WellFormed
  throws : ∀ t ∈ s.throws, t.WellFormed ∧ ¬ t.IsArray

instance : DecidablePred MethodSignature.WellFormed := fun _ =>
  decidable_of_iff (_ ∧ _ ∧ _ ∧ _) ⟨fun h => ⟨h.1, h.2.1, h.2.2.1, h.2.2.2⟩,
    fun h => ⟨h.typeParameters, h.parameters, h.result, h.throws⟩⟩

namespace Signature

def kind : Signature → SignatureKind
  | .ofClass _ => .ofClass
  | .ofField _ => .ofField
  | .ofMethod _ => .ofMethod

def WellFormed : Signature → Prop
  | .ofClass s => s.WellFormed
  | .ofField t => t.WellFormed
  | .ofMethod s => s.WellFormed

instance : DecidablePred WellFormed
  | .ofClass s => inferInstanceAs (Decidable s.WellFormed)
  | .ofField t => inferInstanceAs (Decidable t.WellFormed)
  | .ofMethod s => inferInstanceAs (Decidable s.WellFormed)

end Signature

/-! ## Exchanged names -/

section Exchanged

variable {f : String → String}

/-- What is given for the name of a class is one. -/
def KeepsNames (f : String → String) : Prop :=
  ∀ n, IsQualifiedName n.toList → IsQualifiedName (f n).toList

mutual

theorem JavaType.WellFormed.mapNames (hf : KeepsNames f) :
    (t : JavaType) → t.WellFormed → (t.mapNames f).WellFormed
  | .base _, _ => trivial
  | .reference t, h => ReferenceType.WellFormed.mapNames hf t h

theorem ReferenceType.WellFormed.mapNames (hf : KeepsNames f) :
    (t : ReferenceType) → t.WellFormed → (t.mapNames f).WellFormed
  | .classType t, h => ClassType.WellFormed.mapNames hf t h
  | .typeVariable _, h => h
  | .array element, h => JavaType.WellFormed.mapNames hf element h

theorem ClassType.WellFormed.mapNames (hf : KeepsNames f) :
    (t : ClassType) → t.WellFormed → (t.mapNames f).WellFormed
  | ⟨name, arguments, suffixes⟩, ⟨hname, harguments, hsuffixes⟩ =>
    ⟨hf name hname, TypeArgument.AllWellFormed.mapNames hf arguments harguments,
      SimpleClassType.AllWellFormed.mapNames hf suffixes hsuffixes⟩

theorem SimpleClassType.WellFormed.mapNames (hf : KeepsNames f) :
    (t : SimpleClassType) → t.WellFormed → (t.mapNames f).WellFormed
  | ⟨_, arguments⟩, ⟨hname, harguments⟩ =>
    ⟨hname, TypeArgument.AllWellFormed.mapNames hf arguments harguments⟩

theorem SimpleClassType.AllWellFormed.mapNames (hf : KeepsNames f) :
    (ts : List SimpleClassType) → SimpleClassType.AllWellFormed ts →
      SimpleClassType.AllWellFormed (SimpleClassType.mapSuffixNames f ts)
  | [], _ => trivial
  | t :: ts, h =>
    ⟨SimpleClassType.WellFormed.mapNames hf t h.1, SimpleClassType.AllWellFormed.mapNames hf ts h.2⟩

theorem TypeArgument.WellFormed.mapNames (hf : KeepsNames f) :
    (t : TypeArgument) → t.WellFormed → (t.mapNames f).WellFormed
  | .wildcard, _ => trivial
  | .concrete _ t, h => ReferenceType.WellFormed.mapNames hf t h

theorem TypeArgument.AllWellFormed.mapNames (hf : KeepsNames f) :
    (ts : List TypeArgument) → TypeArgument.AllWellFormed ts →
      TypeArgument.AllWellFormed (TypeArgument.mapListNames f ts)
  | [], _ => trivial
  | t :: ts, h =>
    ⟨TypeArgument.WellFormed.mapNames hf t h.1, TypeArgument.AllWellFormed.mapNames hf ts h.2⟩

end

theorem TypeParameter.WellFormed.mapNames (hf : KeepsNames f) {p : TypeParameter}
    (h : p.WellFormed) : (p.mapNames f).WellFormed where
  name := h.name
  classBound := by
    intro t ht
    obtain ⟨u, hu, rfl⟩ := Option.map_eq_some_iff.1 ht
    exact ReferenceType.WellFormed.mapNames hf u (h.classBound u hu)
  interfaceBounds := List.forall_mem_map.2 fun t ht =>
    ReferenceType.WellFormed.mapNames hf t (h.interfaceBounds t ht)

/-- New names for classes give no parameter a bound and take none away. -/
theorem TypeParameter.Separate.mapNames {ps : List TypeParameter} (h : TypeParameter.Separate ps) :
    TypeParameter.Separate (ps.map (TypeParameter.mapNames f)) := by
  induction ps with
  | nil => trivial
  | cons p ps ih =>
    cases ps with
    | nil => trivial
    | cons q ps =>
      refine ⟨fun hp => h.1 ?_, ih h.2⟩
      exact ⟨Option.map_eq_none_iff.1 hp.1, List.map_eq_nil_iff.1 hp.2⟩

theorem TypeParameter.AllWellFormed.mapNames (hf : KeepsNames f) {ps : List TypeParameter}
    (h : TypeParameter.AllWellFormed ps) :
    TypeParameter.AllWellFormed (ps.map (TypeParameter.mapNames f)) where
  each := List.forall_mem_map.2 fun p hp => (h.each p hp).mapNames hf
  separate := h.separate.mapNames

theorem ClassSignature.WellFormed.mapNames (hf : KeepsNames f) {s : ClassSignature}
    (h : s.WellFormed) : (s.mapNames f).WellFormed where
  typeParameters := h.typeParameters.mapNames hf
  superclass := ClassType.WellFormed.mapNames hf _ h.superclass
  interfaces := List.forall_mem_map.2 fun t ht =>
    ClassType.WellFormed.mapNames hf t (h.interfaces t ht)

theorem MethodSignature.WellFormed.mapNames (hf : KeepsNames f) {s : MethodSignature}
    (h : s.WellFormed) : (s.mapNames f).WellFormed where
  typeParameters := h.typeParameters.mapNames hf
  parameters := List.forall_mem_map.2 fun t ht =>
    JavaType.WellFormed.mapNames hf t (h.parameters t ht)
  result := by
    intro t ht
    obtain ⟨u, hu, rfl⟩ := Option.map_eq_some_iff.1 ht
    exact JavaType.WellFormed.mapNames hf u (h.result u hu)
  throws := List.forall_mem_map.2 fun t ht => by
    refine ⟨ReferenceType.WellFormed.mapNames hf t (h.throws t ht).1, fun harray => ?_⟩
    cases t with
    | classType t => exact harray
    | typeVariable name => exact harray
    | array element => exact (h.throws _ ht).2 trivial

theorem Signature.kind_mapNames (f : String → String) (s : Signature) :
    (s.mapNames f).kind = s.kind := by
  cases s <;> rfl

theorem Signature.WellFormed.mapNames (hf : KeepsNames f) {s : Signature} (h : s.WellFormed) :
    (s.mapNames f).WellFormed := by
  cases s with
  | ofClass s => exact ClassSignature.WellFormed.mapNames hf h
  | ofField t => exact ReferenceType.WellFormed.mapNames hf t h
  | ofMethod s => exact MethodSignature.WellFormed.mapNames hf h

end Exchanged

end Repackage
