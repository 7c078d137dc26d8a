import Repackage.Proofs.Grammar.Classes
import Repackage.Renaming.Text

/-!
# What a walk over a tree does

A walk is over some names: it changes something if one of them moves, and tells the refusals among
them (`Walked.across`). Walks one after the other are over the names of both, whatever the first one
did (`Walked.across_bind`), so the walk over a tree is over all names of the tree, and gives the tree
with the new names (`Descriptor.renamed_eq`, `Signature.renamed_eq`). Hence a tree is renamed just if
one of its names moves (`Table.renameTree_eq`, `Table.renameSignatureTree_eq`).
-/

namespace Repackage

/-! ## Walks over names -/

namespace Walked

variable {ν α β : Type} {moves : ν → Bool} {refusal : ν → Option Event} {names names' : List ν}
  {a : α} {b : β}

/-- What a walk over these names comes to. -/
def across (moves : ν → Bool) (refusal : ν → Option Event) (names : List ν) (a : α) : Walked α :=
  ⟨a, names.any moves, names.filterMap refusal⟩

theorem across_bind {f : α → Walked β} (h : f a = across moves refusal names' b) :
    across moves refusal names a >>= f = across moves refusal (names ++ names') b := by
  show (⟨(f a).part, names.any moves || (f a).changed, names.filterMap refusal ++ (f a).told⟩ :
    Walked β) = _
  rw [h, across, across, List.any_append, List.filterMap_append]

theorem map_across (f : α → β) :
    f <$> across moves refusal names a = across moves refusal names (f a) := by
  have h : across moves refusal names a >>= pure ∘ f = across moves refusal (names ++ []) (f a) :=
    across_bind rfl
  rwa [List.append_nil] at h

theorem list_eq_across {walk : α → Walked α} {names : α → List ν} {f : α → α}
    (h : ∀ a, walk a = across moves refusal (names a) (f a)) (as : List α) :
    list walk as = across moves refusal (as.flatMap names) (as.map f) := by
  induction as with
  | nil => rfl
  | cons a as ih =>
    rw [list, h a, ih, List.flatMap_cons]
    exact across_bind (map_across (f a :: ·))

theorem option_eq_across {walk : α → Walked α} {names : α → List ν} {f : α → α}
    (h : ∀ a, walk a = across moves refusal (names a) (f a)) (a : Option α) :
    option walk a = across moves refusal (a.elim [] names) (a.map f) := by
  cases a with
  | none => rfl
  | some a =>
    rw [option, h a]
    exact map_across some

end Walked

open Walked

/-! ## Descriptors -/

namespace Table

/-- The new name of a class in a descriptor. -/
def renameName (t : Table) (name : BinaryName) : Option BinaryName :=
  (t.renameType name.text).bind fun renamed => (BinaryName.ofString renamed).toOption

/-- The name of a class in a descriptor, after it is renamed. -/
def newName (t : Table) (name : BinaryName) : BinaryName := (t.renameName name).getD name

def moves (t : Table) (name : BinaryName) : Bool := (t.renameName name).isSome

/-- The event of a new name that is refused. -/
def refusal? (t : Table) (name : BinaryName) : Option Event :=
  (t.renameType name.text).bind fun renamed =>
    match BinaryName.ofString renamed with
    | .ok _ => none
    | .error cause => some (.renameRefused name.text cause)

end Table

section Descriptors

variable (t : Table)

theorem BinaryName.renamed_eq (name : BinaryName) :
    name.renamed t = across t.moves t.refusal? [name] (t.newName name) := by
  simp only [across, BinaryName.renamed, Table.newName, Table.moves, Table.renameName,
    Table.refusal?, List.any_cons, List.any_nil, List.filterMap_cons, List.filterMap_nil]
  cases t.renameType name.text with
  | none => rfl
  | some text =>
    simp only [Option.bind_some]
    cases BinaryName.ofString text <;> rfl

theorem RefType.renamed_eq (type : RefType) :
    type.renamed t = across t.moves t.refusal? type.names (type.mapNames t.newName) := by
  cases type with
  | object name =>
    rw [RefType.renamed, name.renamed_eq]
    exact map_across _
  | objectArray extra name =>
    rw [RefType.renamed, name.renamed_eq]
    exact map_across _
  | primitiveArray extra base => rfl

theorem FieldType.renamed_eq (type : FieldType) :
    type.renamed t = across t.moves t.refusal? type.names (type.mapNames t.newName) := by
  cases type with
  | base base => rfl
  | ref type =>
    rw [FieldType.renamed, type.renamed_eq]
    exact map_across _

theorem MethodType.renamed_eq (type : MethodType) :
    type.renamed t = across t.moves t.refusal? type.names (type.mapNames t.newName) := by
  rw [MethodType.renamed, list_eq_across (FieldType.renamed_eq t),
    option_eq_across (FieldType.renamed_eq t)]
  exact across_bind (map_across _)

theorem Descriptor.renamed_eq (d : Descriptor) :
    d.renamed t = across t.moves t.refusal? d.names (d.mapNames t.newName) := by
  cases d with
  | field type =>
    rw [Descriptor.renamed, type.renamed_eq]
    exact map_across _
  | method type =>
    rw [Descriptor.renamed, type.renamed_eq]
    exact map_across _

end Descriptors

/-! ## Signatures -/

namespace Table

/-- The name of a class in a signature, after it is renamed. -/
def newType (t : Table) (name : String) : String := (t.renameType name).getD name

def movesType (t : Table) (name : String) : Bool := (t.renameType name).isSome

end Table

section Signatures

variable (t : Table)

theorem Table.renamedType_eq (name : String) :
    t.renamedType name = across t.movesType (fun _ => none) [name] (t.newType name) := by
  simp only [across, Table.renamedType, Table.newType, Table.movesType, List.any_cons,
    List.any_nil]
  cases t.renameType name <;> rfl

mutual

theorem JavaType.renamed_eq : (type : JavaType) → type.renamed t =
    across t.movesType (fun _ => none) type.names (type.mapNames t.newType)
  | .base _ => rfl
  | .reference type => by
    rw [JavaType.renamed, ReferenceType.renamed_eq type]
    exact map_across _

theorem ReferenceType.renamed_eq : (type : ReferenceType) → type.renamed t =
    across t.movesType (fun _ => none) type.names (type.mapNames t.newType)
  | .classType type => by
    rw [ReferenceType.renamed, ClassType.renamed_eq type]
    exact map_across _
  | .typeVariable _ => rfl
  | .array element => by
    rw [ReferenceType.renamed, JavaType.renamed_eq element]
    exact map_across _

theorem ClassType.renamed_eq : (type : ClassType) → type.renamed t =
    across t.movesType (fun _ => none) type.names (type.mapNames t.newType)
  | ⟨name, arguments, suffixes⟩ => by
    rw [ClassType.renamed, t.renamedType_eq, TypeArgument.renamedList_eq arguments,
      SimpleClassType.renamedSuffixes_eq suffixes]
    exact across_bind (across_bind (map_across _))

theorem SimpleClassType.renamed_eq : (type : SimpleClassType) → type.renamed t =
    across t.movesType (fun _ => none) type.names (type.mapNames t.newType)
  | ⟨name, arguments⟩ => by
    rw [SimpleClassType.renamed, TypeArgument.renamedList_eq arguments]
    exact map_across _

theorem SimpleClassType.renamedSuffixes_eq : (types : List SimpleClassType) →
    SimpleClassType.renamedSuffixes t types =
      across t.movesType (fun _ => none) (SimpleClassType.suffixNames types)
        (SimpleClassType.mapSuffixNames t.newType types)
  | [] => rfl
  | type :: types => by
    rw [SimpleClassType.renamedSuffixes, SimpleClassType.renamed_eq type,
      SimpleClassType.renamedSuffixes_eq types]
    exact across_bind (map_across _)

theorem TypeArgument.renamed_eq : (type : TypeArgument) → type.renamed t =
    across t.movesType (fun _ => none) type.names (type.mapNames t.newType)
  | .wildcard => rfl
  | .concrete _ type => by
    rw [TypeArgument.renamed, ReferenceType.renamed_eq type]
    exact map_across _

theorem TypeArgument.renamedList_eq : (types : List TypeArgument) →
    TypeArgument.renamedList t types =
      across t.movesType (fun _ => none) (TypeArgument.listNames types)
        (TypeArgument.mapListNames t.newType types)
  | [] => rfl
  | type :: types => by
    rw [TypeArgument.renamedList, TypeArgument.renamed_eq type, TypeArgument.renamedList_eq types]
    exact across_bind (map_across _)

end

theorem TypeParameter.renamed_eq (p : TypeParameter) :
    p.renamed t = across t.movesType (fun _ => none) p.names (p.mapNames t.newType) := by
  rw [TypeParameter.renamed, option_eq_across (ReferenceType.renamed_eq t),
    list_eq_across (ReferenceType.renamed_eq t)]
  exact across_bind (map_across _)

theorem ClassSignature.renamed_eq (s : ClassSignature) :
    s.renamed t = across t.movesType (fun _ => none) s.names (s.mapNames t.newType) := by
  rw [ClassSignature.renamed, list_eq_across (TypeParameter.renamed_eq t), s.superclass.renamed_eq,
    list_eq_across (ClassType.renamed_eq t), ClassSignature.names, List.append_assoc]
  exact across_bind (across_bind (map_across _))

theorem MethodSignature.renamed_eq (s : MethodSignature) :
    s.renamed t = across t.movesType (fun _ => none) s.names (s.mapNames t.newType) := by
  rw [MethodSignature.renamed, list_eq_across (TypeParameter.renamed_eq t),
    list_eq_across (JavaType.renamed_eq t), option_eq_across (JavaType.renamed_eq t),
    list_eq_across (ReferenceType.renamed_eq t), MethodSignature.names, List.append_assoc,
    List.append_assoc]
  exact across_bind (across_bind (across_bind (map_across _)))

theorem Signature.renamed_eq (s : Signature) :
    s.renamed t = across t.movesType (fun _ => none) s.names (s.mapNames t.newType) := by
  cases s with
  | ofClass s =>
    rw [Signature.renamed, s.renamed_eq]
    exact map_across _
  | ofField type =>
    rw [Signature.renamed, type.renamed_eq]
    exact map_across _
  | ofMethod s =>
    rw [Signature.renamed, s.renamed_eq]
    exact map_across _

end Signatures

/-! ## Renamed trees -/

namespace Table

/-- A descriptor is renamed if one of its names moves, and then all of them are exchanged. -/
theorem renameTree_eq (t : Table) (d : Descriptor) :
    t.renameTree d = if d.names.any fun name => (t.renameName name).isSome then
      some (d.mapNames t.newName) else none := by
  unfold renameTree
  rw [d.renamed_eq]
  rfl

/-- A signature is renamed if one of its names moves, and then all of them are exchanged. -/
theorem renameSignatureTree_eq (t : Table) (s : Signature) :
    t.renameSignatureTree s = if s.names.any fun name => (t.renameType name).isSome then
      some (s.mapNames t.newType) else none := by
  unfold renameSignatureTree
  rw [s.renamed_eq]
  rfl

end Table

end Repackage
