import Repackage.Grammar.Signature
import Repackage.Report.Event
import Repackage.Rules.Table

/-!
# Renaming the classes of a tree

A tree is walked over part by part, and each class name that the rules know is exchanged for its
new name. A walk also says whether it has exchanged a name. It goes over all parts of a tree, also
after one of them has changed.

A descriptor has binary names only, so a new name that is not one is refused, which is told, and the
old one stays. Names in signatures are exchanged without a check. Type variables, type parameters and
the member classes of a class type have simple names, which stay.
-/

namespace Repackage

/-- What a walk over a part of a tree comes to: the part as it is then, whether a name in it was
exchanged, and what was told on the way. -/
structure Walked (α : Type) where
  part : α
  changed : Bool
  told : List Event
deriving DecidableEq

instance : Monad Walked where
  pure a := ⟨a, false, []⟩
  bind x f :=
    let y := f x.part
    ⟨y.part, x.changed || y.changed, x.told ++ y.told⟩

namespace Walked

/-- Walks over the items of a list from the first to the last. -/
def list {α : Type} (walk : α → Walked α) : List α → Walked (List α)
  | [] => pure []
  | a :: as => do
    let a ← walk a
    let as ← list walk as
    return a :: as

def option {α : Type} (walk : α → Walked α) : Option α → Walked (Option α)
  | none => pure none
  | some a => some <$> walk a

end Walked

/-! ## Descriptors -/

def BinaryName.renamed (t : Table) (name : BinaryName) : Walked BinaryName :=
  match t.renameType name.text with
  | none => pure name
  | some text =>
    match BinaryName.ofString text with
    | .ok new => ⟨new, true, []⟩
    | .error cause => ⟨name, false, [.renameRefused name.text cause]⟩

def RefType.renamed (t : Table) : RefType → Walked RefType
  | .object name => .object <$> name.renamed t
  | .objectArray extra name => .objectArray extra <$> name.renamed t
  | .primitiveArray extra base => pure (.primitiveArray extra base)

def FieldType.renamed (t : Table) : FieldType → Walked FieldType
  | .base type => pure (.base type)
  | .ref type => .ref <$> type.renamed t

def MethodType.renamed (t : Table) (m : MethodType) : Walked MethodType := do
  let parameters ← Walked.list (FieldType.renamed t) m.parameters
  let result ← Walked.option (FieldType.renamed t) m.result
  return ⟨parameters, result⟩

def Descriptor.renamed (t : Table) : Descriptor → Walked Descriptor
  | .field type => .field <$> type.renamed t
  | .method type => .method <$> type.renamed t

/-! ## Signatures -/

/-- The new name of a class in a signature. -/
def Table.renamedType (t : Table) (name : String) : Walked String :=
  match t.renameType name with
  | some new => ⟨new, true, []⟩
  | none => pure name

mutual

def JavaType.renamed (t : Table) : JavaType → Walked JavaType
  | .base type => pure (.base type)
  | .reference type => .reference <$> type.renamed t

def ReferenceType.renamed (t : Table) : ReferenceType → Walked ReferenceType
  | .classType type => .classType <$> type.renamed t
  | .typeVariable name => pure (.typeVariable name)
  | .array element => .array <$> element.renamed t

def ClassType.renamed (t : Table) : ClassType → Walked ClassType
  | ⟨name, arguments, suffixes⟩ => do
    let name ← t.renamedType name
    let arguments ← TypeArgument.renamedList t arguments
    let suffixes ← SimpleClassType.renamedSuffixes t suffixes
    return ⟨name, arguments, suffixes⟩

def SimpleClassType.renamed (t : Table) : SimpleClassType → Walked SimpleClassType
  | ⟨name, arguments⟩ => .mk name <$> TypeArgument.renamedList t arguments

def SimpleClassType.renamedSuffixes (t : Table) :
    List SimpleClassType → Walked (List SimpleClassType)
  | [] => pure []
  | type :: types => do
    let type ← type.renamed t
    let types ← SimpleClassType.renamedSuffixes t types
    return type :: types

def TypeArgument.renamed (t : Table) : TypeArgument → Walked TypeArgument
  | .wildcard => pure .wildcard
  | .concrete bound type => .concrete bound <$> type.renamed t

def TypeArgument.renamedList (t : Table) : List TypeArgument → Walked (List TypeArgument)
  | [] => pure []
  | argument :: arguments => do
    let argument ← argument.renamed t
    let arguments ← TypeArgument.renamedList t arguments
    return argument :: arguments

end

def TypeParameter.renamed (t : Table) (p : TypeParameter) : Walked TypeParameter := do
  let classBound ← Walked.option (ReferenceType.renamed t) p.classBound
  let interfaceBounds ← Walked.list (ReferenceType.renamed t) p.interfaceBounds
  return ⟨p.name, classBound, interfaceBounds⟩

def ClassSignature.renamed (t : Table) (s : ClassSignature) : Walked ClassSignature := do
  let typeParameters ← Walked.list (TypeParameter.renamed t) s.typeParameters
  let superclass ← s.superclass.renamed t
  let interfaces ← Walked.list (ClassType.renamed t) s.interfaces
  return ⟨typeParameters, superclass, interfaces⟩

def MethodSignature.renamed (t : Table) (s : MethodSignature) : Walked MethodSignature := do
  let typeParameters ← Walked.list (TypeParameter.renamed t) s.typeParameters
  let parameters ← Walked.list (JavaType.renamed t) s.parameters
  let result ← Walked.option (JavaType.renamed t) s.result
  let throws ← Walked.list (ReferenceType.renamed t) s.throws
  return ⟨typeParameters, parameters, result, throws⟩

def Signature.renamed (t : Table) : Signature → Walked Signature
  | .ofClass s => .ofClass <$> s.renamed t
  | .ofField type => .ofField <$> type.renamed t
  | .ofMethod s => .ofMethod <$> s.renamed t

end Repackage
