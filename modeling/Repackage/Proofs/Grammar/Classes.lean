import Repackage.Grammar.Signature

/-!
# The classes of a tree

`names` lists the class names of a descriptor or a signature in the order in which they are written,
and `mapNames` is the tree with each of them exchanged. In a signature only the name of a class type
is that of a class in a package: type variables and the simple names of member classes are left
alone.
-/

namespace Repackage

/-! ## Descriptors -/

namespace RefType

def names : RefType → List BinaryName
  | .object name | .objectArray _ name => [name]
  | .primitiveArray _ _ => []

def mapNames (f : BinaryName → BinaryName) : RefType → RefType
  | .object name => .object (f name)
  | .objectArray extra name => .objectArray extra (f name)
  | .primitiveArray extra base => .primitiveArray extra base

end RefType

namespace FieldType

def names : FieldType → List BinaryName
  | .base _ => []
  | .ref t => t.names

def mapNames (f : BinaryName → BinaryName) : FieldType → FieldType
  | .base t => .base t
  | .ref t => .ref (t.mapNames f)

end FieldType

namespace MethodType

def names (t : MethodType) : List BinaryName :=
  t.parameters.flatMap FieldType.names ++ t.result.elim [] FieldType.names

def mapNames (f : BinaryName → BinaryName) (t : MethodType) : MethodType where
  parameters := t.parameters.map (FieldType.mapNames f)
  result := t.result.map (FieldType.mapNames f)

end MethodType

namespace Descriptor

def names : Descriptor → List BinaryName
  | .field t => t.names
  | .method t => t.names

def mapNames (f : BinaryName → BinaryName) : Descriptor → Descriptor
  | .field t => .field (t.mapNames f)
  | .method t => .method (t.mapNames f)

end Descriptor

/-! ## Signatures -/

mutual

def JavaType.names : JavaType → List String
  | .base _ => []
  | .reference t => t.names

def ReferenceType.names : ReferenceType → List String
  | .classType t => t.names
  | .typeVariable _ => []
  | .array element => element.names

def ClassType.names : ClassType → List String
  | ⟨name, arguments, suffixes⟩ =>
    name :: TypeArgument.listNames arguments ++ SimpleClassType.suffixNames suffixes

def SimpleClassType.names : SimpleClassType → List String
  | ⟨_, arguments⟩ => TypeArgument.listNames arguments

def SimpleClassType.suffixNames : List SimpleClassType → List String
  | [] => []
  | t :: ts => t.names ++ SimpleClassType.suffixNames ts

def TypeArgument.names : TypeArgument → List String
  | .wildcard => []
  | .concrete _ t => t.names

def TypeArgument.listNames : List TypeArgument → List String
  | [] => []
  | t :: ts => t.names ++ TypeArgument.listNames ts

end

mutual

def JavaType.mapNames (f : String → String) : JavaType → JavaType
  | .base t => .base t
  | .reference t => .reference (t.mapNames f)

def ReferenceType.mapNames (f : String → String) : ReferenceType → ReferenceType
  | .classType t => .classType (t.mapNames f)
  | .typeVariable name => .typeVariable name
  | .array element => .array (element.mapNames f)

def ClassType.mapNames (f : String → String) : ClassType → ClassType
  | ⟨name, arguments, suffixes⟩ =>
    ⟨f name, TypeArgument.mapListNames f arguments, SimpleClassType.mapSuffixNames f suffixes⟩

def SimpleClassType.mapNames (f : String → String) : SimpleClassType → SimpleClassType
  | ⟨name, arguments⟩ => ⟨name, TypeArgument.mapListNames f arguments⟩

def SimpleClassType.mapSuffixNames (f : String → String) :
    List SimpleClassType → List SimpleClassType
  | [] => []
  | t :: ts => t.mapNames f :: SimpleClassType.mapSuffixNames f ts

def TypeArgument.mapNames (f : String → String) : TypeArgument → TypeArgument
  | .wildcard => .wildcard
  | .concrete bound t => .concrete bound (t.mapNames f)

def TypeArgument.mapListNames (f : String → String) : List TypeArgument → List TypeArgument
  | [] => []
  | t :: ts => t.mapNames f :: TypeArgument.mapListNames f ts

end

namespace TypeParameter

def names (p : TypeParameter) : List String :=
  p.classBound.elim [] ReferenceType.names ++ p.interfaceBounds.flatMap ReferenceType.names

def mapNames (f : String → String) (p : TypeParameter) : TypeParameter where
  name := p.name
  classBound := p.classBound.map (ReferenceType.mapNames f)
  interfaceBounds := p.interfaceBounds.map (ReferenceType.mapNames f)

end TypeParameter

namespace ClassSignature

def names (s : ClassSignature) : List String :=
  s.typeParameters.flatMap TypeParameter.names ++ s.superclass.names
    ++ s.interfaces.flatMap ClassType.names

def mapNames (f : String → String) (s : ClassSignature) : ClassSignature where
  typeParameters := s.typeParameters.map (TypeParameter.mapNames f)
  superclass := s.superclass.mapNames f
  interfaces := s.interfaces.map (ClassType.mapNames f)

end ClassSignature

namespace MethodSignature

def names (s : MethodSignature) : List String :=
  s.typeParameters.flatMap TypeParameter.names ++ s.parameters.flatMap JavaType.names
    ++ s.result.elim [] JavaType.names ++ s.throws.flatMap ReferenceType.names

def mapNames (f : String → String) (s : MethodSignature) : MethodSignature where
  typeParameters := s.typeParameters.map (TypeParameter.mapNames f)
  parameters := s.parameters.map (JavaType.mapNames f)
  result := s.result.map (JavaType.mapNames f)
  throws := s.throws.map (ReferenceType.mapNames f)

end MethodSignature

namespace Signature

def names : Signature → List String
  | .ofClass s => s.names
  | .ofField t => t.names
  | .ofMethod s => s.names

def mapNames (f : String → String) : Signature → Signature
  | .ofClass s => .ofClass (s.mapNames f)
  | .ofField t => .ofField (t.mapNames f)
  | .ofMethod s => .ofMethod (s.mapNames f)

end Signature

end Repackage
