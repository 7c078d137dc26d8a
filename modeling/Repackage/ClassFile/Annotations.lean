import Repackage.ClassFile.Reader

/-!
# Annotations

An annotation names its type by a descriptor and gives values to its elements. Values
nest: one can be an annotation or an array of values. A type annotation says besides
which use of a type it is on.

Nested values are read to a depth. Each level takes at least one byte, hence the number
of bytes is depth enough.
-/

namespace Repackage

mutual

inductive ElementValue where
  /-- A primitive or a text; the tag says which. -/
  | const (tag : UInt8) (value : Index)
  | enumConst (type name : Index)
  /-- A class literal, by its descriptor. -/
  | classLiteral (descriptor : Index)
  | nested (a : AnnotationInfo)
  | array (values : List ElementValue)

structure AnnotationInfo where
  type : Index
  elements : List (Index × ElementValue)

end

/-! ## Values -/

namespace ElementValue

/-- The tags of primitives (`BCDFIJSZ`) and of texts (`s`). -/
def isConstTag (tag : UInt8) : Bool :=
  [0x42, 0x43, 0x44, 0x46, 0x49, 0x4A, 0x53, 0x5A, 0x73].contains tag

def enumTag : UInt8 := 0x65
def classTag : UInt8 := 0x63
def annotationTag : UInt8 := 0x40
def arrayTag : UInt8 := 0x5B

/-- An annotation, given the reader of the values in it. -/
def readAnnotationInfo (value : Reader ElementValue) : Reader AnnotationInfo := do
  let type ← Reader.index
  let elements ← Reader.list16 do return (← Reader.index, ← value)
  return ⟨type, elements⟩

/-- Values nested at most `depth` deep. -/
def read : (depth : Nat) → Reader ElementValue
  | 0 => throw (.read .endOfBytes)
  | depth + 1 => do
    let tag ← Reader.u8
    if isConstTag tag then return .const tag (← Reader.index)
    else if tag = enumTag then return .enumConst (← Reader.index) (← Reader.index)
    else if tag = classTag then return .classLiteral (← Reader.index)
    else if tag = annotationTag then return .nested (← readAnnotationInfo (read depth))
    else if tag = arrayTag then return .array (← Reader.list16 (read depth))
    else throw (.unknownElementValueTag tag)

end ElementValue

def AnnotationInfo.read (depth : Nat) : Reader AnnotationInfo :=
  ElementValue.readAnnotationInfo (ElementValue.read depth)

mutual

def ElementValue.write : ElementValue → Written
  | .const tag value => .ok (tag :: Bytes.ofWord16 value)
  | .enumConst type name => .ok (ElementValue.enumTag :: Bytes.ofWord16 type ++ Bytes.ofWord16 name)
  | .classLiteral descriptor => .ok (ElementValue.classTag :: Bytes.ofWord16 descriptor)
  | .nested a => do return ElementValue.annotationTag :: (← a.write)
  | .array values => do
    let n ← Writer.length16 values.length
    return ElementValue.arrayTag :: Bytes.ofWord16 n ++ (← ElementValue.writeAll values)

def ElementValue.writeAll : List ElementValue → Written
  | [] => .ok []
  | v :: vs => do
    let bytes ← v.write
    return bytes ++ (← ElementValue.writeAll vs)

def AnnotationInfo.write : AnnotationInfo → Written
  | ⟨type, elements⟩ => do
    let n ← Writer.length16 elements.length
    return Bytes.ofWord16 type ++ Bytes.ofWord16 n ++ (← AnnotationInfo.writeElements elements)

def AnnotationInfo.writeElements : List (Index × ElementValue) → Written
  | [] => .ok []
  | (name, v) :: rest => do
    let bytes ← v.write
    return Bytes.ofWord16 name ++ bytes ++ (← AnnotationInfo.writeElements rest)

end

/-! ## Annotations on types -/

/-- A range of a local variable. -/
structure LocalVarTarget where
  start : UInt16
  length : UInt16
  index : UInt16
deriving DecidableEq, Repr

namespace LocalVarTarget

def read : Reader LocalVarTarget := do
  return ⟨← Reader.u16, ← Reader.u16, ← Reader.u16⟩

def write (t : LocalVarTarget) : Written :=
  .ok (Bytes.ofWord16 t.start ++ Bytes.ofWord16 t.length ++ Bytes.ofWord16 t.index)

end LocalVarTarget

/-- Which type of a declaration or an expression is annotated. -/
inductive Target where
  | typeParameter (index : UInt8)
  | supertype (index : UInt16)
  | typeParameterBound (parameter bound : UInt8)
  | empty
  | formalParameter (index : UInt8)
  | thrown (index : UInt16)
  | localVar (ranges : List LocalVarTarget)
  | caught (handler : UInt16)
  | offset (offset : UInt16)
  | typeArgument (offset : UInt16) (index : UInt8)
deriving DecidableEq, Repr

namespace Target

/-- The target type decides the shape of the target. -/
def read (type : UInt8) : Reader Target :=
  if type ≤ 0x01 then do return .typeParameter (← Reader.u8)
  else if type = 0x10 then do return .supertype (← Reader.u16)
  else if type = 0x11 ∨ type = 0x12 then do
    return .typeParameterBound (← Reader.u8) (← Reader.u8)
  else if 0x13 ≤ type ∧ type ≤ 0x15 then return .empty
  else if type = 0x16 then do return .formalParameter (← Reader.u8)
  else if type = 0x17 then do return .thrown (← Reader.u16)
  else if type = 0x40 ∨ type = 0x41 then do
    return .localVar (← Reader.list16 LocalVarTarget.read)
  else if type = 0x42 then do return .caught (← Reader.u16)
  else if 0x43 ≤ type ∧ type ≤ 0x46 then do return .offset (← Reader.u16)
  else if 0x47 ≤ type ∧ type ≤ 0x4B then do
    return .typeArgument (← Reader.u16) (← Reader.u8)
  else throw (.unknownTargetType type)

def write : Target → Written
  | .typeParameter index | .formalParameter index => .ok [index]
  | .supertype n | .thrown n | .caught n | .offset n =>
    .ok (Bytes.ofWord16 n)
  | .typeParameterBound parameter bound => .ok [parameter, bound]
  | .empty => .ok []
  | .localVar ranges => Writer.list16 LocalVarTarget.write ranges
  | .typeArgument n index => .ok (Bytes.ofWord16 n ++ [index])

end Target

/-- A step from a type to a part of it. -/
structure PathStep where
  kind : UInt8
  argument : UInt8
deriving DecidableEq, Repr

namespace PathStep

def read : Reader PathStep := do return ⟨← Reader.u8, ← Reader.u8⟩

def write (s : PathStep) : Written := .ok [s.kind, s.argument]

end PathStep

structure TypeAnnotationInfo where
  targetType : UInt8
  target : Target
  path : List PathStep
  info : AnnotationInfo

namespace TypeAnnotationInfo

def read (depth : Nat) : Reader TypeAnnotationInfo := do
  let targetType ← Reader.u8
  let target ← Target.read targetType
  let path ← Reader.list8 PathStep.read
  let info ← AnnotationInfo.read depth
  return ⟨targetType, target, path, info⟩

def write (a : TypeAnnotationInfo) : Written := do
  let target ← a.target.write
  let path ← Writer.list8 PathStep.write a.path
  let info ← a.info.write
  return a.targetType :: target ++ path ++ info

end TypeAnnotationInfo

/-- The annotations of each parameter of a method. -/
abbrev ParameterAnnotations := List (List AnnotationInfo)

namespace ParameterAnnotations

def read (depth : Nat) : Reader ParameterAnnotations :=
  Reader.list8 (Reader.list16 (AnnotationInfo.read depth))

def write (ps : ParameterAnnotations) : Written :=
  Writer.list8 (Writer.list16 AnnotationInfo.write) ps

end ParameterAnnotations

end Repackage
