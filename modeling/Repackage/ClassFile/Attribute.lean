import Repackage.ClassFile.Annotations
import Repackage.ClassFile.Pool
import Repackage.ClassFile.StackMap

/-!
# Attributes

An attribute has a name in the constant pool and a body of so many bytes. The name
decides how the body is read; a body under any other name is kept as bytes. A body must
be read to its end. The code of a method has attributes of its own, so attributes are
read to a depth; each level is shorter than the one around it, hence the number of
bytes is depth enough.
-/

namespace Repackage

/-- A range of code and where its exceptions go; without a type all are caught. -/
structure Handler where
  start : UInt16
  stop : UInt16
  target : UInt16
  catchType : Option Index
deriving DecidableEq, Repr

namespace Handler

def read : Reader Handler := do
  return ⟨← Reader.u16, ← Reader.u16, ← Reader.u16, ← Reader.optionalIndex⟩

def write (h : Handler) : Written :=
  .ok (Bytes.ofWord16 h.start ++ Bytes.ofWord16 h.stop ++ Bytes.ofWord16 h.target
    ++ Writer.optionalIndex h.catchType)

end Handler

/-- A member class. Local classes have no outer class and anonymous ones no name. -/
structure InnerClass where
  inner : Index
  outer : Option Index
  name : Option Index
  access : UInt16
deriving DecidableEq, Repr

namespace InnerClass

def read : Reader InnerClass := do
  return ⟨← Reader.index, ← Reader.optionalIndex, ← Reader.optionalIndex, ← Reader.u16⟩

def write (c : InnerClass) : Written :=
  .ok (Bytes.ofWord16 c.inner ++ Writer.optionalIndex c.outer ++ Writer.optionalIndex c.name
    ++ Bytes.ofWord16 c.access)

end InnerClass

/-- A local variable; its type is a descriptor or a signature. -/
structure LocalVariable where
  start : UInt16
  length : UInt16
  name : Index
  type : Index
  index : UInt16
deriving DecidableEq, Repr

namespace LocalVariable

def read : Reader LocalVariable := do
  return ⟨← Reader.u16, ← Reader.u16, ← Reader.index, ← Reader.index, ← Reader.u16⟩

def write (v : LocalVariable) : Written :=
  .ok (Bytes.ofWord16 v.start ++ Bytes.ofWord16 v.length ++ Bytes.ofWord16 v.name
    ++ Bytes.ofWord16 v.type ++ Bytes.ofWord16 v.index)

end LocalVariable

/-- Whether annotations can be seen when the program runs. -/
inductive Retention where
  | visible
  | invisible
deriving DecidableEq, Repr

mutual

structure Attribute where
  name : Index
  body : AttributeBody

inductive AttributeBody where
  | constantValue (value : Index)
  | code (c : Code)
  | stackMapTable (frames : List Frame)
  | exceptions (classes : List Index)
  | innerClasses (classes : List InnerClass)
  | enclosingMethod (owner : Index) (method : Option Index)
  | signature (text : Index)
  | localVariableTable (vars : List LocalVariable)
  | localVariableTypeTable (vars : List LocalVariable)
  | annotations (retention : Retention) (as : List AnnotationInfo)
  | parameterAnnotations (retention : Retention) (ps : ParameterAnnotations)
  | typeAnnotations (retention : Retention) (as : List TypeAnnotationInfo)
  | annotationDefault (value : ElementValue)
  | nestHost (host : Index)
  | nestMembers (classes : List Index)
  | other (bytes : Bytes)

/-- The instructions are never looked into. -/
structure Code where
  maxStack : UInt16
  maxLocals : UInt16
  instructions : Bytes
  handlers : List Handler
  attributes : List Attribute

end

/-! ## Reading -/

/-- Code, given the reader of the attributes in it. -/
def Code.readWith (inner : Reader Attribute) : Reader Code := do
  let maxStack ← Reader.u16
  let maxLocals ← Reader.u16
  let length ← Reader.u32
  let instructions ← Reader.blob length.toNat
  let handlers ← Reader.list16 Handler.read
  let attributes ← Reader.list16 inner
  return ⟨maxStack, maxLocals, instructions, handlers, attributes⟩

/-- The body that goes with a name. Values nest at most `depth` deep. -/
def AttributeBody.readWith (inner : Reader Attribute) (depth : Nat) :
    (name : String) → Reader AttributeBody
  | "ConstantValue" => do return .constantValue (← Reader.index)
  | "Code" => do return .code (← Code.readWith inner)
  | "StackMapTable" => do return .stackMapTable (← Reader.list16 Frame.read)
  | "Exceptions" => do return .exceptions (← Reader.list16 Reader.index)
  | "InnerClasses" => do return .innerClasses (← Reader.list16 InnerClass.read)
  | "EnclosingMethod" => do return .enclosingMethod (← Reader.index) (← Reader.optionalIndex)
  | "Signature" => do return .signature (← Reader.index)
  | "LocalVariableTable" => do
    return .localVariableTable (← Reader.list16 LocalVariable.read)
  | "LocalVariableTypeTable" => do
    return .localVariableTypeTable (← Reader.list16 LocalVariable.read)
  | "RuntimeVisibleAnnotations" => do
    return .annotations .visible (← Reader.list16 (AnnotationInfo.read depth))
  | "RuntimeInvisibleAnnotations" => do
    return .annotations .invisible (← Reader.list16 (AnnotationInfo.read depth))
  | "RuntimeVisibleParameterAnnotations" => do
    return .parameterAnnotations .visible (← ParameterAnnotations.read depth)
  | "RuntimeInvisibleParameterAnnotations" => do
    return .parameterAnnotations .invisible (← ParameterAnnotations.read depth)
  | "RuntimeVisibleTypeAnnotations" => do
    return .typeAnnotations .visible (← Reader.list16 (TypeAnnotationInfo.read depth))
  | "RuntimeInvisibleTypeAnnotations" => do
    return .typeAnnotations .invisible (← Reader.list16 (TypeAnnotationInfo.read depth))
  | "AnnotationDefault" => do return .annotationDefault (← ElementValue.read depth)
  | "NestHost" => do return .nestHost (← Reader.index)
  | "NestMembers" => do return .nestMembers (← Reader.list16 Reader.index)
  | _ => fun bytes => .ok (.other bytes, [])

/-- Attributes nested at most `depth` deep. -/
def Attribute.read (p : Pool) : (depth : Nat) → Reader Attribute
  | 0 => throw (.read .endOfBytes)
  | depth + 1 => do
    let index ← Reader.index
    let length ← Reader.u32
    let bytes ← Reader.blob length.toNat
    let name ← p.utf8 index
    let (body, left) ← AttributeBody.readWith (Attribute.read p depth) length.toNat name bytes
    if !left.isEmpty then
      throw (.attributeLength name length.toNat (length.toNat - left.length))
    return ⟨index, body⟩

def Code.read (p : Pool) (depth : Nat) : Reader Code := Code.readWith (Attribute.read p depth)

/-! ## Writing -/

mutual

def Attribute.write : Attribute → Written
  | ⟨name, body⟩ => do
    let bytes ← body.write
    let length ← Writer.length32 bytes.length
    return Bytes.ofWord16 name ++ Bytes.ofWord32 length ++ bytes

def Attribute.writeAll : List Attribute → Written
  | [] => .ok []
  | a :: rest => do
    let bytes ← a.write
    return bytes ++ (← Attribute.writeAll rest)

def AttributeBody.write : AttributeBody → Written
  | .constantValue i | .signature i | .nestHost i => .ok (Bytes.ofWord16 i)
  | .code c => c.write
  | .stackMapTable frames => Writer.list16 Frame.write frames
  | .exceptions classes | .nestMembers classes =>
    Writer.list16 (fun i => .ok (Bytes.ofWord16 i)) classes
  | .innerClasses classes => Writer.list16 InnerClass.write classes
  | .enclosingMethod owner method =>
    .ok (Bytes.ofWord16 owner ++ Writer.optionalIndex method)
  | .localVariableTable vars | .localVariableTypeTable vars =>
    Writer.list16 LocalVariable.write vars
  | .annotations _ as => Writer.list16 AnnotationInfo.write as
  | .parameterAnnotations _ ps => ps.write
  | .typeAnnotations _ as => Writer.list16 TypeAnnotationInfo.write as
  | .annotationDefault value => value.write
  | .other bytes => .ok bytes

def Code.write : Code → Written
  | ⟨maxStack, maxLocals, instructions, handlers, attributes⟩ => do
    let length ← Writer.length32 instructions.length
    let handlers ← Writer.list16 Handler.write handlers
    let count ← Writer.length16 attributes.length
    let attributes ← Attribute.writeAll attributes
    return Bytes.ofWord16 maxStack ++ Bytes.ofWord16 maxLocals ++ Bytes.ofWord32 length
      ++ instructions ++ handlers ++ Bytes.ofWord16 count ++ attributes

end

/-- An attribute under a name that is added to the pool if it is not known. -/
def Attribute.named (p : Pool) (name : String) (body : AttributeBody) : Pool × Attribute :=
  let (p, index) := p.internUtf8 name
  (p, ⟨index, body⟩)

end Repackage
