import Repackage.ClassFile.Attribute

/-!
# Class files

A class file starts with a magic number and ends with its last attribute: bytes after
that are an error. `ClassFile.parse` reads the whole of a file and `ClassFile.toBytes`
writes it.
-/

namespace Repackage

structure Version where
  minor : UInt16
  major : UInt16
deriving DecidableEq, Repr

namespace Version

def read : Reader Version := do return ⟨← Reader.u16, ← Reader.u16⟩

def bytes (v : Version) : Bytes := Bytes.ofWord16 v.minor ++ Bytes.ofWord16 v.major

end Version

/-- A field or a method. -/
structure Member where
  access : UInt16
  name : Index
  descriptor : Index
  attributes : List Attribute

namespace Member

def read (p : Pool) (depth : Nat) : Reader Member := do
  let access ← Reader.u16
  let name ← Reader.index
  let descriptor ← Reader.index
  let attributes ← Reader.list16 (Attribute.read p depth)
  return ⟨access, name, descriptor, attributes⟩

def write (m : Member) : Written := do
  let attributes ← Writer.list16 Attribute.write m.attributes
  return Bytes.ofWord16 m.access ++ Bytes.ofWord16 m.name ++ Bytes.ofWord16 m.descriptor
    ++ attributes

end Member

/-- Only the root of all classes and modules have no superclass. -/
structure ClassFile where
  version : Version
  constants : Pool
  access : UInt16
  thisClass : Index
  superClass : Option Index
  interfaces : List Index
  fields : List Member
  methods : List Member
  attributes : List Attribute

namespace ClassFile

def magic : UInt32 := 0xCAFEBABE

/-- The attributes nest at most `depth` deep. -/
def read (depth : Nat) : Reader ClassFile := do
  let start ← Reader.u32
  if start ≠ magic then throw (.badMagic start)
  let version ← Version.read
  let constants ← Pool.read
  let access ← Reader.u16
  let thisClass ← Reader.index
  let superClass ← Reader.optionalIndex
  let interfaces ← Reader.list16 Reader.index
  let fields ← Reader.list16 (Member.read constants depth)
  let methods ← Reader.list16 (Member.read constants depth)
  let attributes ← Reader.list16 (Attribute.read constants depth)
  return ⟨version, constants, access, thisClass, superClass, interfaces, fields, methods,
    attributes⟩

def parse (bytes : Bytes) : Except ClassError ClassFile := do
  let (c, left) ← read bytes.length bytes
  if !left.isEmpty then throw (.trailingBytes left.length)
  return c

def toBytes (c : ClassFile) : Written := do
  let constants ← c.constants.write
  let interfaces ← Writer.list16 (fun i => .ok (Bytes.ofWord16 i)) c.interfaces
  let fields ← Writer.list16 Member.write c.fields
  let methods ← Writer.list16 Member.write c.methods
  let attributes ← Writer.list16 Attribute.write c.attributes
  return Bytes.ofWord32 magic ++ c.version.bytes ++ constants ++ Bytes.ofWord16 c.access
    ++ Bytes.ofWord16 c.thisClass ++ Writer.optionalIndex c.superClass ++ interfaces
    ++ fields ++ methods ++ attributes

/-- The name of the class itself. -/
def name (c : ClassFile) : Except ClassError String := c.constants.className c.thisClass

end ClassFile

end Repackage
