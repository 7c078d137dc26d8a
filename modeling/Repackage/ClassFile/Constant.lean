import Repackage.ClassFile.Reader
import Repackage.Text.ModifiedUtf8

/-!
# Constants

The entries of a constant pool. A text whose bytes are not modified UTF-8 is kept as its
bytes, and floating-point numbers are kept as their bits, so that every constant is
written as it was read.
-/

namespace Repackage

/-- What a method handle does with its member. -/
inductive HandleKind where
  | getField | getStatic | putField | putStatic
  | invokeVirtual | invokeStatic | invokeSpecial | newInvokeSpecial | invokeInterface
deriving DecidableEq, Repr

namespace HandleKind

def tag : HandleKind → UInt8
  | .getField => 1
  | .getStatic => 2
  | .putField => 3
  | .putStatic => 4
  | .invokeVirtual => 5
  | .invokeStatic => 6
  | .invokeSpecial => 7
  | .newInvokeSpecial => 8
  | .invokeInterface => 9

def ofTag? : UInt8 → Option HandleKind
  | 1 => some .getField
  | 2 => some .getStatic
  | 3 => some .putField
  | 4 => some .putStatic
  | 5 => some .invokeVirtual
  | 6 => some .invokeStatic
  | 7 => some .invokeSpecial
  | 8 => some .newInvokeSpecial
  | 9 => some .invokeInterface
  | _ => none

def read : Reader HandleKind := do
  let tag ← Reader.u8
  match ofTag? tag with
  | some kind => return kind
  | none => throw (.unknownHandleKind tag)

end HandleKind

inductive Constant where
  | utf8 (text : String)
  | rawUtf8 (bytes : Bytes)
  | integer (value : Int32)
  | float (bits : UInt32)
  | long (value : Int64)
  | double (bits : UInt64)
  | classInfo (name : Index)
  | string (text : Index)
  | fieldRef (owner nameAndType : Index)
  | methodRef (owner nameAndType : Index) (isInterface : Bool)
  | nameAndType (name descriptor : Index)
  | methodHandle (kind : HandleKind) (member : Index)
  | methodType (descriptor : Index)
  | dynamic (bootstrap : UInt16) (nameAndType : Index)
  | invokeDynamic (bootstrap : UInt16) (nameAndType : Index)
  | module (name : Index)
  | package (name : Index)
deriving DecidableEq, Repr

namespace Constant

/-- Eight-byte numbers take two indices. -/
def isWide : Constant → Bool
  | .long _ | .double _ => true
  | _ => false

/-- How many indices the constant takes. -/
def width (c : Constant) : Nat := if c.isWide then 2 else 1

theorem width_pos (c : Constant) : 0 < c.width := by
  unfold width
  split <;> decide

/-- A text, kept as bytes if it is not encoded as it should be. -/
def ofText (bytes : Bytes) : Constant :=
  match ModifiedUtf8.decode? bytes with
  | some text => .utf8 text
  | none => .rawUtf8 bytes

/-- Reads what follows the tag; `index` is named if the tag is unknown. -/
def readBody (index : Index) : (tag : UInt8) → Reader Constant
  | 1 => do
    let n ← Reader.u16
    return ofText (← Reader.take n.toNat fun _ => .truncatedText)
  | 3 => do return .integer (← Reader.u32).toInt32
  | 4 => do return .float (← Reader.u32)
  | 5 => do return .long (← Reader.u64).toInt64
  | 6 => do return .double (← Reader.u64)
  | 7 => do return .classInfo (← Reader.index)
  | 8 => do return .string (← Reader.index)
  | 9 => do return .fieldRef (← Reader.index) (← Reader.index)
  | 10 => do return .methodRef (← Reader.index) (← Reader.index) false
  | 11 => do return .methodRef (← Reader.index) (← Reader.index) true
  | 12 => do return .nameAndType (← Reader.index) (← Reader.index)
  | 15 => do return .methodHandle (← HandleKind.read) (← Reader.index)
  | 16 => do return .methodType (← Reader.index)
  | 17 => do return .dynamic (← Reader.u16) (← Reader.index)
  | 18 => do return .invokeDynamic (← Reader.u16) (← Reader.index)
  | 19 => do return .module (← Reader.index)
  | 20 => do return .package (← Reader.index)
  | tag => throw (.unknownConstantTag tag index)

def read (index : Index) : Reader Constant := do
  let tag ← Reader.u8
  readBody index tag

def tag : Constant → UInt8
  | .utf8 _ | .rawUtf8 _ => 1
  | .integer _ => 3
  | .float _ => 4
  | .long _ => 5
  | .double _ => 6
  | .classInfo _ => 7
  | .string _ => 8
  | .fieldRef _ _ => 9
  | .methodRef _ _ isInterface => if isInterface then 11 else 10
  | .nameAndType _ _ => 12
  | .methodHandle _ _ => 15
  | .methodType _ => 16
  | .dynamic _ _ => 17
  | .invokeDynamic _ _ => 18
  | .module _ => 19
  | .package _ => 20

def writeText (bytes : Bytes) : Written := do
  return Bytes.ofWord16 (← Writer.length16 bytes.length) ++ bytes

def writeBody : Constant → Written
  | .utf8 text => writeText (ModifiedUtf8.encode text)
  | .rawUtf8 bytes => writeText bytes
  | .integer value => .ok (Bytes.ofWord32 value.toUInt32)
  | .float bits => .ok (Bytes.ofWord32 bits)
  | .long value => .ok (Bytes.ofWord64 value.toUInt64)
  | .double bits => .ok (Bytes.ofWord64 bits)
  | .classInfo i | .string i | .methodType i | .module i | .package i => .ok (Bytes.ofWord16 i)
  | .fieldRef i j | .methodRef i j _ | .nameAndType i j | .dynamic i j | .invokeDynamic i j =>
    .ok (Bytes.ofWord16 i ++ Bytes.ofWord16 j)
  | .methodHandle kind member => .ok (kind.tag :: Bytes.ofWord16 member)

def write (c : Constant) : Written := do
  return c.tag :: (← c.writeBody)

end Constant

end Repackage
