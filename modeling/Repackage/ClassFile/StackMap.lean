import Repackage.ClassFile.Reader

/-!
# Stack map frames

A frame says which types the locals and the operand stack have at some point of a
method. The tag byte gives the shape of the frame, and for the short shapes also its
offset. A frame keeps the shape in which it was written, short or long.
-/

namespace Repackage

inductive VerificationType where
  | top | integer | float | double | long | null | uninitializedThis
  | object (name : Index)
  | uninitialized (offset : UInt16)
deriving DecidableEq, Repr

namespace VerificationType

def read : Reader VerificationType := do
  match ← Reader.u8 with
  | 0 => return .top
  | 1 => return .integer
  | 2 => return .float
  | 3 => return .double
  | 4 => return .long
  | 5 => return .null
  | 6 => return .uninitializedThis
  | 7 => return .object (← Reader.index)
  | 8 => return .uninitialized (← Reader.u16)
  | tag => throw (.unknownVerificationType tag)

def bytes : VerificationType → Bytes
  | .top => [0]
  | .integer => [1]
  | .float => [2]
  | .double => [3]
  | .long => [4]
  | .null => [5]
  | .uninitializedThis => [6]
  | .object name => 7 :: Bytes.ofWord16 name
  | .uninitialized offset => 8 :: Bytes.ofWord16 offset

def write (t : VerificationType) : Written := .ok t.bytes

end VerificationType

inductive Frame where
  | same (delta : UInt8)
  | sameLocalsOneStack (delta : UInt8) (stack : VerificationType)
  | sameLocalsOneStackExtended (delta : UInt16) (stack : VerificationType)
  | chop (delta : UInt16) (chopped : UInt8)
  | sameExtended (delta : UInt16)
  | append (delta : UInt16) (locals : List VerificationType)
  | full (delta : UInt16) (locals stack : List VerificationType)
deriving DecidableEq, Repr

namespace Frame

def read : Reader Frame := do
  let tag ← Reader.u8
  if tag < 64 then return .same tag
  else if tag < 128 then return .sameLocalsOneStack (tag - 64) (← VerificationType.read)
  else if tag < 247 then throw (.unknownFrameType tag)
  else if tag = 247 then
    return .sameLocalsOneStackExtended (← Reader.u16) (← VerificationType.read)
  else if tag < 251 then return .chop (← Reader.u16) (251 - tag)
  else if tag = 251 then return .sameExtended (← Reader.u16)
  else if tag < 255 then
    return .append (← Reader.u16) (← Reader.times VerificationType.read (tag - 251).toNat)
  else
    return .full (← Reader.u16) (← Reader.list16 VerificationType.read)
      (← Reader.list16 VerificationType.read)

def write : Frame → Written
  | .same delta => .ok [delta]
  | .sameLocalsOneStack delta stack => .ok ((delta + 64) :: stack.bytes)
  | .sameLocalsOneStackExtended delta stack =>
    .ok (247 :: Bytes.ofWord16 delta ++ stack.bytes)
  | .chop delta chopped => .ok ((251 - chopped) :: Bytes.ofWord16 delta)
  | .sameExtended delta => .ok (251 :: Bytes.ofWord16 delta)
  | .append delta locals =>
    .ok ((251 + .ofNat locals.length) :: Bytes.ofWord16 delta
      ++ locals.flatMap VerificationType.bytes)
  | .full delta locals stack => do
    let locals ← Writer.list16 VerificationType.write locals
    let stack ← Writer.list16 VerificationType.write stack
    return 255 :: Bytes.ofWord16 delta ++ locals ++ stack

end Frame

end Repackage
