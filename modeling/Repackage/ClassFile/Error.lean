import Repackage.Grammar.Error
import Repackage.Bytes

/-!
# Why a class file is refused

`ReadError` says how the bytes ran out and `LengthError` which length has no room in the
format. `ClassError` has one constructor for each thing that can be wrong with a class
file, in its bytes or between its constants.
-/

namespace Repackage

/-- The index of a constant. Index 0 is that of no constant. -/
abbrev Index := UInt16

/-- Hexadecimal digits in lower case, at least `width` of them. -/
def hexDigits (width n : Nat) : String :=
  let digits := Nat.toDigits 16 n
  String.ofList (List.replicate (width - digits.length) '0' ++ digits)

/-- How the bytes ran out. -/
inductive ReadError where
  | endOfBytes
  | truncatedText
  | shortBlob (expected found : Nat)
deriving DecidableEq, Repr

def ReadError.message : ReadError → String
  | .endOfBytes => "failed to fill whole buffer"
  | .truncatedText => "Truncated Utf8 constant"
  | .shortBlob expected found => s!"Expected {expected} bytes but only found {found}"

/-- A length that a field of `bits` bits cannot hold. -/
structure LengthError where
  length : Nat
  bits : Nat
deriving DecidableEq, Repr

def LengthError.message (e : LengthError) : String :=
  s!"Length {e.length} does not fit in a u{e.bits}"

/-- The kinds of constant that something else in a class file can ask for. -/
inductive ExpectedConstant where
  | utf8 | classInfo | nameAndType | methodType | string
deriving DecidableEq, Repr

def ExpectedConstant.label : ExpectedConstant → String
  | .utf8 => "Utf8"
  | .classInfo => "Class"
  | .nameAndType => "NameAndType"
  | .methodType => "MethodType"
  | .string => "String"

inductive ClassError where
  | read (cause : ReadError)
  | badMagic (magic : UInt32)
  | trailingBytes (count : Nat)
  | unknownConstantTag (tag : UInt8) (index : Index)
  | unknownHandleKind (kind : UInt8)
  | missingConstant (index : Index)
  | unexpectedConstant (index : Index) (expected : ExpectedConstant)
  | incompatibleWidth (index : Index)
  | unknownFrameType (tag : UInt8)
  | unknownVerificationType (tag : UInt8)
  | unknownElementValueTag (tag : UInt8)
  | unknownTargetType (tag : UInt8)
  | attributeLength (name : String) (declared consumed : Nat)
  | badDescriptor (text : String) (cause : SyntaxError)
deriving DecidableEq, Repr

def ClassError.message : ClassError → String
  | .read cause => s!"I/O error: {cause.message}"
  | .badMagic magic => s!"Bad class file magic 0x{hexDigits 8 magic.toNat}"
  | .trailingBytes count => s!"{count} trailing bytes after class file"
  | .unknownConstantTag tag index => s!"Unknown constant pool tag {tag} at #{index}"
  | .unknownHandleKind kind => s!"Unknown method handle kind {kind}"
  | .missingConstant index => s!"No constant at #{index}"
  | .unexpectedConstant index expected => s!"Expected {expected.label} constant at #{index}"
  | .incompatibleWidth index => s!"Replacement for #{index} has a different width"
  | .unknownFrameType tag => s!"Unknown stack map frame type {tag}"
  | .unknownVerificationType tag => s!"Unknown verification type {tag}"
  | .unknownElementValueTag tag => s!"Unknown element value tag '{Char.ofNat tag.toNat}'"
  | .unknownTargetType tag => s!"Unknown type annotation target 0x{hexDigits 1 tag.toNat}"
  | .attributeLength name declared consumed =>
    s!"Attribute {name} declares {declared} bytes but {consumed} were parsed"
  | .badDescriptor text cause => s!"Malformed descriptor '{text}': {cause.message}"

end Repackage
