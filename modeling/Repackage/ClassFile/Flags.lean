import Repackage.ClassFile.Error

/-!
# Access flags

Access flags are sixteen bits. Which bits have a name depends on what the flags belong
to; the others are kept as they are.
-/

namespace Repackage

/-- What access flags belong to. -/
inductive FlagOwner where
  | ofClass
  | ofMethod
  | ofField
  | ofInnerClass
deriving DecidableEq, Repr

namespace FlagOwner

/-- The flags with a name, lowest bit first. -/
def known : FlagOwner → List (UInt16 × String)
  | .ofClass =>
    [(0x0001, "PUBLIC"), (0x0010, "FINAL"), (0x0020, "SUPER"), (0x0200, "INTERFACE"),
     (0x0400, "ABSTRACT"), (0x1000, "SYNTHETIC"), (0x2000, "ANNOTATION"), (0x4000, "ENUM"),
     (0x8000, "MODULE")]
  | .ofMethod =>
    [(0x0001, "PUBLIC"), (0x0002, "PRIVATE"), (0x0004, "PROTECTED"), (0x0008, "STATIC"),
     (0x0010, "FINAL"), (0x0020, "SYNCHRONIZED"), (0x0040, "BRIDGE"), (0x0080, "VARARGS"),
     (0x0100, "NATIVE"), (0x0400, "ABSTRACT"), (0x0800, "STRICT"), (0x1000, "SYNTHETIC")]
  | .ofField =>
    [(0x0001, "PUBLIC"), (0x0002, "PRIVATE"), (0x0004, "PROTECTED"), (0x0008, "STATIC"),
     (0x0010, "FINAL"), (0x0040, "VOLATILE"), (0x0080, "TRANSIENT"), (0x1000, "SYNTHETIC"),
     (0x4000, "ENUM")]
  | .ofInnerClass =>
    [(0x0001, "PUBLIC"), (0x0002, "PRIVATE"), (0x0004, "PROTECTED"), (0x0008, "STATIC"),
     (0x0010, "FINAL"), (0x0200, "INTERFACE"), (0x0400, "ABSTRACT"), (0x1000, "SYNTHETIC"),
     (0x2000, "ANNOTATION"), (0x4000, "ENUM")]

/-- The names of the flags that are set, lowest bit first. -/
def names (owner : FlagOwner) (bits : UInt16) : List String :=
  owner.known.filterMap fun (bit, name) => if bits &&& bit ≠ 0 then some name else none

/-- The bits that are set and have no name. -/
def unknown (owner : FlagOwner) (bits : UInt16) : UInt16 :=
  owner.known.foldl (fun rest (bit, _) => rest &&& ~~~bit) bits

end FlagOwner

end Repackage
