import Repackage.ClassFile.Error

/-!
# Reading and writing the pieces of a class file

A `Reader` takes bytes from the front of what is left. Lists are preceded by their
length, in two bytes (`list16`) or in one (`list8`); the index 0 stands for a reference
that is absent (`optionalIndex`).

Beside each reader stands the function that writes what it reads. Writing fails only if
a length has no room in the bytes for it.
-/

namespace Repackage

abbrev Reader := StateT Bytes (Except ClassError)

namespace Reader

variable {α : Type}

def u8 : Reader UInt8
  | a :: rest => .ok (a, rest)
  | [] => .error (.read .endOfBytes)

def u16 : Reader UInt16
  | a :: b :: rest => .ok (Bytes.word16 a b, rest)
  | _ => .error (.read .endOfBytes)

def u32 : Reader UInt32 := do
  let a ← u16
  let b ← u16
  return Bytes.word32 a b

def u64 : Reader UInt64 := do
  let a ← u32
  let b ← u32
  return Bytes.word64 a b

def index : Reader Index := u16

def optionalIndex : Reader (Option Index) := do
  let i ← u16
  return if i = 0 then none else some i

/-- Exactly `n` bytes; `short` says what is wrong if only so many are left. -/
def take (n : Nat) (short : Nat → ReadError) : Reader Bytes := fun bytes =>
  let taken := bytes.take n
  if taken.length = n then .ok (taken, bytes.drop n) else .error (.read (short taken.length))

def blob (n : Nat) : Reader Bytes := take n (.shortBlob n)

/-- The same reader `n` times. -/
def times (item : Reader α) : Nat → Reader (List α)
  | 0 => pure []
  | n + 1 => do
    let x ← item
    let xs ← times item n
    return x :: xs

def list8 (item : Reader α) : Reader (List α) := do
  let n ← u8
  times item n.toNat

def list16 (item : Reader α) : Reader (List α) := do
  let n ← u16
  times item n.toNat

end Reader

/-- What writing gives. -/
abbrev Written := Except LengthError Bytes

namespace Writer

variable {α : Type}

def length8 (n : Nat) : Except LengthError UInt8 :=
  if n < 0x100 then .ok (.ofNat n) else .error ⟨n, 8⟩

def length16 (n : Nat) : Except LengthError UInt16 :=
  if n < 0x10000 then .ok (.ofNat n) else .error ⟨n, 16⟩

def length32 (n : Nat) : Except LengthError UInt32 :=
  if n < 0x100000000 then .ok (.ofNat n) else .error ⟨n, 32⟩

def optionalIndex (i : Option Index) : Bytes := Bytes.ofWord16 (i.getD 0)

/-- The items one after the other. -/
def items (item : α → Written) (xs : List α) : Written := do
  return (← xs.mapM item).flatten

def list8 (item : α → Written) (xs : List α) : Written := do
  let n ← length8 xs.length
  return n :: (← items item xs)

def list16 (item : α → Written) (xs : List α) : Written := do
  let n ← length16 xs.length
  return Bytes.ofWord16 n ++ (← items item xs)

end Writer

end Repackage
