import Std.Data.TreeMap
import Repackage.ClassFile.Constant
import Repackage.ClassFile.OffsetArray

/-!
# Constant pools

The constants of a pool are addressed by offsets that start at 1. An eight-byte number takes
up two of them, all other constants one. An index is an offset of sixteen bits, so a pool
with larger offsets hands out their low bits.

`utf8s` remembers, for a text, the index under which it was first entered. Entering a
text that is known leaves the memory alone; replacing an entry forgets the text it held
if that was remembered under its index, and does not look for another entry with it.
-/

namespace Repackage

structure Pool where
  table : OffsetArray Constant.width 1
  utf8s : Std.TreeMap String Index

namespace Pool

def empty : Pool := ⟨.empty, ∅⟩

/-- One more than the largest index, counting the second ones of wide constants. -/
def count (p : Pool) : Nat := p.table.next

/-- The number of constants. -/
def size (p : Pool) : Nat := p.table.size

def isEmpty (p : Pool) : Bool := p.size == 0

/-- The constants with their indices, in order. -/
def entries (p : Pool) : List (Index × Constant) :=
  p.table.entries.toList.map fun (offset, c) => (UInt16.ofNat offset, c)

def toList (p : Pool) : List Constant := p.table.toList

/-- The index that the next constant gets. -/
def nextIndex (p : Pool) : Index := .ofNat p.count

/-- Remembers the index of a text, unless there is one already. -/
def remember (c : Constant) (i : Index) (utf8s : Std.TreeMap String Index) :
    Std.TreeMap String Index :=
  match c with
  | .utf8 text => utf8s.insertIfNew text i
  | _ => utf8s

/-- Forgets the index of a text if it is `i`. -/
def forget (c : Constant) (i : Index) (utf8s : Std.TreeMap String Index) :
    Std.TreeMap String Index :=
  match c with
  | .utf8 text => if utf8s[text]? = some i then utf8s.erase text else utf8s
  | _ => utf8s

/-- Adds a constant at the end, where it gets the index `nextIndex`. -/
def push (p : Pool) (c : Constant) : Pool :=
  let utf8s := remember c p.nextIndex p.utf8s
  ⟨p.table.push c, utf8s⟩

def ofList (cs : List Constant) : Pool := cs.foldl push empty

def get (p : Pool) (i : Index) : Except ClassError Constant :=
  match p.table.get i.toNat with
  | .ok (_, c) => .ok c
  | .error _ => .error (.missingConstant i)

def utf8 (p : Pool) (i : Index) : Except ClassError String := do
  match ← p.get i with
  | .utf8 text => return text
  | _ => throw (.unexpectedConstant i .utf8)

/-- The index of the name of a class. -/
def classNameIndex (p : Pool) (i : Index) : Except ClassError Index := do
  match ← p.get i with
  | .classInfo name => return name
  | _ => throw (.unexpectedConstant i .classInfo)

def className (p : Pool) (i : Index) : Except ClassError String := do
  p.utf8 (← p.classNameIndex i)

/-- The indices of a name and a descriptor. -/
def nameAndType (p : Pool) (i : Index) : Except ClassError (Index × Index) := do
  match ← p.get i with
  | .nameAndType name descriptor => return (name, descriptor)
  | _ => throw (.unexpectedConstant i .nameAndType)

/-- The remembered index of a text. -/
def find? (p : Pool) (text : String) : Option Index := p.utf8s[text]?

/-- The index of the first constant equal to `c`. -/
def indexOf? (p : Pool) (c : Constant) : Option Index :=
  (p.entries.find? fun (_, d) => d = c).map Prod.fst

/-- The index of a constant, which is added if the pool has none equal to it. -/
def intern (p : Pool) (c : Constant) : Pool × Index :=
  match p.indexOf? c with
  | some i => (p, i)
  | none => (p.push c, p.nextIndex)

/-- The index of a text, which is added if none is remembered. -/
def internUtf8 (p : Pool) (text : String) : Pool × Index :=
  match p.find? text with
  | some i => (p, i)
  | none => (p.push (.utf8 text), p.nextIndex)

def internClass (p : Pool) (name : String) : Pool × Index :=
  let (p, name) := p.internUtf8 name
  p.intern (.classInfo name)

def internNameAndType (p : Pool) (name descriptor : String) : Pool × Index :=
  let (p, name) := p.internUtf8 name
  let (p, descriptor) := p.internUtf8 descriptor
  p.intern (.nameAndType name descriptor)

/-- Puts a constant in the place of one of the same width, which is returned. The pool is
what it is then, also if this fails. -/
def exchange (p : Pool) (i : Index) (c : Constant) : Except ClassError Constant × Pool :=
  match p.table.set i.toNat c with
  | (.ok (_, old), table) => (.ok old, ⟨table, remember c i (forget old i p.utf8s)⟩)
  | (.error (.incompatibleWidth _ _), table) => (.error (.incompatibleWidth i), ⟨table, p.utf8s⟩)
  | (.error _, table) => (.error (.missingConstant i), ⟨table, p.utf8s⟩)

/-- What an exchange gives if it succeeds. -/
def replace (p : Pool) (i : Index) (c : Constant) : Except ClassError (Constant × Pool) :=
  match p.exchange i c with
  | (.ok old, p') => .ok (old, p')
  | (.error e, _) => .error e

/-! ## In bytes -/

/-- Adds constants until `left` indices are taken. An eight-byte number does not fit if only
one is left. -/
def readEntries (count : UInt16) : (left : Nat) → Pool → Reader Pool
  | 0, p => pure p
  | left + 1, p => do
    let c ← Constant.read p.nextIndex
    if c.isWide then
      match left with
      | 0 => throw (.missingConstant count)
      | left + 1 => readEntries count left (p.push c)
    else readEntries count left (p.push c)

def read : Reader Pool := do
  let count ← Reader.u16
  if count = 0 then throw (.missingConstant 0)
  readEntries count (count.toNat - 1) empty

def write (p : Pool) : Written := do
  let count ← Writer.length16 p.count
  return Bytes.ofWord16 count ++ (← Writer.items Constant.write p.toList)

end Pool

end Repackage
