import Repackage.ClassFile.Basic
import Repackage.Renaming.Attributes
import Repackage.Renaming.Relocation

/-!
# Renaming in a class file

The parts of a class are renamed in a fixed order: the class itself, its superclass, its
interfaces, fields, methods and attributes, and last what is left in the constant pool.
Each part that changes is counted.

`Table.transform` renames a resource given as bytes. A class that cannot be read or
renamed is left as it is, which is told; only a constant of an unknown kind is an error,
for then the format is a newer one and its references would be missed.
-/

namespace Repackage

namespace Rewrite

variable {α : Type}

/-- Rewrites the items of a list and counts those that changed. -/
def rewriteCounting (rewrite : α → Rewrite (Option α)) : List α → Rewrite (List α × Nat)
  | [] => return ([], 0)
  | x :: xs => do
    let x' ← rewrite x
    let (xs', count) ← rewriteCounting rewrite xs
    return (x'.getD x :: xs', if x'.isSome then count + 1 else count)

def rewriteMember (kind : SignatureKind) (m : Member) : Rewrite (Option Member) := do
  let descriptor ← renameUtf8 .descriptor m.descriptor
  let attributes ← rewriteAttributes kind m.attributes
  if descriptor.isNone && attributes.isNone then return none
  return some { m with
    descriptor := descriptor.getD m.descriptor
    attributes := attributes.getD m.attributes }

def rewriteField (m : Member) : Rewrite (Option Member) := do
  tell (.fieldVisited m.name)
  rewriteMember .ofField m

def rewriteMethod (m : Member) : Rewrite (Option Member) := do
  tell (.methodVisited m.name)
  rewriteMember .ofMethod m

/-- The name of a class before and after it is renamed. -/
def renameNamed (i : Index) (name : String) : Rewrite (Change String) := do
  if ← renameClass i then return ⟨name, ← (← get).pool.className i⟩
  else return .unchanged name

/-- The renaming of the class itself, and where its resource goes. -/
def renameThis (resource : String) (i : Index) (name : String) :
    Rewrite (Change String × Change String) := do
  if ← renameClass i then
    let renamed ← (← get).pool.className i
    tellAll (Relocation.events resource name renamed)
    return (⟨resource, Relocation.target resource name renamed⟩, ⟨name, renamed⟩)
  else return (.unchanged resource, .unchanged name)

/-- The renaming of the superclass, if there is one. -/
def renameSuper : Option (Index × String) → Rewrite (Change (Option String))
  | none => return .unchanged none
  | some (i, name) => do
    let change ← renameNamed i name
    return ⟨some change.input, some change.output⟩

/-- Renames all in a class, except for its pool, which is the state. -/
def rewriteClassFile (resource : String) (c : ClassFile) : Rewrite (ClassFile × Changes) := do
  let superName ← c.superClass.mapM fun i => return (i, ← (← get).pool.className i)
  let thisName ← (← get).pool.className c.thisClass
  let (resource, className) ← renameThis resource c.thisClass thisName
  let superName ← renameSuper superName
  let (interfaces, interfaceCount) ← rewriteCounting rewriteClass c.interfaces
  let (fields, fieldCount) ← rewriteCounting rewriteField c.fields
  let (methods, methodCount) ← rewriteCounting rewriteMethod c.methods
  let (attributes, attributeCount) ← rewriteCounting (rewriteAttribute .ofClass) c.attributes
  let constantCount ← renamePool
  return ({ c with interfaces, fields, methods, attributes },
    { resource, className, superName
      interfaces := interfaceCount
      fields := fieldCount
      methods := methodCount
      attributes := attributeCount
      constants := constantCount })

end Rewrite

/-- Why a resource cannot be processed. -/
inductive TransformError where
  | unknownConstantTag (resource : String) (tag : UInt8) (index : Index)
  | read (resource cause : String)
  | write (resource : String) (cause : LengthError)
deriving DecidableEq, Repr

namespace TransformError

def resource : TransformError → String
  | .unknownConstantTag resource _ _ | .read resource _ | .write resource _ => resource

def message : TransformError → String
  | .unknownConstantTag resource tag index =>
    s!"{resource}: unknown constant pool tag {tag} at #{index}"
  | .read resource cause => s!"{resource}: failed to read: {cause}"
  | .write resource cause => s!"{resource}: failed to write: {cause.message}"

end TransformError

/-- A renamed resource and the name under which it goes. -/
structure Transformed where
  name : String
  bytes : Bytes
  changes : Changes

namespace Table

/-- Renames all in a class file. -/
def renameClassFile (t : Table) (resource : String) (c : ClassFile) :
    Except ClassError (ClassFile × Changes) × List Event :=
  let (result, s) :=
    (Rewrite.rewriteClassFile resource c).run.run { rules := t, pool := c.constants }
  (result.map fun (c, changes) => ({ c with constants := s.pool }, changes), s.events.toList)

/-- Renames a class file given as bytes; without a result it stays as it is. -/
def transform (t : Table) (resource : String) (bytes : Bytes) :
    Except TransformError (Option Transformed) × List Event :=
  match ClassFile.parse bytes with
  | .error (.unknownConstantTag tag index) =>
    (.error (.unknownConstantTag resource tag index), [])
  | .error cause => (.ok none, [.parseFailed resource cause])
  | .ok c =>
    match t.renameClassFile resource c with
    | (.error cause, events) => (.ok none, events ++ [.renameFailed resource cause])
    | (.ok (c, changes), events) =>
      if changes.any then
        match c.toBytes with
        | .error cause => (.error (.write resource cause), events)
        | .ok bytes =>
          (.ok (some ⟨changes.resource.output, bytes, changes⟩),
            events ++ [.classChanged resource changes])
      else (.ok none, events ++ [.classUnchanged resource])

end Table

end Repackage
