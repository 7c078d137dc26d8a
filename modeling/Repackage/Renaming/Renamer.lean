import Repackage.Renaming.Buffers
import Repackage.Renaming.ClassFile

/-!
# Renaming resources

A `Renamer` holds the rules for a run and the buffers for reading. It renames class
files, which it knows by the ending of their names.
-/

namespace Repackage

/-- What a reader hands out: some bytes, and then perhaps a failure. -/
structure Source where
  bytes : Bytes
  failure : Option String := none

structure Renamer where
  rules : Table
  buffers : Buffers := {}

namespace Renamer

/-- What this renamer is called in reports. -/
def name : String := "class"

/-- The resource is a class file. -/
def accepts (resource : String) : Bool := ".class".toList.isSuffixOf resource.toList

/-- Reads a resource into a buffer, renames it and gives the buffer back. -/
def transformSource (r : Renamer) (resource : String) (source : Source) :
    Renamer × Except TransformError (Option Transformed) × List Event :=
  let (buffers, n) := r.buffers.take
  let filled := (buffers.append? n source.bytes).getD buffers
  let result :=
    match source.failure with
    | some cause => (.error (.read resource cause), [])
    | none => r.rules.transform resource ((filled.read? n).getD [])
  ({ r with buffers := (filled.drop? n).getD filled }, result)

end Renamer

end Repackage
