import Repackage.Report.Event
import Repackage.Text.Cut

/-!
# Where a renamed class goes

A class file lies at the path of its class, perhaps under some directory. If it does, it
goes to the path of the new class under the same directory. If it lies elsewhere, its
place is approximated: directories that hold classes without being a part of their
package (`WEB-INF/classes`, and one for each release in `META-INF/versions`) are kept.
-/

namespace Repackage

namespace Relocation

def classPath (className : String) : List Char := className.toList ++ ".class".toList

/-- The new path, if the class lies at the path of its old name. -/
def samePlace? (resource oldClass newClass : String) : Option String := do
  let directory ← (classPath oldClass).isSuffixOf? resource.toList
  if directory.isEmpty || directory.getLast? = some '/' then
    return String.ofList (directory ++ classPath newClass)
  else none

def webClasses : List Char := "WEB-INF/classes/".toList

def versions : List Char := "META-INF/versions/".toList

/-- The directory of classes in which a resource lies, with its last slash. -/
def classDirectory (resource : List Char) : List Char :=
  if webClasses.isPrefixOf resource then webClasses
  else match versions.isPrefixOf? resource with
    | none => []
    | some rest =>
      match Text.splitFirst? '/' rest with
      | none => []
      | some (release, _) => versions ++ release ++ ['/']

def approximate (resource newClass : String) : String :=
  String.ofList (classDirectory resource.toList ++ classPath newClass)

/-- Where the resource of a class goes when the class is renamed. -/
def target (resource oldClass newClass : String) : String :=
  (samePlace? resource oldClass newClass).getD (approximate resource newClass)

/-- A place that is only approximate is told. -/
def events (resource oldClass newClass : String) : List Event :=
  match samePlace? resource oldClass newClass with
  | some _ => []
  | none => [.relocated resource newClass (approximate resource newClass)]

end Relocation

end Repackage
