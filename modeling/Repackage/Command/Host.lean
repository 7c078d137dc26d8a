import Repackage.Files.Tree
import Repackage.Report.Event

/-!
# Where a run takes place

`Host` is what a run needs of its surroundings: files, a place to print the report and
one to log. A `World` is such surroundings as a value.
-/

namespace Repackage

class Host (m : Type → Type) where
  readFile : Path → m (Except FileError Bytes)
  isFile : Path → m Bool
  /-- The files below a directory, by their names from there, in order. -/
  filesBelow : Path → m (List Place)
  createDirectories : Path → m (Except FileError Unit)
  writeFile : Path → Bytes → m (Except FileError Unit)
  print : String → m Unit
  log : Level → String → m Unit

structure World where
  files : FileTree
  printed : String := ""

instance : Host (StateM World) where
  readFile p := return (← get).files.readFile p
  isFile p := return (← get).files.isFile p
  filesBelow p := return (← get).files.filesBelow p
  createDirectories p := modifyGet fun w =>
    let (files, result) := w.files.createDirectories p
    (result, { w with files })
  writeFile p bytes := modifyGet fun w =>
    match w.files.writeFile p bytes with
    | .ok files => (.ok (), { w with files })
    | .error e => (.error e, w)
  print text := modify fun w => { w with printed := w.printed ++ text }
  log _ _ := pure ()

end Repackage
