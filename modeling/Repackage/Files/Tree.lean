import Repackage.Bytes
import Repackage.Files.Error
import Repackage.Files.Path

/-!
# File trees

A file tree says for each place, which is a list of names from the root, whether a file
or a directory is there. A path is followed from the root or the working directory, name
by name; each name but the last must be that of a directory.
-/

namespace Repackage

/-- Where something is in a tree, from the root. -/
abbrev Place := List String

inductive Node where
  | file (bytes : Bytes)
  | directory
deriving DecidableEq, Repr

/-- The root is always there and need not be listed. -/
structure FileTree where
  nodes : List (Place × Node) := []
  working : Place := []

namespace FileTree

def node? (t : FileTree) (place : Place) : Option Node :=
  if place.isEmpty then some .directory else t.nodes.lookup place

def put (t : FileTree) (place : Place) (node : Node) : FileTree :=
  { t with nodes := (place, node) :: t.nodes.filter (·.1 ≠ place) }

/-- Puts a file and the directories above it. -/
def addFile (t : FileTree) (place : Place) (bytes : Bytes) : FileTree :=
  let above := (List.range place.length).map place.take
  (above.foldl (fun t place => if place.isEmpty then t else t.put place .directory) t).put place
    (.file bytes)

/-- The longest name, and the longest text of a path, in bytes. -/
def maxName : Nat := 255
def maxPath : Nat := 4095

/-- Follows names from a place. -/
def follow (t : FileTree) (place : Place) : List String → Except FileError Place
  | [] => .ok place
  | name :: names =>
    match t.node? place with
    | none => .error .notFound
    | some (.file _) => .error .notADirectory
    | some .directory =>
      if name.utf8ByteSize > maxName then .error .nameTooLong
      else if name = ".." then follow t place.dropLast names
      else follow t (place ++ [name]) names

/-- Where a path leads. There may be nothing at that place. -/
def locate (t : FileTree) (p : Path) : Except FileError Place :=
  if p.text.toList.any (·.toNat = 0) then .error .nullInName
  else if p.text.utf8ByteSize > maxPath then .error .nameTooLong
  else t.follow (if p.absolute then [] else t.working) p.names

/-- What a path leads to. -/
def stat (t : FileTree) (p : Path) : Except FileError Node := do
  match t.node? (← t.locate p), p.isDirectory with
  | none, _ => throw .notFound
  | some (.file _), true => throw .notADirectory
  | some node, _ => return node

def isFile (t : FileTree) (p : Path) : Bool :=
  match t.stat p with
  | .ok (.file _) => true
  | _ => false

def isDirectory (t : FileTree) (p : Path) : Bool :=
  match t.stat p with
  | .ok .directory => true
  | _ => false

def readFile (t : FileTree) (p : Path) : Except FileError Bytes := do
  match ← t.stat p with
  | .file bytes => return bytes
  | .directory => throw .isADirectory

/-- The files below a directory, by their names from there, each directory in the order of
its names. A directory whose path is too long is not looked into. -/
def filesBelow (t : FileTree) (p : Path) : List Place :=
  match t.locate p with
  | .error _ => []
  | .ok place =>
    if t.node? place = some .directory then
      let files := t.nodes.filterMap fun (q, node) =>
        match node with
        | .file _ => place.isPrefixOf? q
        | .directory => none
      let found := files.filter fun file => (t.locate (p.join ⟨file.dropLast⟩)).toBool
      found.mergeSort fun a b => !decide (b < a)
    else []

/-- Writes a file, in the place of one that is there. -/
def writeFile (t : FileTree) (p : Path) (bytes : Bytes) : Except FileError FileTree := do
  let place ← t.locate p
  if t.node? place = some .directory || p.isDirectory then throw .isADirectory
  return t.put place (.file bytes)

def createDirectory (t : FileTree) (p : Path) : Except FileError FileTree := do
  let place ← t.locate p
  if (t.node? place).isSome then throw .alreadyThere
  return t.put place .directory

/-- Creates a directory, unless it is there. -/
def ensureDirectory (t : FileTree) (p : Path) : FileTree × Except FileError Unit :=
  match t.createDirectory p with
  | .ok t => (t, .ok ())
  | .error e => (t, if t.isDirectory p then .ok () else .error e)

/-- Creates a directory and those above it that are missing; the pieces of the path come
last first. -/
def createDirectoriesAt (t : FileTree) : List String → FileTree × Except FileError Unit
  | [] => (t, .ok ())
  | piece :: above =>
    if Path.isVoid piece then createDirectoriesAt t above
    else
      let p : Path := ⟨(piece :: above).reverse⟩
      match t.ensureDirectory p with
      | (t, .ok ()) => (t, .ok ())
      | (t, .error e) =>
        if e = .notFound then
          match createDirectoriesAt t above with
          | (t, .ok ()) => t.ensureDirectory p
          | (t, .error e) => (t, .error e)
        else (t, .error e)

def createDirectories (t : FileTree) (p : Path) : FileTree × Except FileError Unit :=
  t.createDirectoriesAt p.pieces.reverse

end FileTree

end Repackage
