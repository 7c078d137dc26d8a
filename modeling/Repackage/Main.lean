import Repackage.Command.Run

/-!
# The command

Runs the program on the real files. Errors are logged on standard error, and the report
is coloured unless the terminal is a dumb one or colours are unwanted.
-/

namespace Repackage

/-- The failures that the system reports keep their number. -/
def FileError.ofIOError : IO.Error → FileError
  | .noFileOrDirectory _ code text | .inappropriateType none code text
  | .inappropriateType (some _) code text | .alreadyExists _ code text
  | .permissionDenied _ code text | .invalidArgument _ code text | .otherError code text =>
    .system code.toNat text
  | e => .system 5 (toString e)

/-- Runs a file operation and keeps its failure. -/
def attempt {α : Type} (action : IO α) : IO (Except FileError α) := do
  match ← action.toBaseIO with
  | .ok x => return .ok x
  | .error e => return .error (.ofIOError e)

/-- The files below a directory; what cannot be looked into is left out. -/
partial def listFiles (directory : Path) (place : Place) : IO (List Place) := do
  let here := (← IO.currentDir) / directory.text
  let names ← try (·.toList.map (·.fileName)) <$> here.readDir catch _ => pure []
  let sorted := names.mergeSort fun a b => !decide (b < a)
  let below ← sorted.mapM fun (name : String) => do
    let path := here / name
    if ← path.isDir then listFiles (directory.join ⟨[name]⟩) (place ++ [name])
    else if ← path.pathExists then return [place ++ [name]]
    else return []
  return below.flatten

instance : Host IO where
  readFile p := attempt do return (← IO.FS.readBinFile p.text).toList
  isFile p := do
    let path := (← IO.currentDir) / p.text
    return (← path.pathExists) && !(← path.isDir)
  filesBelow p := listFiles p []
  createDirectories p := attempt (unless p.names.isEmpty do IO.FS.createDirAll p.text)
  writeFile p bytes := attempt (IO.FS.writeBinFile p.text ⟨bytes.toArray⟩)
  print text := do
    let out ← IO.getStdout
    out.putStr text
  log level text := if level = .error then IO.eprintln s!"[{level.label}] {text}" else pure ()

/-- Colours are shown by a terminal that is named and not dumb, unless they are unwanted. -/
def wantsColor (terminal noColor : Option String) : Bool :=
  noColor.isNone && terminal.isSome && terminal ≠ some "dumb"

end Repackage

def main (arguments : List String) : IO UInt32 := do
  let color := Repackage.wantsColor (← IO.getEnv "TERM") (← IO.getEnv "NO_COLOR")
  let ending ← Repackage.runProgram arguments color
  match ending with
  | .wrongUsage => IO.eprintln "error: wrong usage\n\nFor more information, try '--help'."
  | .stopped cause => IO.eprintln s!"Error: {cause.detail}"
  | _ => pure ()
  return ending.status.toUInt32
