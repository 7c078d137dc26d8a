import Repackage.Command.Arguments
import Repackage.Command.Error
import Repackage.Command.Host
import Repackage.Renaming.Renamer

/-!
# Runs

A run loads the rules, finds the resources and processes them one after the other: a
class file is renamed, all else is copied. Each resource has a line in the report. A
resource that fails does not end the run, unless the failure is fatal.

Without a colour terminal the report has no escape sequences.
-/

namespace Repackage

/-- What happened to a resource. -/
inductive Outcome where
  | unchanged
  | changed (summary : String)
  | failed (message : String)
deriving DecidableEq, Repr

/-! ## The report -/

/-- How a part of the report is shown, by the number of its escape sequence. -/
inductive Style where
  | bold | dimmed | blue | green | red
deriving DecidableEq, Repr

def Style.code : Style → String
  | .bold => "1"
  | .dimmed => "2"
  | .blue => "34"
  | .green => "32"
  | .red => "31"

/-- Ends all styles. -/
def plainStyle (color : Bool) : String := if color then "\x1b[0m" else ""

/-- Starts a style, after the end of all others. -/
def Style.start (color : Bool) (s : Style) : String :=
  if color then plainStyle color ++ "\x1b[" ++ s.code ++ "m" else ""

namespace Outcome

def style : Outcome → Style
  | .unchanged => .blue
  | .changed _ => .green
  | .failed _ => .red

def label : Outcome → String
  | .unchanged => "UNCHANGED"
  | .changed _ => "CHANGED"
  | .failed _ => "FAILED"

/-- What is shown after the label. -/
def note : Outcome → String
  | .unchanged => ""
  | .changed summary => " " ++ summary
  | .failed message => " " ++ message

/-- The line of a resource in the report. -/
def line (color : Bool) (resource : String) (o : Outcome) : String :=
  " - " ++ Style.start color .bold ++ resource ++ Style.start color .dimmed ++ " ["
    ++ o.style.start color ++ o.label ++ Style.start color .dimmed ++ "]" ++ plainStyle color
    ++ o.note ++ "\n"

def isFailure : Outcome → Bool
  | .failed _ => true
  | _ => false

def isChange : Outcome → Bool
  | .changed _ => true
  | _ => false

end Outcome

/-- How a run ends. -/
inductive Ending where
  | wrongUsage
  | shown
  | finished (failed : Nat)
  | stopped (cause : RunError)
deriving DecidableEq, Repr

/-- The exit status. -/
def Ending.status : Ending → UInt8
  | .wrongUsage => 2
  | .shown => 0
  | .finished failed => if failed > 0 then 1 else 0
  | .stopped _ => 1

namespace Run

variable {m : Type → Type} [Monad m] [Host m]

/-- Acts on the surroundings, which cannot fail. -/
def onHost {α : Type} (action : m α) : ExceptT RunError m α := ExceptT.lift action

/-- Files fail with an error of the run. -/
def onFiles {α : Type} (action : m (Except FileError α)) : ExceptT RunError m α := do
  match ← onHost action with
  | .ok x => return x
  | .error e => throw (.file e)

def logAll (events : List Event) : m Unit :=
  events.forM fun e => Host.log e.level e.message

/-! ## Rules -/

def loadEntries (path : String) : ExceptT RunError m (List (String × String)) := do
  let bytes ← onFiles (Host.readFile (Path.parse path))
  match String.fromUTF8? ⟨bytes.toArray⟩ with
  | none => throw (.file .notUtf8)
  | some text =>
    match Properties.parse text with
    | .ok entries => return entries
    | .error (line, cause) => throw (.properties path line cause)

/-- A file that is not named has no entries. -/
def loadOptional : Option String → ExceptT RunError m (List (String × String))
  | none => return []
  | some path => loadEntries path

def loadRules (a : Arguments) : ExceptT RunError m Table := do
  let renames ← loadEntries a.renames
  let versions ← loadOptional a.versions
  let direct ← loadOptional a.direct
  let b : Builder := { inverts := a.invert }
  let b := renames.foldl (fun b (key, value) => b.rename key value) b
  let b := versions.foldl (fun b (key, value) => b.addVersion key value) b
  let b := direct.foldl (fun b (key, value) => b.addDirect key value) b
  onHost (logAll b.announcements)
  match b.build with
  | .ok table => return table
  | .error e => throw (.rules e)

/-! ## Resources -/

/-- A file and the name of its resource. -/
structure Resource where
  path : Path
  name : String

/-- The input itself if it is a file, or else all files below it. -/
def findResources (input : Path) : m (List Resource) := do
  if ← Host.isFile input then return [⟨input, input.fileName⟩]
  else
    let places ← Host.filesBelow input
    return places.map fun place =>
      ⟨input.join ⟨place⟩, String.intercalate "/" place⟩

def writeOutput (path : Path) (bytes : Bytes) : ExceptT RunError m Unit := do
  onFiles (Host.createDirectories path.parent)
  onFiles (Host.writeFile path bytes)

/-- Renames or copies a resource into the output directory. -/
def process (rules : Table) (output : Path) (r : Resource) : ExceptT RunError m Outcome := do
  let bytes ← onFiles (Host.readFile r.path)
  if Renamer.accepts r.name then
    let (result, events) := rules.transform r.name bytes
    onHost (logAll events)
    match result with
    | .error e => throw (.transform e)
    | .ok (some t) =>
      writeOutput (output.join (Path.parse t.name)) t.bytes
      return .changed t.changes.summary
    | .ok none => pure ()
  writeOutput (output.join (Path.parse r.name)) bytes
  return .unchanged

/-- Processes and reports resources, counting those that changed and those that failed. -/
def processAll (rules : Table) (output : Path) (color : Bool) :
    List Resource → (changed failed : Nat) → ExceptT RunError m Nat
  | [], changed, failed => do
    onHost (Host.log .info s!"{changed} changed, {failed} failed")
    return failed
  | r :: rest, changed, failed => do
    let outcome ← match ← onHost (process rules output r).run with
      | .ok outcome => pure outcome
      | .error e =>
        if e.isFatal then
          onHost (Host.log .error s!"Stopping at {r.name}: {e.message}")
          throw e
        else pure (.failed e.message)
    onHost (Host.print (outcome.line color r.name))
    processAll rules output color rest (if outcome.isChange then changed + 1 else changed)
      (if outcome.isFailure then failed + 1 else failed)

/-- Does what the arguments ask for, and says how many resources failed. -/
def perform (a : Arguments) (color : Bool) : ExceptT RunError m Nat := do
  let rules ← loadRules a
  let resources ← onHost (findResources (Path.parse a.input))
  onHost (Host.log .info s!"Found {resources.length} resources under {Text.quote a.input}")
  processAll rules (Path.parse a.output) color resources 0 0

end Run

/-! ## The program -/

def versionText : String := "Package renamer for compiled JVM classes 0.1.0\n"

def helpText : String :=
  String.intercalate "\n" [
    "Rename packages (eg. `javax.servlet` to `jakarta.servlet`) inside class files",
    "",
    "Usage: repackage [OPTIONS] --renames <FILE> <INPUT>",
    "",
    "Arguments:",
    "  <INPUT>  Class file or directory of class files",
    "",
    "Options:",
    "      --renames <FILE>      Package renames, as `old.package=new.package` lines",
    "      --versions <FILE>     Version ranges for renamed packages, as `new.package=range` lines",
    "      --direct <FILE>       Exact string replacements, as `old=new` lines",
    "      --invert              Apply the renames in the opposite direction",
    "      --output <DIRECTORY>  Sets the output directory [default: out]",
    "  -h, --help                Print help",
    "  -V, --version             Print version",
    ""]

/-- The program: reads its arguments and runs. -/
def runProgram {m : Type → Type} [Monad m] [Host m] (arguments : List String) (color : Bool) :
    m Ending := do
  match Arguments.read? arguments with
  | none => return .wrongUsage
  | some .help =>
    Host.print helpText
    return .shown
  | some .version =>
    Host.print versionText
    return .shown
  | some (.run a) =>
    match ← (Run.perform a color).run with
    | .ok failed => return .finished failed
    | .error cause => return .stopped cause

end Repackage
