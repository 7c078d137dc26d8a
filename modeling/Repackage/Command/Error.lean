import Repackage.Command.Properties
import Repackage.Files.Error
import Repackage.Renaming.ClassFile
import Repackage.Text.Quoted

/-!
# Why a run goes wrong

`RunError.message` is the line for a resource that failed, and `RunError.detail` the
structured form in which an error that ends the run is shown.
-/

namespace Repackage

inductive RunError where
  | file (cause : FileError)
  | properties (path : String) (line : Nat) (cause : EntryError)
  | rules (cause : RuleError)
  | transform (cause : TransformError)
deriving DecidableEq, Repr

/-- A record with a name: `Name { field: value, … }`. -/
def recordText (name : String) (fields : List (String × String)) : String :=
  name ++ " \x7b " ++ String.intercalate ", " (fields.map fun (f, v) => f ++ ": " ++ v) ++ " \x7d"

def FileError.detail (e : FileError) : String :=
  match e with
  | .system code text =>
    recordText "Os"
      [("code", toString code), ("kind", e.kind), ("message", Text.quote text)]
  | _ => recordText "Error" [("kind", e.kind), ("message", Text.quote e.message)]

def RuleError.detail : RuleError → String
  | .duplicateKey key => s!"DuplicateKey({Text.quote key})"
  | .emptyKey => "EmptyKey"
  | .malformedBundle text => s!"MalformedBundle({Text.quote text})"

def TransformError.detail : TransformError → String
  | .unknownConstantTag resource tag index =>
    recordText "UnknownConstantTag"
      [("resource", Text.quote resource), ("tag", toString tag),
       ("index", s!"ConstantIndex({index})")]
  | .read resource cause =>
    recordText "Read" [("resource", Text.quote resource), ("source", cause)]
  | .write resource cause =>
    recordText "Write"
      [("resource", Text.quote resource),
       ("source",
        recordText "Custom" [("kind", "InvalidData"), ("error", Text.quote cause.message)])]

namespace RunError

def message : RunError → String
  | .file cause => s!"IO - {cause.message}"
  | .properties path line cause => s!"{path}:{line} - {cause.message}"
  | .rules cause => s!"Rules - {cause.message}"
  | .transform cause => s!"Transform - {cause.message}"

def detail : RunError → String
  | .file cause => s!"Io({cause.detail})"
  | .properties path line cause =>
    recordText "Properties"
      [("path", Text.quote path), ("line", toString line), ("message", Text.quote cause.message)]
  | .rules cause => s!"Rules({cause.detail})"
  | .transform cause => s!"Transform({cause.detail})"

/-- The run has to stop: the format of a class is a newer one, so no later output could be
trusted either. -/
def isFatal : RunError → Bool
  | .transform (.unknownConstantTag _ _ _) => true
  | _ => false

end RunError

end Repackage
