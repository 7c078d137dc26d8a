import Repackage.ClassFile.Error
import Repackage.Grammar.Signature
import Repackage.Report.Changes

/-!
# Events

What happens while classes are renamed, for those who follow it. Each event has a
`level` and a `message`.
-/

namespace Repackage

/-- What a text is used as, which decides how it is renamed. -/
inductive Role where
  | className
  | descriptor
  | classLiteral
  | signature (kind : SignatureKind)
  | plain
deriving DecidableEq, Repr

def Role.label : Role → String
  | .className => "class"
  | .descriptor => "descriptor"
  | .classLiteral => "class literal"
  | .signature _ => "signature"
  | .plain => "string"

inductive Level where
  | error | warn | info | debug
deriving DecidableEq, Repr

def Level.label : Level → String
  | .error => "ERROR"
  | .warn => "WARN"
  | .info => "INFO"
  | .debug => "DEBUG"

inductive Event where
  | tableBuilt (renames direct : Nat)
  | renameRefused (name : String) (cause : NameError)
  | renamed (role : Role) (old new : String)
  | nestSkipped
  | moduleSkipped (attributeName : String)
  | poolRenamed (count : Nat)
  | fieldVisited (name : Index)
  | methodVisited (name : Index)
  | relocated (resource className target : String)
  | parseFailed (resource : String) (cause : ClassError)
  | renameFailed (resource : String) (cause : ClassError)
  | classUnchanged (resource : String)
  | classChanged (resource : String) (changes : Changes)
deriving DecidableEq, Repr

namespace Event

def level : Event → Level
  | .parseFailed _ _ | .renameFailed _ _ => .error
  | .renameRefused _ _ | .nestSkipped | .moduleSkipped _ | .relocated _ _ _ => .warn
  | .renamed _ _ _ => .info
  | .tableBuilt _ _ | .poolRenamed _ | .fieldVisited _ | .methodVisited _ | .classUnchanged _
  | .classChanged _ _ => .debug

def message : Event → String
  | .tableBuilt renames direct =>
    s!"Built rule table with {renames} renames and {direct} direct strings"
  | .renameRefused name cause => s!"Not renaming {name}: {cause.message}"
  | .renamed role old new => s!"Renamed {role.label} '{old}' to '{new}'"
  | .nestSkipped => "Nest attributes are not renamed"
  | .moduleSkipped attributeName => s!"{attributeName} attribute is not renamed"
  | .poolRenamed count => s!"Renamed {count} constant pool entries"
  | .fieldVisited name => s!"Field #{name}"
  | .methodVisited name => s!"Method #{name}"
  | .relocated resource className target =>
    s!"Approximate relocation of {resource} (class {className}) to {target}"
  | .parseFailed resource cause => s!"Failed to parse {resource}: {cause.message}"
  | .renameFailed resource cause => s!"Failed to rename in {resource}: {cause.message}"
  | .classUnchanged resource => s!"Unchanged {resource}"
  | .classChanged resource changes => s!"Changed {resource} {changes.summary}"

end Event

end Repackage
