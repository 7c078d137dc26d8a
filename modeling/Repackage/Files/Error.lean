/-!
# Why a file operation fails
-/

namespace Repackage

/-- Most failures are those of the system, with their number. -/
inductive FileError where
  | system (code : Nat) (text : String)
  | notUtf8
  | nullInName
deriving DecidableEq, Repr

namespace FileError

def notFound : FileError := .system 2 "No such file or directory"
def alreadyThere : FileError := .system 17 "File exists"
def notADirectory : FileError := .system 20 "Not a directory"
def isADirectory : FileError := .system 21 "Is a directory"
def nameTooLong : FileError := .system 36 "File name too long"

def message : FileError → String
  | .system code text => s!"{text} (os error {code})"
  | .notUtf8 => "stream did not contain valid UTF-8"
  | .nullInName => "file name contained an unexpected NUL byte"

/-- The word for the kind of a failure. -/
def kind : FileError → String
  | .system 2 _ => "NotFound"
  | .system 13 _ => "PermissionDenied"
  | .system 17 _ => "AlreadyExists"
  | .system 20 _ => "NotADirectory"
  | .system 21 _ => "IsADirectory"
  | .system 36 _ => "InvalidFilename"
  | .system _ _ => "Uncategorized"
  | .notUtf8 => "InvalidData"
  | .nullInName => "InvalidInput"

end FileError

end Repackage
