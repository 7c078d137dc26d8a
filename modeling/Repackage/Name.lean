import Repackage.Text.Cut

/-!
# Names

An unqualified name (of a field, a method or a member class) is not empty and has none
of the characters `. ; [ /`. A binary name (of a class) is a list of unqualified names
joined by slashes; all but the last are its package.
-/

namespace Repackage

/-- Why a text is not a name. -/
inductive NameError where
  | illegalCharacter (name : String)
  | emptySegment
  | empty
deriving DecidableEq, Repr

def NameError.message : NameError → String
  | .illegalCharacter name => s!"Unqualified name '{name}' contains an illegal character"
  | .emptySegment => "Unqualified name '' is empty"
  | .empty => "Binary name '' is empty"

/-- The characters that no unqualified name has. -/
def isNameSeparator (c : Char) : Bool := c == '.' || c == ';' || c == '[' || c == '/'

def checkUnqualified (name : List Char) : Except NameError Unit :=
  if name.any isNameSeparator then .error (.illegalCharacter (String.ofList name))
  else if name.isEmpty then .error .emptySegment
  else .ok ()

/-- Reports the first segment that is not a name. -/
def checkBinary (name : List Char) : Except NameError Unit :=
  if name.isEmpty then .error .empty
  else (Text.segments '/' name).forM checkUnqualified

structure UnqualifiedName where
  text : String
  valid : checkUnqualified text.toList = .ok ()
deriving DecidableEq

structure BinaryName where
  text : String
  valid : checkBinary text.toList = .ok ()
deriving DecidableEq

def UnqualifiedName.ofString (text : String) : Except NameError UnqualifiedName :=
  match h : checkUnqualified text.toList with
  | .ok () => .ok ⟨text, h⟩
  | .error e => .error e

def BinaryName.ofString (text : String) : Except NameError BinaryName :=
  match h : checkBinary text.toList with
  | .ok () => .ok ⟨text, h⟩
  | .error e => .error e

/-- The text is a binary name. -/
def isBinaryName (text : String) : Bool := (checkBinary text.toList).toBool

/-- The package, unless the class is in the default package. -/
def BinaryName.package? (name : BinaryName) : Option String :=
  (Text.splitLast? '/' name.text.toList).map fun (package, _) => String.ofList package

/-- The name without the package. -/
def BinaryName.simpleName (name : BinaryName) : String :=
  match Text.splitLast? '/' name.text.toList with
  | some (_, simple) => String.ofList simple
  | none => name.text

end Repackage
