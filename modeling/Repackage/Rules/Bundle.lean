import Repackage.Rules.Error
import Repackage.Text.Blank
import Repackage.Text.Cut

/-!
# Bundle identities

The identity that a bundle takes on, written `symbolic-name,version,name,description`.
A name or a description after `+` is appended to the current one instead of taking its
place, and either can stand in double quotes.
-/

namespace Repackage

/-- A text that takes the place of another or is appended to it. -/
structure TextUpdate where
  text : String
  append : Bool
deriving DecidableEq, Repr

namespace TextUpdate

def apply (u : TextUpdate) (current : String) : String :=
  if u.append then current ++ u.text else u.text

/-- Takes off the double quotes around a text; one quote alone is refused. -/
def unquote? : List Char → Option (List Char)
  | '"' :: rest => if rest.getLast? = some '"' then some rest.dropLast else none
  | cs => if cs.getLast? = some '"' then none else some cs

def parse? : List Char → Option TextUpdate
  | '+' :: rest => (unquote? (Text.trimStart rest)).map fun cs => ⟨String.ofList cs, true⟩
  | cs => (unquote? cs).map fun cs => ⟨String.ofList cs, false⟩

end TextUpdate

structure Bundle where
  symbolicName : String
  version : String
  name : TextUpdate
  description : TextUpdate
deriving DecidableEq, Repr

namespace Bundle

/-- Four parts, none of them blank. The last part can have commas. -/
def parse? (text : String) : Option Bundle :=
  match (Text.splitAtMost ',' 4 text.toList).map Text.trim with
  | [symbolicName, version, name, description] => do
    if symbolicName.isEmpty || version.isEmpty || name.isEmpty || description.isEmpty then none
    return {
      symbolicName := String.ofList symbolicName
      version := String.ofList version
      name := ← TextUpdate.parse? name
      description := ← TextUpdate.parse? description }
  | _ => none

def parse (text : String) : Except RuleError Bundle :=
  match parse? text with
  | some bundle => .ok bundle
  | none => .error (.malformedBundle text)

end Bundle

end Repackage
