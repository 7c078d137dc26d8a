import Repackage.Rules.Table
import Repackage.Text.Blank

/-!
# Building rule tables

Package names can be given in either form, with blanks around them. A key that ends in
the wildcard suffix renames the packages below it too. Of two version ranges for a
package, or two identities for a bundle, the later one counts.
-/

namespace Repackage

/-- The lists of version ranges and bundles have the latest first. -/
structure Builder where
  wildcardSuffix : String := ".*"
  rules : List Rule := []
  direct : List (String × String) := []
  versions : List (String × String) := []
  bundles : List (String × Bundle) := []
  inverts : Bool := false

namespace Builder

/-- A package name in dotted form, without blanks around it. -/
def normalize (name : String) : List Char := Text.replaceChar '/' '.' (Text.trim name.toList)

def rename (b : Builder) (key replacement : String) : Builder :=
  let suffix := b.wildcardSuffix.toList
  let key := normalize key
  let replacement := normalize replacement
  let stripped := suffix.isSuffixOf? key
  { b with
    rules := b.rules ++ [{
      key := String.ofList (stripped.getD key)
      replacement := String.ofList ((suffix.isSuffixOf? replacement).getD replacement)
      wildcard := stripped.isSome }] }

def addDirect (b : Builder) (value replacement : String) : Builder :=
  { b with direct := b.direct ++ [(value, replacement)] }

def addVersion (b : Builder) (package range : String) : Builder :=
  { b with versions := (String.ofList (normalize package), range) :: b.versions }

def addBundle (b : Builder) (symbolicName : String) (bundle : Bundle) : Builder :=
  { b with bundles := (symbolicName, bundle) :: b.bundles }

/-- The table of the rules as given. -/
def forward (b : Builder) : Except RuleError Table :=
  Table.make b.rules b.direct b.versions b.bundles

def build (b : Builder) : Except RuleError Table := do
  let t ← b.forward
  if b.inverts then t.inverted else return t

end Builder

end Repackage
