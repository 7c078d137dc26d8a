import Repackage.Rules.Bundle
import Repackage.Rules.Rule

/-!
# Rule tables

A table decides whether and how a name changes: `rename` for a package, `renameType`
for a class, `replacePackages` for packages anywhere in a text and `direct?` for a text
as a whole. `none` always means that nothing changes.

A table also keeps version ranges by new package and identities by bundle. The key of a
rule and the value that is directly replaced are neither empty nor given twice;
`Table.make` checks that.
-/

namespace Repackage

/-- The rules are kept as given and, as `byLength`, in the order in which they apply. -/
structure Table where
  rules : List Rule
  direct : List (String × String)
  versions : List (String × String)
  bundles : List (String × Bundle)
  byLength : List Rule := rules.mergeSort Rule.precedes
  byLength_eq : byLength = rules.mergeSort Rule.precedes := by rfl

namespace Table

def empty : Table where
  rules := []
  direct := []
  versions := []
  bundles := []
  byLength := []
  byLength_eq := by simp

/-- Refuses the first key that is empty or was there before. -/
def checkKeys (seen : List String) : List String → Except RuleError Unit
  | [] => .ok ()
  | key :: keys =>
    if key.isEmpty then .error .emptyKey
    else if seen.contains key then .error (.duplicateKey key)
    else checkKeys (key :: seen) keys

def make (rules : List Rule) (direct versions : List (String × String))
    (bundles : List (String × Bundle)) : Except RuleError Table := do
  checkKeys [] (rules.map Rule.key)
  checkKeys [] (direct.map Prod.fst)
  return { rules, direct, versions, bundles }

/-- The table changes nothing in any class. -/
def isEmpty (t : Table) : Bool := t.rules.isEmpty && t.direct.isEmpty

/-- The rules in the order in which they apply, in one form. They are sorted as they are kept, and
in the other form they would be in the same order (`Table.WellFormed.ordered_eq`). -/
def ordered (t : Table) (form : NameForm) : List Rule := t.byLength.map (Rule.inForm form)

/-- The new name of a package, by an exact rule or else by the longest wildcard rule. The
name can be the same as before. -/
def candidate? (t : Table) (name : String) (form : NameForm) : Option String :=
  let rules := t.ordered form
  (rules.findSome? fun r => r.applyExactly? name).or
    (rules.findSome? fun r => r.applyBelow? name)

def rename (t : Table) (name : String) (form : NameForm) : Option String :=
  (t.candidate? name form).filter (· ≠ name)

/-- The class of an array type, which is `L…;` after the brackets. -/
def elementClass? (element : List Char) : Option (List Char) :=
  match element with
  | 'L' :: rest => if rest.getLast? = some ';' then some rest.dropLast else none
  | _ => none

theorem length_lt_of_elementClass? {element name : List Char}
    (h : elementClass? element = some name) : name.length < element.length := by
  unfold elementClass? at h
  split at h
  · split at h
    · cases h
      simp only [List.length_cons, List.length_dropLast]
      omega
    · cases h
  · cases h

/-- The new name of a class, whose package is all up to its last slash. An array has its
element class renamed; classes without a package never change. -/
def renameTypeChars (t : Table) (name : List Char) : Option (List Char) :=
  match name with
  | '[' :: rest =>
    let dimensions := rest.takeWhile (· = '[')
    match _h : elementClass? (rest.dropWhile (· = '[')) with
    | none => none
    | some element =>
      (t.renameTypeChars element).map fun renamed =>
        '[' :: dimensions ++ 'L' :: renamed ++ [';']
  | _ => do
    let (package, simple) ← Text.splitLast? '/' name
    let package ← t.rename (String.ofList package) .binary
    return package.toList ++ '/' :: simple
termination_by name.length
decreasing_by
  have := length_lt_of_elementClass? _h
  have := (List.dropWhile_suffix (l := rest) (p := (· = '['))).length_le
  simp only [List.length_cons]
  omega

def renameType (t : Table) (name : String) : Option String :=
  (t.renameTypeChars name.toList).map String.ofList

/-- Applies the rules one after the other; the text is `none` as long as it is unchanged. -/
def replaceAll (text : List Char) : List Rule → Option (List Char)
  | [] => none
  | r :: rules =>
    match r.substitute? text with
    | none => replaceAll text rules
    | some text => some ((replaceAll text rules).getD text)

/-- Renames packages anywhere in a text. -/
def replacePackages (t : Table) (text : String) (form : NameForm) : Option String :=
  (replaceAll text.toList (t.ordered form)).map String.ofList

/-- The replacement for a text as a whole. -/
def direct? (t : Table) (text : String) : Option String := t.direct.lookup text

/-- The version range for a renamed package, by its new name. -/
def version? (t : Table) (package : String) : Option String := t.versions.lookup package

/-- The identity for a bundle, by its current symbolic name. -/
def bundle? (t : Table) (symbolicName : String) : Option Bundle := t.bundles.lookup symbolicName

/-- The table that undoes this one. Version ranges and bundles have no way back. -/
def inverted (t : Table) : Except RuleError Table :=
  make (t.rules.map Rule.flip) (t.direct.map Prod.swap) [] []

end Table

end Repackage
