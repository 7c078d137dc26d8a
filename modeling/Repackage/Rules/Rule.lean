import Repackage.Rules.Boundary

/-!
# Rename rules

A rule renames the package `key` to `replacement`, and with `wildcard` set all packages
below it too. Rules are kept in dotted form; `Rule.inForm` gives the form with which a
text spells its packages.

`Rule.applyTo?` renames a package and `Rule.substitute?` renames all occurrences of the
package inside a text.
-/

namespace Repackage

/-- How package names are spelled: `a.b` or `a/b`. -/
inductive NameForm where
  | dotted
  | binary
deriving DecidableEq, Repr

def NameForm.separator : NameForm → Char
  | .dotted => '.'
  | .binary => '/'

/-- Spells a dotted name in a form. -/
def NameForm.spell (form : NameForm) (name : String) : String :=
  String.ofList (Text.replaceChar '.' form.separator name.toList)

structure Rule where
  key : String
  replacement : String
  wildcard : Bool
deriving DecidableEq, Repr

namespace Rule

def inForm (form : NameForm) (r : Rule) : Rule where
  key := form.spell r.key
  replacement := form.spell r.replacement
  wildcard := r.wildcard

/-- The rule that undoes this one. -/
def flip (r : Rule) : Rule := ⟨r.replacement, r.key, r.wildcard⟩

/-- Rules with longer keys come first, and those of one length in the order of their
keys. -/
def precedes (r s : Rule) : Bool :=
  s.key.utf8ByteSize < r.key.utf8ByteSize
    || (r.key.utf8ByteSize == s.key.utf8ByteSize && decide (r.key ≤ s.key))

/-- Renames exactly the package of the rule. -/
def applyExactly? (r : Rule) (name : String) : Option String :=
  if !r.wildcard && r.key == name then some r.replacement else none

/-- Renames the package of a wildcard rule or one below it. -/
def applyBelow? (r : Rule) (name : String) : Option String :=
  if r.wildcard then
    match r.key.toList.isPrefixOf? name.toList with
    | some rest =>
      if endsName true rest then some (r.replacement ++ String.ofList rest) else none
    | none => none
  else none

/-- Taking a start off a text leaves no more than the text. -/
theorem length_le_of_isPrefixOf? {ks cs rest : List Char}
    (h : ks.isPrefixOf? cs = some rest) : rest.length ≤ cs.length := by
  induction ks generalizing cs with
  | nil => cases h; exact Nat.le_refl _
  | cons k ks ih =>
    cases cs with
    | nil => cases h
    | cons c cs =>
      have h : (if k == c then ks.isPrefixOf? cs else none) = some rest := h
      split at h
      · exact Nat.le_succ_of_le (ih h)
      · cases h

/-- Taking a nonempty start off a text leaves less than the text. -/
theorem length_lt_of_isPrefixOf? {k : Char} {ks cs rest : List Char}
    (h : (k :: ks).isPrefixOf? cs = some rest) : rest.length < cs.length := by
  cases cs with
  | nil => cases h
  | cons c cs =>
    have h : (if k == c then ks.isPrefixOf? cs else none) = some rest := h
    split at h
    · exact Nat.lt_succ_of_le (length_le_of_isPrefixOf? h)
    · cases h

/-- Replaces, from left to right, all whole names `k :: ks` in a text that follows
`before`. There is no result if there is no such name. -/
def substituteFrom? (k : Char) (ks replacement : List Char) (deep : Bool)
    (before : Option Char) : List Char → Option (List Char)
  | [] => none
  | c :: cs =>
    match _h : (k :: ks).isPrefixOf? (c :: cs) with
    | none => (substituteFrom? k ks replacement deep (some c) cs).map (c :: ·)
    | some rest =>
      if startsName before && endsName deep rest then
        let before := replacement.getLast?.or before
        some (replacement ++ (substituteFrom? k ks replacement deep before rest).getD rest)
      else
        (substituteFrom? k ks replacement deep (k :: ks).getLast? rest).map (k :: ks ++ ·)
termination_by cs => cs.length
decreasing_by
  · exact Nat.lt_succ_self _
  all_goals exact length_lt_of_isPrefixOf? _h

/-- Renames the package throughout a text. -/
def substitute? (r : Rule) (text : List Char) : Option (List Char) :=
  match r.key.toList with
  | [] => none
  | k :: ks => substituteFrom? k ks r.replacement.toList r.wildcard none text

end Rule

end Repackage
