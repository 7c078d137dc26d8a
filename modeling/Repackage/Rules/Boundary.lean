import Repackage.Text.Alphabetic
import Repackage.Text.Cut
import Repackage.Text.Lowercase
import Repackage.Text.Numeric

/-!
# Whole packages inside a text

A package name found inside a text may be a part of a longer name. What stands before
and after it tells: classes are taken to start in upper case and packages in lower case,
so a dot followed by lower case leads into a deeper package.
-/

namespace Repackage

/-- The character can stand inside an identifier. -/
def isIdentifierPart (c : Char) : Bool :=
  Text.isAlphabetic c || Text.isNumeric c || c == '_' || c == '$'

/-- A name can start after this character, or at the start of a text. -/
def startsName : Option Char → Bool
  | none => true
  | some c => !(isIdentifierPart c || c == '.')

/-- A package name can end before this text. Into deeper packages it continues only if
`deep` is set. -/
def endsName (deep : Bool) : List Char → Bool
  | [] => true
  | c :: rest =>
    if isIdentifierPart c then false
    else if c == '.' && !deep then
      match rest with
      | [] => true
      | d :: _ => !(Text.isLowercase d || Text.isNumeric d)
    else true

/-- The `length` bytes from `start` are a whole package name. Offsets outside the text or
inside a character are no match. -/
def isWholeName (text : String) (start length : Nat) (deep : Bool) : Bool :=
  match Text.cutAtByte? start text.toList, Text.cutAtByte? (start + length) text.toList with
  | some (before, _), some (_, after) => startsName before.getLast? && endsName deep after
  | _, _ => false

end Repackage
