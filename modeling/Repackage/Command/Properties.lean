import Repackage.Text.Blank
import Repackage.Text.Cut

/-!
# Rule files

A rule file has a line `key=value` or `key:value` for each entry. An equals sign anywhere
in a line comes before a colon. Blank lines and lines that start with `#` or `!` are
skipped, and blanks around keys and values are dropped.
-/

namespace Repackage

/-- Why a line is no entry. -/
inductive EntryError where
  | missingSeparator
  | emptyKey
deriving DecidableEq, Repr

def EntryError.message : EntryError → String
  | .missingSeparator => "expected `key=value`"
  | .emptyKey => "empty key"

namespace Properties

def isSkipped (line : List Char) : Bool :=
  match line with
  | [] => true
  | c :: _ => c == '#' || c == '!'

/-- The entry on a line without blanks around it. -/
def parseEntry (line : List Char) : Except EntryError (String × String) :=
  match (Text.splitFirst? '=' line).or (Text.splitFirst? ':' line) with
  | none => .error .missingSeparator
  | some (key, value) =>
    let key := Text.trim key
    if key.isEmpty then .error .emptyKey
    else .ok (String.ofList key, String.ofList (Text.trim value))

/-- The entries on lines that are numbered from `number`; the first bad line is named. -/
def parseLines (number : Nat) :
    List (List Char) → Except (Nat × EntryError) (List (String × String))
  | [] => .ok []
  | line :: rest =>
    let line := Text.trim line
    if isSkipped line then parseLines (number + 1) rest
    else match parseEntry line with
      | .error e => .error (number, e)
      | .ok entry => (parseLines (number + 1) rest).map (entry :: ·)

/-- The entries of a rule file, in order. -/
def parse (text : String) : Except (Nat × EntryError) (List (String × String)) :=
  parseLines 1 (Text.lines text.toList)

end Properties

end Repackage
