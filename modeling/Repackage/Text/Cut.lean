/-!
# Cutting text

Texts are cut at a separator (`segments`, `splitFirst?`, `splitLast?`, `splitAtMost`),
at line ends (`lines`) and at a byte offset of their UTF-8 form (`cutAtByte?`).
`replaceChar` exchanges one character throughout.
-/

namespace Repackage.Text

/-- The pieces between separators: one more than there are separators. -/
def segments (sep : Char) : List Char → List (List Char)
  | [] => [[]]
  | c :: cs =>
    if c = sep then [] :: segments sep cs
    else match segments sep cs with
      | [] => [[c]]
      | s :: ss => (c :: s) :: ss

/-- What stands before and after the first separator. -/
def splitFirst? (sep : Char) : List Char → Option (List Char × List Char)
  | [] => none
  | c :: cs =>
    if c = sep then some ([], cs)
    else (splitFirst? sep cs).map fun (before, after) => (c :: before, after)

/-- What stands before and after the last separator. -/
def splitLast? (sep : Char) : List Char → Option (List Char × List Char)
  | [] => none
  | c :: cs =>
    match splitLast? sep cs with
    | some (before, after) => some (c :: before, after)
    | none => if c = sep then some ([], cs) else none

/-- At most `n` pieces, the last of which keeps its separators. -/
def splitAtMost (sep : Char) : Nat → List Char → List (List Char)
  | 0, _ => []
  | 1, cs => [cs]
  | n + 2, cs =>
    match splitFirst? sep cs with
    | none => [cs]
    | some (before, after) => before :: splitAtMost sep (n + 1) after

/-- Drops one carriage return at the end of a line. -/
def dropReturn (line : List Char) : List Char :=
  if line.getLast? = some '\r' then line.dropLast else line

/-- Lines end at a line feed, with or without a carriage return before it; the last line
need not end. -/
def lines (cs : List Char) : List (List Char) :=
  let pieces := segments '\n' cs
  let ended := pieces.dropLast.map dropReturn
  match pieces.getLast? with
  | none | some [] => ended
  | some last => ended ++ [last]

/-- The text before and from a byte offset, if a character starts there or the text ends. -/
def cutAtByte? : Nat → List Char → Option (List Char × List Char)
  | 0, cs => some ([], cs)
  | _ + 1, [] => none
  | n + 1, c :: cs =>
    if c.utf8Size ≤ n + 1 then
      (cutAtByte? (n + 1 - c.utf8Size) cs).map fun (before, after) => (c :: before, after)
    else none

def replaceChar (old new : Char) (cs : List Char) : List Char :=
  cs.map fun c => if c = old then new else c

end Repackage.Text
