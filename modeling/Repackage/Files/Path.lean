import Repackage.Text.Cut

/-!
# Paths

A path is a text, kept as its pieces between slashes. Its `names` lead from the root or
from the working directory: empty pieces and single dots say nothing, and two dots are a
name, that of the directory above. A path that ends in a piece that says nothing names a
directory. Pieces that say nothing are kept all the same, for the length of a path counts
them.
-/

namespace Repackage

structure Path where
  pieces : List String
deriving DecidableEq, Repr

namespace Path

def parse (text : String) : Path := ⟨(Text.segments '/' text.toList).map String.ofList⟩

def text (p : Path) : String := String.intercalate "/" p.pieces

/-- The piece says nothing. -/
def isVoid (piece : String) : Bool := piece == "" || piece == "."

/-- The path starts at the root. -/
def absolute (p : Path) : Bool :=
  match p.pieces with
  | "" :: _ :: _ => true
  | _ => false

def names (p : Path) : List String := p.pieces.filter (!isVoid ·)

/-- The path can only be that of a directory. -/
def isDirectory (p : Path) : Bool := p.pieces.getLast?.any isVoid

/-- The path `below` seen from `p`; an absolute path is the same from everywhere. -/
def join (p below : Path) : Path :=
  if below.absolute then below
  else if p.pieces.getLast? = some "" then ⟨p.pieces.dropLast ++ below.pieces⟩
  else ⟨p.pieces ++ below.pieces⟩

/-- The path without its last name and what says nothing before it. -/
def parent (p : Path) : Path :=
  ⟨((p.pieces.reverse.dropWhile isVoid).tail.dropWhile isVoid).reverse⟩

/-- The last name. -/
def fileName (p : Path) : String := p.names.getLast?.getD ""

end Path

end Repackage
