import Repackage.Grammar.Error

/-!
# Parsers of text

A parser takes characters from the front of a text. The grammars here are decided by
the next character alone, so there is no backtracking: `peek` looks at the next
character, `accept` takes it if it is the given one and `expect` insists on it.

A repetition is bounded by the length of what is left. Every item it repeats takes at
least one character, so the bound is never met.
-/

namespace Repackage

abbrev Parser := StateT (List Char) (Except SyntaxError)

namespace Parser

variable {α : Type}

def peek : Parser (Option Char) := fun cs => .ok (cs.head?, cs)

/-- Takes the next character. -/
def next : Parser (Option Char) := fun cs => .ok (cs.head?, cs.tail)

/-- Takes the next character if it is `c`, and says whether it was. -/
def accept (c : Char) : Parser Bool
  | [] => .ok (false, [])
  | d :: cs => if d = c then .ok (true, cs) else .ok (false, d :: cs)

def expect (c : Char) : Parser Unit
  | [] => .error (.missing c)
  | d :: cs => if d = c then .ok ((), cs) else .error (.expected c d)

/-- Takes characters as long as `p` holds of them. -/
def takeWhile (p : Char → Bool) : Parser (List Char) := fun cs =>
  .ok (cs.takeWhile p, cs.dropWhile p)

/-- Items as long as `more` says so, at most `n` of them. -/
def repeatAtMost (more : Parser Bool) (item : Parser α) : Nat → Parser (List α)
  | 0 => pure []
  | n + 1 => do
    if ← more then
      let x ← item
      let xs ← repeatAtMost more item n
      pure (x :: xs)
    else pure []

/-- Items as long as `more` says so. -/
def repeatWhile (more : Parser Bool) (item : Parser α) : Parser (List α) := fun cs =>
  repeatAtMost more item (cs.length + 1) cs

/-- Items up to the character `stop`, which is taken. -/
def manyUntil (stop : Char) (item : Parser α) : Parser (List α) :=
  repeatWhile (do return !(← accept stop)) item

/-- At least one item, up to the character `stop`, which is taken. -/
def someUntil (stop : Char) (item : Parser α) : Parser (List α) := do
  let x ← item
  let xs ← manyUntil stop item
  pure (x :: xs)

/-- Items that each follow the character `lead`. -/
def manyAfter (lead : Char) (item : Parser α) : Parser (List α) :=
  repeatWhile (accept lead) item

/-- Items up to the end of the text. -/
def manyToEnd (item : Parser α) : Parser (List α) :=
  repeatWhile (do return (← peek).isSome) item

/-- Parses the whole of a text. -/
def parseAll (p : Parser α) (text : String) : Except SyntaxError α := do
  match ← p text.toList with
  | (x, []) => pure x
  | (_, c :: _) => throw (.leftover c)

end Parser

end Repackage
