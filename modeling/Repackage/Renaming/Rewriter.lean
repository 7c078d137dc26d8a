import Std.Data.TreeSet
import Repackage.ClassFile.Pool
import Repackage.Renaming.Text

/-!
# Renaming constants

A `Rewriter` renames the constants of one class in place. A renamed text overwrites the
old one, unless the pool already holds the new text in an entry that is done with: then
that entry is referred to instead. An entry that is done with is *settled*; it is never
renamed again, so that rules such as `a` to `b` and `b` to `c` do not chain, and nothing
is counted twice.

A step that fails keeps what it has done so far. `replaced` is the history of the pool: the
entries whose constants were replaced, the latest first.
-/

namespace Repackage

structure Rewriter where
  rules : Table
  pool : Pool
  settled : Std.TreeSet Index := ∅
  events : Array Event := #[]
  replaced : List Index := []

/-- Steps of a rewriter, which can fail. -/
abbrev Rewrite := ExceptT ClassError (StateM Rewriter)

namespace Rewrite

def isSettled (i : Index) : Rewrite Bool := return (← get).settled.contains i

/-- Settles an entry, and says whether it was not settled before. -/
def settle (i : Index) : Rewrite Bool :=
  modifyGet fun s => (!s.settled.contains i, { s with settled := s.settled.insert i })

def tell (e : Event) : Rewrite Unit := modify fun s => { s with events := s.events.push e }

def tellAll (es : List Event) : Rewrite Unit :=
  modify fun s => { s with events := s.events ++ es }

def constant (i : Index) : Rewrite Constant := do (← get).pool.get i

def replace (i : Index) (c : Constant) : Rewrite Unit := do
  let s ← get
  match s.pool.exchange i c with
  | (.ok _, pool) => set { s with pool, replaced := i :: s.replaced }
  | (.error e, pool) =>
    set { s with pool }
    throw e

/-- Overwrites a text and settles its entry. -/
def overwrite (i : Index) (text : String) : Rewrite Index := do
  replace i (.utf8 text)
  let _ ← settle i
  return i

/-- The entry that holds a renamed text: a settled one that has it already, or else the
entry of the old text. -/
def store (i : Index) (text : String) : Rewrite Index := do
  match (← get).pool.find? text with
  | some j => if ← isSettled j then return j else overwrite i text
  | none => overwrite i text

/-- Renames the text at `i` for something that refers to it, which is told the new index.
Texts that are not well-formed are left alone. -/
def renameUtf8 (role : Role) (i : Index) : Rewrite (Option Index) := do
  if ← isSettled i then return none
  match ← constant i with
  | .utf8 text =>
    let rules := (← get).rules
    tellAll (role.refusals rules text)
    match ← role.rename rules text with
    | none => return none
    | some renamed =>
      tell (.renamed role text renamed)
      return some (← store i renamed)
  | .rawUtf8 _ => return none
  | _ => throw (.unexpectedConstant i .utf8)

/-- Renames the text at `i` without regard to what refers to it. -/
def renameEntry (i : Index) : Rewrite Bool := do
  if !(← settle i) then return false
  match ← constant i with
  | .utf8 text =>
    let rules := (← get).rules
    tellAll (Role.plain.refusals rules text)
    match rules.renameText text with
    | none => return false
    | some renamed =>
      tell (.renamed .plain text renamed)
      replace i (.utf8 renamed)
      return true
  | _ => return false

/-- Renames the text at `old` to which the entry `i` refers, as `wrap` of its index. -/
def renameReferred (role : Role) (i old : Index) (wrap : Index → Constant) : Rewrite Bool := do
  match ← renameUtf8 role old with
  | none => return false
  | some new =>
    if new ≠ old then replace i (wrap new)
    return true

def renameClass (i : Index) : Rewrite Bool := do
  if !(← settle i) then return false
  let name ← (← get).pool.classNameIndex i
  renameReferred .className i name .classInfo

def renameNameAndType (i : Index) : Rewrite Bool := do
  if !(← settle i) then return false
  let (name, descriptor) ← (← get).pool.nameAndType i
  renameReferred .descriptor i descriptor (.nameAndType name)

def renameMethodType (i : Index) : Rewrite Bool := do
  if !(← settle i) then return false
  match ← constant i with
  | .methodType descriptor => renameReferred .descriptor i descriptor .methodType
  | _ => throw (.unexpectedConstant i .methodType)

def renameStringConstant (i : Index) : Rewrite Bool := do
  if !(← settle i) then return false
  match ← constant i with
  | .string text => renameReferred .plain i text .string
  | _ => throw (.unexpectedConstant i .string)

/-- Renames one entry according to its kind. -/
def renameConstant (i : Index) : Rewrite Bool := do
  match ← constant i with
  | .classInfo _ => renameClass i
  | .nameAndType _ _ => renameNameAndType i
  | .methodType _ => renameMethodType i
  | .string _ => renameStringConstant i
  | .utf8 _ => renameEntry i
  | _ => return false

/-- Renames the entries given, and adds those that changed to a count. -/
def renameConstants : List Index → (count : Nat) → Rewrite Nat
  | [], count => return count
  | i :: is, count => do
    let changed ← renameConstant i
    renameConstants is (if changed then count + 1 else count)

/-- Renames all entries in the order of their indices, and counts those that changed. -/
def renamePool : Rewrite Nat := do
  let changed ← renameConstants ((← get).pool.entries.map Prod.fst) 0
  tell (.poolRenamed changed)
  return changed

end Rewrite

end Repackage
