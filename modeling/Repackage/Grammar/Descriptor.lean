import Repackage.Grammar.Parser

/-!
# Descriptors

A field descriptor spells the type of a field: a base type, a class, or an array of
either. A method descriptor spells the parameter types and the result type of a method.
Array types keep how many dimensions they have beyond the first, so that a type has one
tree. `chars` writes a tree out and `parser` reads it.
-/

namespace Repackage

inductive BaseType where
  | byte | char | double | float | int | long | short | boolean
deriving DecidableEq, Repr

namespace BaseType

def letter : BaseType → Char
  | .byte => 'B'
  | .char => 'C'
  | .double => 'D'
  | .float => 'F'
  | .int => 'I'
  | .long => 'J'
  | .short => 'S'
  | .boolean => 'Z'

def ofLetter? : Char → Option BaseType
  | 'B' => some .byte
  | 'C' => some .char
  | 'D' => some .double
  | 'F' => some .float
  | 'I' => some .int
  | 'J' => some .long
  | 'S' => some .short
  | 'Z' => some .boolean
  | _ => none

def chars (t : BaseType) : List Char := [t.letter]

def parser : Parser BaseType := do
  match ← Parser.next with
  | none => throw .missingBaseType
  | some c =>
    match ofLetter? c with
    | none => throw (.badBaseType c)
    | some t => pure t

end BaseType

namespace BinaryName

def chars (name : BinaryName) : List Char := 'L' :: name.text.toList ++ [';']

def parser : Parser BinaryName := do
  Parser.expect 'L'
  let name ← Parser.takeWhile (· ≠ ';')
  match ← Parser.next with
  | none => throw (.unterminatedName (String.ofList name))
  | some _ =>
    match BinaryName.ofString (String.ofList name) with
    | .error cause => throw (.badName cause)
    | .ok name => pure name

end BinaryName

/-- A class or an array. The arrays have `extra` dimensions beyond the first. -/
inductive RefType where
  | object (name : BinaryName)
  | objectArray (extra : Nat) (name : BinaryName)
  | primitiveArray (extra : Nat) (base : BaseType)
deriving DecidableEq

namespace RefType

def chars : RefType → List Char
  | .object name => name.chars
  | .objectArray extra name => List.replicate (extra + 1) '[' ++ name.chars
  | .primitiveArray extra base => List.replicate (extra + 1) '[' ++ base.chars

def parser : Parser RefType := do
  match ← Parser.peek with
  | none => throw .missingFieldType
  | some 'L' => return .object (← BinaryName.parser)
  | some '[' =>
    let dimensions ← Parser.takeWhile (· = '[')
    let extra := dimensions.length - 1
    match ← Parser.peek with
    | some 'L' => return .objectArray extra (← BinaryName.parser)
    | _ => return .primitiveArray extra (← BaseType.parser)
  | some c => throw (.badReferenceType c)

end RefType

inductive FieldType where
  | base (t : BaseType)
  | ref (t : RefType)
deriving DecidableEq

namespace FieldType

def chars : FieldType → List Char
  | .base t => t.chars
  | .ref t => t.chars

def parser : Parser FieldType := do
  match ← Parser.peek with
  | none => throw .missingFieldType
  | some 'L' | some '[' => return .ref (← RefType.parser)
  | some _ => return .base (← BaseType.parser)

/-- The type of arrays whose elements have the given type. -/
def array : FieldType → FieldType
  | .base t => .ref (.primitiveArray 0 t)
  | .ref (.object name) => .ref (.objectArray 0 name)
  | .ref (.objectArray extra name) => .ref (.objectArray (extra + 1) name)
  | .ref (.primitiveArray extra t) => .ref (.primitiveArray (extra + 1) t)

end FieldType

/-- The types of a method; a method without a result has none. -/
structure MethodType where
  parameters : List FieldType
  result : Option FieldType
deriving DecidableEq

namespace MethodType

def chars (t : MethodType) : List Char :=
  '(' :: t.parameters.flatMap FieldType.chars ++ ')' :: (t.result.elim ['V'] FieldType.chars)

def parser : Parser MethodType := do
  Parser.expect '('
  let parameters ← Parser.manyUntil ')' FieldType.parser
  if ← Parser.accept 'V' then return ⟨parameters, none⟩
  else return ⟨parameters, some (← FieldType.parser)⟩

end MethodType

/-- Either kind of descriptor. Only those of methods start with a parenthesis. -/
inductive Descriptor where
  | field (t : FieldType)
  | method (t : MethodType)
deriving DecidableEq

namespace Descriptor

def chars : Descriptor → List Char
  | .field t => t.chars
  | .method t => t.chars

def parser : Parser Descriptor := do
  match ← Parser.peek with
  | some '(' => return .method (← MethodType.parser)
  | _ => return .field (← FieldType.parser)

def render (d : Descriptor) : String := String.ofList d.chars

def parse (text : String) : Except SyntaxError Descriptor := Parser.parseAll parser text

end Descriptor

end Repackage
