import Repackage.Grammar.Descriptor

/-!
# Generic signatures

Signatures are the generic counterpart of descriptors: they have type variables, type
parameters with bounds, type arguments and thrown types. `Lpkg/Outer<TT;>.Inner<*>;` is
a class type whose name is `pkg/Outer`; its suffix `Inner` is a simple name of a member
class.

Types nest, so their parsers take the depth that is left. Each level takes at least one
character, hence the length of the text is depth enough.
-/

namespace Repackage

/-- The bound of a wildcard: `+` for subtypes, `-` for supertypes. -/
inductive WildcardBound where
  | upper
  | lower
deriving DecidableEq, Repr

mutual

inductive JavaType where
  | base (t : BaseType)
  | reference (t : ReferenceType)

inductive ReferenceType where
  | classType (t : ClassType)
  | typeVariable (name : String)
  | array (element : JavaType)

/-- The name includes the package; the suffixes are member classes. -/
structure ClassType where
  name : String
  arguments : List TypeArgument
  suffixes : List SimpleClassType

structure SimpleClassType where
  name : String
  arguments : List TypeArgument

inductive TypeArgument where
  | wildcard
  | concrete (bound : Option WildcardBound) (t : ReferenceType)

end

/-! ## Writing types -/

def WildcardBound.sign : WildcardBound → Char
  | .upper => '+'
  | .lower => '-'

/-- A list in angle brackets; an empty list is not written at all. -/
def bracketed (isEmpty : Bool) (items : List Char) : List Char :=
  if isEmpty then [] else '<' :: items ++ ['>']

mutual

def JavaType.chars : JavaType → List Char
  | .base t => t.chars
  | .reference t => t.chars

def ReferenceType.chars : ReferenceType → List Char
  | .classType t => t.chars
  | .typeVariable name => 'T' :: name.toList ++ [';']
  | .array element => '[' :: element.chars

def ClassType.chars : ClassType → List Char
  | ⟨name, arguments, suffixes⟩ =>
    'L' :: name.toList ++ bracketed arguments.isEmpty (TypeArgument.listChars arguments)
      ++ SimpleClassType.suffixChars suffixes ++ [';']

def SimpleClassType.chars : SimpleClassType → List Char
  | ⟨name, arguments⟩ =>
    name.toList ++ bracketed arguments.isEmpty (TypeArgument.listChars arguments)

def SimpleClassType.suffixChars : List SimpleClassType → List Char
  | [] => []
  | t :: ts => '.' :: t.chars ++ SimpleClassType.suffixChars ts

def TypeArgument.chars : TypeArgument → List Char
  | .wildcard => ['*']
  | .concrete bound t => bound.elim [] (fun b => [b.sign]) ++ t.chars

def TypeArgument.listChars : List TypeArgument → List Char
  | [] => []
  | t :: ts => t.chars ++ TypeArgument.listChars ts

end

/-! ## Reading types -/

/-- The characters that end an identifier in a signature. -/
def isSignatureDelimiter (c : Char) : Bool :=
  isNameSeparator c || c == '<' || c == '>' || c == ':'

/-- An identifier is all up to the next delimiter, and not empty. -/
def identifier : Parser String := do
  let name ← Parser.takeWhile (!isSignatureDelimiter ·)
  if name.isEmpty then
    match ← Parser.peek with
    | some c => throw (.badIdentifier c)
    | none => throw .missingIdentifier
  else pure (String.ofList name)

/-- Identifiers joined by slashes. -/
def qualifiedName : Parser String := do
  let first ← identifier
  let more ← Parser.manyAfter '/' identifier
  pure (String.ofList (first.toList ++ more.flatMap fun segment => '/' :: segment.toList))

namespace ReferenceType

/-- A type argument, given the parser of reference types inside it. -/
def argumentParser (inner : Parser ReferenceType) : Parser TypeArgument := do
  match ← Parser.peek with
  | some '*' =>
    let _ ← Parser.next
    return .wildcard
  | some '+' =>
    let _ ← Parser.next
    return .concrete (some .upper) (← inner)
  | some '-' =>
    let _ ← Parser.next
    return .concrete (some .lower) (← inner)
  | _ => return .concrete none (← inner)

/-- A list of type arguments, or nothing. -/
def argumentsParser (inner : Parser ReferenceType) : Parser (List TypeArgument) := do
  if ← Parser.accept '<' then Parser.someUntil '>' (argumentParser inner) else pure []

def simpleClassParser (inner : Parser ReferenceType) : Parser SimpleClassType := do
  let name ← identifier
  return ⟨name, ← argumentsParser inner⟩

def classParser (inner : Parser ReferenceType) : Parser ClassType := do
  Parser.expect 'L'
  let name ← qualifiedName
  let arguments ← argumentsParser inner
  let suffixes ← Parser.manyAfter '.' (simpleClassParser inner)
  Parser.expect ';'
  return ⟨name, arguments, suffixes⟩

def javaParser (inner : Parser ReferenceType) : Parser JavaType := do
  match ← Parser.peek with
  | some 'L' | some 'T' | some '[' => return .reference (← inner)
  | _ => return .base (← BaseType.parser)

/-- Reference types nested at most `depth` deep. -/
def parserAt : (depth : Nat) → Parser ReferenceType
  | 0 => throw .missingReferenceSignature
  | depth + 1 => do
    match ← Parser.peek with
    | some 'L' => return .classType (← classParser (parserAt depth))
    | some 'T' =>
      let _ ← Parser.next
      let name ← identifier
      Parser.expect ';'
      return .typeVariable name
    | some '[' =>
      let _ ← Parser.next
      return .array (← javaParser (parserAt depth))
    | some c => throw (.badReferenceSignature c)
    | none => throw .missingReferenceSignature

def parser : Parser ReferenceType := fun cs => parserAt (cs.length + 1) cs

end ReferenceType

def JavaType.parser : Parser JavaType := ReferenceType.javaParser ReferenceType.parser

def ClassType.parser : Parser ClassType := ReferenceType.classParser ReferenceType.parser

def SimpleClassType.parser : Parser SimpleClassType :=
  ReferenceType.simpleClassParser ReferenceType.parser

def TypeArgument.parser : Parser TypeArgument :=
  ReferenceType.argumentParser ReferenceType.parser

/-! ## Declarations -/

/-- A declared type variable with its bounds. -/
structure TypeParameter where
  name : String
  classBound : Option ReferenceType
  interfaceBounds : List ReferenceType

namespace TypeParameter

def chars (p : TypeParameter) : List Char :=
  p.name.toList ++ ':' :: p.classBound.elim [] ReferenceType.chars
    ++ p.interfaceBounds.flatMap fun bound => ':' :: bound.chars

def parser : Parser TypeParameter := do
  let name ← identifier
  Parser.expect ':'
  let classBound ← match ← Parser.peek with
    | some 'L' | some 'T' | some '[' => some <$> ReferenceType.parser
    | _ => pure none
  let interfaceBounds ← Parser.manyAfter ':' ReferenceType.parser
  return ⟨name, classBound, interfaceBounds⟩

def listChars (ps : List TypeParameter) : List Char := bracketed ps.isEmpty (ps.flatMap chars)

/-- A list of type parameters, or nothing. -/
def listParser : Parser (List TypeParameter) := do
  if ← Parser.accept '<' then Parser.someUntil '>' parser else pure []

end TypeParameter

/-- What a class declares: its type parameters, its superclass and its interfaces. -/
structure ClassSignature where
  typeParameters : List TypeParameter
  superclass : ClassType
  interfaces : List ClassType

namespace ClassSignature

def chars (s : ClassSignature) : List Char :=
  TypeParameter.listChars s.typeParameters ++ s.superclass.chars
    ++ s.interfaces.flatMap ClassType.chars

def parser : Parser ClassSignature := do
  let typeParameters ← TypeParameter.listParser
  let superclass ← ClassType.parser
  let interfaces ← Parser.manyToEnd ClassType.parser
  return ⟨typeParameters, superclass, interfaces⟩

end ClassSignature

/-- What a method declares. A method without a result has none; a thrown type is a class
or a type variable. -/
structure MethodSignature where
  typeParameters : List TypeParameter
  parameters : List JavaType
  result : Option JavaType
  throws : List ReferenceType

namespace MethodSignature

def chars (s : MethodSignature) : List Char :=
  TypeParameter.listChars s.typeParameters ++ '(' :: s.parameters.flatMap JavaType.chars
    ++ ')' :: s.result.elim ['V'] JavaType.chars ++ s.throws.flatMap fun t => '^' :: t.chars

def thrownParser : Parser ReferenceType := do
  match ← Parser.peek with
  | some 'L' | some 'T' => ReferenceType.parser
  | some c => throw (.badThrownType c)
  | none => throw .missingThrownType

def parser : Parser MethodSignature := do
  let typeParameters ← TypeParameter.listParser
  Parser.expect '('
  let parameters ← Parser.manyUntil ')' JavaType.parser
  let result ← if ← Parser.accept 'V' then pure none else some <$> JavaType.parser
  let throws ← Parser.manyAfter '^' thrownParser
  return ⟨typeParameters, parameters, result, throws⟩

end MethodSignature

/-- What a signature belongs to, which decides its grammar. -/
inductive SignatureKind where
  | ofClass
  | ofField
  | ofMethod
deriving DecidableEq, Repr

/-- A signature of any kind; that of a field is a reference type. -/
inductive Signature where
  | ofClass (s : ClassSignature)
  | ofField (t : ReferenceType)
  | ofMethod (s : MethodSignature)

namespace Signature

def chars : Signature → List Char
  | .ofClass s => s.chars
  | .ofField t => t.chars
  | .ofMethod s => s.chars

def parser : SignatureKind → Parser Signature
  | .ofClass => .ofClass <$> ClassSignature.parser
  | .ofField => .ofField <$> ReferenceType.parser
  | .ofMethod => .ofMethod <$> MethodSignature.parser

def render (s : Signature) : String := String.ofList s.chars

def parse (kind : SignatureKind) (text : String) : Except SyntaxError Signature :=
  Parser.parseAll (parser kind) text

end Signature

end Repackage
