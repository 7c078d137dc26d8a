import Repackage.Name

/-!
# Why a descriptor or a signature is refused

Each cause is either a character that cannot stand where it is or an end of the text
that came too early (`SyntaxError.atEnd`).
-/

namespace Repackage

inductive SyntaxError where
  | leftover (c : Char)
  | expected (c found : Char)
  | missing (c : Char)
  | badBaseType (c : Char)
  | missingBaseType
  | badName (cause : NameError)
  | unterminatedName (name : String)
  | badReferenceType (c : Char)
  | missingFieldType
  | badReferenceSignature (c : Char)
  | missingReferenceSignature
  | badIdentifier (c : Char)
  | missingIdentifier
  | badThrownType (c : Char)
  | missingThrownType
deriving DecidableEq, Repr

namespace SyntaxError

/-- The text ended where more was needed. -/
def atEnd : SyntaxError → Bool
  | .missing _ | .missingBaseType | .unterminatedName _ | .missingFieldType
  | .missingReferenceSignature | .missingIdentifier | .missingThrownType => true
  | _ => false

def message : SyntaxError → String
  | .leftover c => s!"Unexpected leftover input '{c}'"
  | .expected c found => s!"Expected '{c}' but found '{found}'"
  | .missing c => s!"Expected '{c}'"
  | .badBaseType c => s!"Invalid base type character '{c}'"
  | .missingBaseType => "Missing base type character"
  | .badName cause => cause.message
  | .unterminatedName name => s!"Missing terminator for 'L{name}'"
  | .badReferenceType c => s!"Invalid reference type character '{c}'"
  | .missingFieldType => "Missing field type"
  | .badReferenceSignature c => s!"Invalid start to reference type: {c}"
  | .missingReferenceSignature => "Expected reference type"
  | .badIdentifier c => s!"Expected identifier but found '{c}'"
  | .missingIdentifier => "Expected identifier"
  | .badThrownType c => s!"Invalid thrown type start '{c}'"
  | .missingThrownType => "Expected thrown type"

end SyntaxError

end Repackage
