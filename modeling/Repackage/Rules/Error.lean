/-!
# Why rules are refused
-/

namespace Repackage

inductive RuleError where
  | duplicateKey (key : String)
  | emptyKey
  | malformedBundle (text : String)
deriving DecidableEq, Repr

def RuleError.message : RuleError → String
  | .duplicateKey key => s!"Duplicate rename rule for '{key}'"
  | .emptyKey => "Empty rename rule key"
  | .malformedBundle text => s!"Incorrectly formatted bundle identity update '{text}'"

end Repackage
