/-!
# What changed in a class

`Changes` records the names of a class before and after, and how many of its parts were
modified. Its `summary` is what a report shows.
-/

namespace Repackage

/-- A value before and after. -/
structure Change (α : Type) where
  input : α
  output : α
deriving DecidableEq, Repr

namespace Change

def unchanged {α : Type} (x : α) : Change α := ⟨x, x⟩

def differs {α : Type} [DecidableEq α] (c : Change α) : Bool := c.input ≠ c.output

end Change

structure Changes where
  resource : Change String
  className : Change String
  superName : Change (Option String)
  interfaces : Nat := 0
  fields : Nat := 0
  methods : Nat := 0
  attributes : Nat := 0
  constants : Nat := 0
deriving DecidableEq, Repr

namespace Changes

/-- The record of a class before anything changed. -/
def start (resource className : String) (superName : Option String) : Changes where
  resource := .unchanged resource
  className := .unchanged className
  superName := .unchanged superName

/-- The class is to be found elsewhere. -/
def moved (c : Changes) : Bool := c.resource.differs

/-- Something inside the class changed. -/
def contentChanged (c : Changes) : Bool :=
  c.className.differs || c.superName.differs || c.interfaces > 0 || c.fields > 0
    || c.methods > 0 || c.attributes > 0 || c.constants > 0

def any (c : Changes) : Bool := c.moved || c.contentChanged

def counts (c : Changes) : List Nat :=
  [c.interfaces, c.fields, c.methods, c.attributes, c.constants]

def summary (c : Changes) : String :=
  (if c.moved then s!"moved to {c.resource.output} " else "")
    ++ s!"(interfaces: {c.interfaces}, fields: {c.fields}, methods: {c.methods}, "
    ++ s!"attributes: {c.attributes}, constants: {c.constants})"

end Changes

end Repackage
