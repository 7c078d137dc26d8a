import Repackage.Bytes

/-!
# Buffers

Buffers for reading resources are lent out and come back empty when they are dropped, to
be lent again. Buffers are numbered in the order in which they are taken.
-/

namespace Repackage

/-- `idle` buffers wait to be taken; `lent` has each buffer taken so far, until it is
dropped. -/
structure Buffers where
  idle : Nat := 0
  lent : Array (Option Bytes) := #[]

namespace Buffers

/-- Takes an empty buffer, an idle one if there is one. -/
def take (b : Buffers) : Buffers × Nat :=
  (⟨b.idle - 1, b.lent.push (some [])⟩, b.lent.size)

/-- The contents of a buffer that is still held. -/
def read? (b : Buffers) (n : Nat) : Option Bytes := b.lent[n]?.join

/-- Appends to a buffer that is still held. -/
def append? (b : Buffers) (n : Nat) (bytes : Bytes) : Option Buffers :=
  (b.read? n).map fun old => { b with lent := b.lent.setIfInBounds n (some (old ++ bytes)) }

/-- Gives back a buffer that is still held. -/
def drop? (b : Buffers) (n : Nat) : Option Buffers :=
  (b.read? n).map fun _ => ⟨b.idle + 1, b.lent.setIfInBounds n none⟩

end Buffers

end Repackage
