/-!
# Arrays addressed by offsets

An element takes up as many offsets as it is wide. Its own offset is the first of them, and it is
the first that the elements before it do not take up. Each element is stored with its offset, and
the array knows the offset that the next element gets.

An element is looked up by its offset, which is searched for by halving. An offset can be that of no
element: it can come before them all, be one that a wide element takes up after its own, or be past
the end. An element is exchanged only for one of the same width, so all others keep their offsets.
-/

namespace Repackage

variable {α : Type} {width : α → Nat} {start next : Nat}

/-- The entries follow each other: the first has the offset `start`, each is followed after its
width, and so is the last by `next`. -/
def Consecutive (width : α → Nat) : (start : Nat) → List (Nat × α) → (next : Nat) → Prop
  | start, [], next => next = start
  | start, (offset, a) :: rest, next =>
    offset = start ∧ Consecutive width (start + width a) rest next

theorem Consecutive.push {entries : List (Nat × α)} (h : Consecutive width start entries next)
    (a : α) : Consecutive width start (entries ++ [(next, a)]) (next + width a) := by
  induction entries generalizing start with
  | nil =>
    cases h
    exact ⟨rfl, rfl⟩
  | cons entry entries ih => exact ⟨h.1, ih h.2⟩

theorem Consecutive.set {entries : List (Nat × α)} (h : Consecutive width start entries next)
    {k : Nat} (hk : k < entries.length) {a : α} (hwidth : width entries[k].2 = width a) :
    Consecutive width start (entries.set k (entries[k].1, a)) next := by
  induction entries generalizing start k with
  | nil => cases hk
  | cons entry entries ih =>
    obtain ⟨hoffset, hrest⟩ := h
    cases k with
    | zero => exact ⟨hoffset, hwidth ▸ hrest⟩
    | succ k => exact ⟨hoffset, ih hrest (Nat.lt_of_succ_lt_succ hk) hwidth⟩

/-- Elements of the given widths, of which the first has the offset `start`. -/
structure OffsetArray (width : α → Nat) (start : Nat) where
  entries : Array (Nat × α)
  next : Nat
  consecutive : Consecutive width start entries.toList next

/-- Why no element is found at an offset or exchanged there. -/
inductive OffsetError where
  /-- No element has this offset; that of the element at `k` comes after it. -/
  | between (k : Nat)
  | tooLarge
  | incompatibleWidth (new old : Nat)
deriving DecidableEq, Repr

namespace OffsetArray

/-- The place of an offset among `n` entries: the position of its entry, or else the position at
which an entry with this offset would have to be put in. -/
inductive Place (n : Nat) where
  | found (k : Fin n)
  | absent (k : Nat)
deriving DecidableEq, Repr

/-- Searches the entries from `lo` to before `hi`, which are cut in halves. -/
def search (entries : Array (Nat × α)) (offset lo hi : Nat) (hhi : hi ≤ entries.size) :
    Place entries.size :=
  if hlt : lo < hi then
    let mid := lo + (hi - lo) / 2
    have hmid : mid < entries.size := by omega
    if entries[mid].1 = offset then .found ⟨mid, hmid⟩
    else if entries[mid].1 < offset then search entries offset (mid + 1) hi hhi
    else search entries offset lo mid (Nat.le_of_lt hmid)
  else .absent lo
termination_by hi - lo

def empty : OffsetArray width start := ⟨#[], start, rfl⟩

def size (v : OffsetArray width start) : Nat := v.entries.size

def toList (v : OffsetArray width start) : List α := v.entries.toList.map Prod.snd

/-- Adds an element at the end, where it gets the offset `next`. -/
def push (v : OffsetArray width start) (a : α) : OffsetArray width start where
  entries := v.entries.push (v.next, a)
  next := v.next + width a
  consecutive := by
    rw [Array.toList_push]
    exact v.consecutive.push a

def locate (v : OffsetArray width start) (offset : Nat) : Place v.entries.size :=
  search v.entries offset 0 v.entries.size (Nat.le_refl _)

/-- What is wrong with an offset that would have to be put in at `k`. -/
def missing (v : OffsetArray width start) (k : Nat) : OffsetError :=
  if k = v.size then .tooLarge else .between k

/-- The element at an offset, and its position. -/
def get (v : OffsetArray width start) (offset : Nat) : Except OffsetError (Nat × α) :=
  match v.locate offset with
  | .found k => .ok (k, v.entries[k].2)
  | .absent k => .error (v.missing k)

/-- Puts an element in the place of the one at position `k`, which is as wide. -/
def exchange (v : OffsetArray width start) (k : Fin v.entries.size) (a : α)
    (hwidth : width v.entries[k].2 = width a) : OffsetArray width start where
  entries := v.entries.set k (v.entries[k].1, a)
  next := v.next
  consecutive := by
    rw [Array.toList_set]
    exact v.consecutive.set k.isLt hwidth

/-- Puts an element in the place of the one at an offset, which is returned with its position. -/
def set (v : OffsetArray width start) (offset : Nat) (a : α) :
    Except OffsetError (Nat × α) × OffsetArray width start :=
  match v.locate offset with
  | .found k =>
    let old := v.entries[k].2
    if hwidth : width old = width a then (.ok (k, old), v.exchange k a hwidth)
    else (.error (.incompatibleWidth (width a) (width old)), v)
  | .absent k => (.error (v.missing k), v)

end OffsetArray

end Repackage
