import Repackage.ClassFile.Reader
import Repackage.Proofs.Encoding.Words

/-!
# Pieces are written as they were read

`r.Mirrors w` says that the bytes which the reader `r` takes for a value are those which
`w` writes for it. A reader in `do` notation is taken apart by `bind_eq_ok`; the readers
of fixed size have one inversion lemma each (`u8_eq_ok`, `u16_eq_ok`, …), and lists keep
the property of their items (`Mirrors.list8`, `Mirrors.list16`).
-/

namespace Repackage

namespace Reader

variable {α β : Type} {bytes rest : Bytes}

/-- The bytes taken for a value are the bytes written for it. -/
def Mirrors (r : Reader α) (w : α → Written) : Prop :=
  ∀ ⦃bytes x rest⦄, r bytes = .ok (x, rest) → ∃ taken, w x = .ok taken ∧ bytes = taken ++ rest

/-! ## Readers in `do` notation -/

theorem bind_eq_ok {r : Reader α} {f : α → Reader β} {y : β} :
    (r >>= f) bytes = .ok (y, rest) ↔
      ∃ x left, r bytes = .ok (x, left) ∧ f x left = .ok (y, rest) := by
  change (r bytes >>= fun p => f p.1 p.2) = .ok (y, rest) ↔ _
  constructor
  · intro h
    cases hr : r bytes with
    | error e => rw [hr] at h; cases h
    | ok p => rw [hr] at h; exact ⟨p.1, p.2, rfl, h⟩
  · rintro ⟨x, left, hr, hf⟩
    rw [hr]
    exact hf

theorem pure_eq_ok {x y : α} :
    (pure x : Reader α) bytes = .ok (y, rest) ↔ x = y ∧ bytes = rest := by
  change (Except.ok (x, bytes) : Except ClassError (α × Bytes)) = .ok (y, rest) ↔ _
  rw [Except.ok.injEq, Prod.mk.injEq]

theorem lift_eq_ok {e : Except ClassError α} {x : α} :
    (liftM e : Reader α) bytes = .ok (x, rest) ↔ e = .ok x ∧ bytes = rest := by
  change (e >>= fun a => Except.ok (a, bytes)) = .ok (x, rest) ↔ _
  cases e with
  | error e => simp [bind, Except.bind]
  | ok a => simp [bind, Except.bind]

/-! ## Numbers -/

theorem u8_eq_ok {n : UInt8} : u8 bytes = .ok (n, rest) ↔ bytes = n :: rest := by
  cases bytes with
  | nil => simp [u8]
  | cons a bytes => simp [u8]

theorem u16_eq_ok {n : UInt16} (h : u16 bytes = .ok (n, rest)) :
    bytes = Bytes.ofWord16 n ++ rest := by
  unfold u16 at h
  split at h
  · cases h
    rw [Bytes.ofWord16_word16]
    rfl
  · cases h

theorem u32_eq_ok {n : UInt32} (h : u32 bytes = .ok (n, rest)) :
    bytes = Bytes.ofWord32 n ++ rest := by
  obtain ⟨a, left, ha, h⟩ := bind_eq_ok.1 h
  obtain ⟨b, left', hb, h⟩ := bind_eq_ok.1 h
  obtain ⟨rfl, rfl⟩ := pure_eq_ok.1 h
  rw [u16_eq_ok ha, u16_eq_ok hb, Bytes.ofWord32_word32, List.append_assoc]

theorem u64_eq_ok {n : UInt64} (h : u64 bytes = .ok (n, rest)) :
    bytes = Bytes.ofWord64 n ++ rest := by
  obtain ⟨a, left, ha, h⟩ := bind_eq_ok.1 h
  obtain ⟨b, left', hb, h⟩ := bind_eq_ok.1 h
  obtain ⟨rfl, rfl⟩ := pure_eq_ok.1 h
  rw [u32_eq_ok ha, u32_eq_ok hb, Bytes.ofWord64_word64, List.append_assoc]

theorem optionalIndex_eq_ok {i : Option Index} (h : optionalIndex bytes = .ok (i, rest)) :
    bytes = Writer.optionalIndex i ++ rest := by
  obtain ⟨n, left, hn, h⟩ := bind_eq_ok.1 h
  obtain ⟨rfl, rfl⟩ := pure_eq_ok.1 h
  rw [u16_eq_ok hn, Writer.optionalIndex]
  split
  · rename_i h0
    rw [h0]
    rfl
  · rfl

theorem take_eq_ok {n : Nat} {short : Nat → ReadError} {taken : Bytes}
    (h : take n short bytes = .ok (taken, rest)) : bytes = taken ++ rest ∧ taken.length = n := by
  unfold take at h
  simp only at h
  split at h
  · rename_i hn
    cases h
    exact ⟨(List.take_append_drop n bytes).symm, hn⟩
  · cases h

end Reader

/-! ## Lengths -/

namespace Writer

theorem length8_of_toNat {n : UInt8} {k : Nat} (h : k = n.toNat) : length8 k = .ok n := by
  subst h
  rw [length8, if_pos n.toNat_lt, UInt8.ofNat_toNat]

theorem length16_of_toNat {n : UInt16} {k : Nat} (h : k = n.toNat) : length16 k = .ok n := by
  subst h
  rw [length16, if_pos n.toNat_lt, UInt16.ofNat_toNat]

theorem length32_of_toNat {n : UInt32} {k : Nat} (h : k = n.toNat) : length32 k = .ok n := by
  subst h
  rw [length32, if_pos n.toNat_lt, UInt32.ofNat_toNat]

theorem toNat_of_length8 {n : UInt8} {k : Nat} (h : length8 k = .ok n) : n.toNat = k := by
  unfold length8 at h
  split at h
  · cases h
    exact UInt8.toNat_ofNat_of_lt' (by assumption)
  · cases h

theorem toNat_of_length16 {n : UInt16} {k : Nat} (h : length16 k = .ok n) : n.toNat = k := by
  unfold length16 at h
  split at h
  · cases h
    exact UInt16.toNat_ofNat_of_lt' (by assumption)
  · cases h

theorem toNat_of_length32 {n : UInt32} {k : Nat} (h : length32 k = .ok n) : n.toNat = k := by
  unfold length32 at h
  split at h
  · cases h
    exact UInt32.toNat_ofNat_of_lt' (by assumption)
  · cases h

theorem bind_eq_ok {ε α β : Type} {m : Except ε α} {f : α → Except ε β} {b : β}
    (h : (m >>= f) = .ok b) : ∃ a, m = .ok a ∧ f a = .ok b := by
  cases m with
  | error e => cases h
  | ok a => exact ⟨a, rfl, h⟩

variable {α : Type} {w : α → Written}

theorem items_nil : items w [] = .ok [] := rfl

theorem items_cons (x : α) (xs : List α) :
    items w (x :: xs) = (do let a ← w x; return a ++ (← items w xs)) := by
  simp [items]

theorem items_cons_ok {x : α} {xs : List α} {a b : Bytes} (ha : w x = .ok a)
    (hb : items w xs = .ok b) : items w (x :: xs) = .ok (a ++ b) := by
  rw [items_cons, ha, hb]
  rfl

end Writer

/-! ## Lists -/

namespace Reader

variable {α : Type} {r : Reader α} {w : α → Written}

theorem Mirrors.times (hr : r.Mirrors w) {n : Nat} {bytes rest : Bytes} {xs : List α}
    (h : r.times n bytes = .ok (xs, rest)) :
    xs.length = n ∧ ∃ taken, Writer.items w xs = .ok taken ∧ bytes = taken ++ rest := by
  induction n generalizing bytes xs with
  | zero =>
    obtain ⟨rfl, rfl⟩ := pure_eq_ok.1 h
    exact ⟨rfl, [], Writer.items_nil, rfl⟩
  | succ n ih =>
    obtain ⟨x, left, hx, h⟩ := bind_eq_ok.1 h
    obtain ⟨xs', left', hxs, h⟩ := bind_eq_ok.1 h
    obtain ⟨rfl, rfl⟩ := pure_eq_ok.1 h
    obtain ⟨a, ha, rfl⟩ := hr hx
    obtain ⟨hlen, b, hb, rfl⟩ := ih hxs
    exact ⟨by rw [List.length_cons, hlen], a ++ b, Writer.items_cons_ok ha hb, by
      rw [List.append_assoc]⟩

theorem Mirrors.list8 (hr : r.Mirrors w) : (list8 r).Mirrors (Writer.list8 w) := by
  intro bytes xs rest h
  obtain ⟨n, left, hn, h⟩ := bind_eq_ok.1 h
  obtain ⟨hlen, taken, ht, rfl⟩ := hr.times h
  refine ⟨n :: taken, ?_, u8_eq_ok.1 hn⟩
  rw [Writer.list8, Writer.length8_of_toNat hlen, ht]
  rfl

theorem Mirrors.list16 (hr : r.Mirrors w) : (list16 r).Mirrors (Writer.list16 w) := by
  intro bytes xs rest h
  obtain ⟨n, left, hn, h⟩ := bind_eq_ok.1 h
  obtain ⟨hlen, taken, ht, rfl⟩ := hr.times h
  refine ⟨Bytes.ofWord16 n ++ taken, ?_, by rw [u16_eq_ok hn, List.append_assoc]⟩
  rw [Writer.list16, Writer.length16_of_toNat hlen, ht]
  rfl

/-- A value that is made from one thing read is written as that thing. -/
theorem Mirrors.map {β : Type} {f : α → β} {w' : β → Written} (hr : r.Mirrors w)
    (hw : ∀ x, w' (f x) = w x) : (do return f (← r) : Reader β).Mirrors w' := by
  intro bytes y rest h
  obtain ⟨x, left, hx, h⟩ := bind_eq_ok.1 h
  obtain ⟨rfl, rfl⟩ := pure_eq_ok.1 h
  rw [hw]
  exact hr hx

/-- Either of two readers, whatever decides which. -/
theorem Mirrors.ite {c : Prop} {_ : Decidable c} {a b : Reader α} (ha : a.Mirrors w)
    (hb : b.Mirrors w) : (if c then a else b).Mirrors w := by
  by_cases h : c
  · rw [if_pos h]
    exact ha
  · rw [if_neg h]
    exact hb

theorem throw_mirrors (e : ClassError) : (throw e : Reader α).Mirrors w := nofun

theorem u8_mirrors : u8.Mirrors fun n => .ok [n] := fun _ _ _ h => ⟨_, rfl, u8_eq_ok.1 h⟩

theorem index_mirrors : index.Mirrors fun i => .ok (Bytes.ofWord16 i) :=
  fun _ _ _ h => ⟨_, rfl, u16_eq_ok h⟩

end Reader

end Repackage
