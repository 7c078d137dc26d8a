import Repackage.Bytes

/-!
# Words and their bytes

A big-endian word is its high half times a power of two plus its low half (`toNat_word16`
and its siblings). Writing a word that was put together from two halves gives the halves.
-/

namespace Repackage.Bytes

theorem toNat_word16 (a b : UInt8) : (word16 a b).toNat = a.toNat * 256 + b.toNat := by
  have ha : a.toNat < 256 := a.toNat_lt
  have hb : b.toNat < 2 ^ 8 := b.toNat_lt
  have hs : a.toNat <<< 8 < 65536 := by rw [Nat.shiftLeft_eq]; omega
  have e : (word16 a b).toNat = (a.toNat <<< 8 % 65536) ||| b.toNat := by simp [word16]
  rw [e, Nat.mod_eq_of_lt hs, ← Nat.shiftLeft_add_eq_or_of_lt hb, Nat.shiftLeft_eq]

theorem toNat_word32 (a b : UInt16) : (word32 a b).toNat = a.toNat * 65536 + b.toNat := by
  have ha : a.toNat < 65536 := a.toNat_lt
  have hb : b.toNat < 2 ^ 16 := b.toNat_lt
  have hs : a.toNat <<< 16 < 4294967296 := by rw [Nat.shiftLeft_eq]; omega
  have e : (word32 a b).toNat = (a.toNat <<< 16 % 4294967296) ||| b.toNat := by simp [word32]
  rw [e, Nat.mod_eq_of_lt hs, ← Nat.shiftLeft_add_eq_or_of_lt hb, Nat.shiftLeft_eq]

theorem toNat_word64 (a b : UInt32) : (word64 a b).toNat = a.toNat * 4294967296 + b.toNat := by
  have ha : a.toNat < 4294967296 := a.toNat_lt
  have hb : b.toNat < 2 ^ 32 := b.toNat_lt
  have hs : a.toNat <<< 32 < 18446744073709551616 := by rw [Nat.shiftLeft_eq]; omega
  have e : (word64 a b).toNat = (a.toNat <<< 32 % 18446744073709551616) ||| b.toNat := by
    simp [word64]
  rw [e, Nat.mod_eq_of_lt hs, ← Nat.shiftLeft_add_eq_or_of_lt hb, Nat.shiftLeft_eq]

theorem ofWord16_word16 (a b : UInt8) : ofWord16 (word16 a b) = [a, b] := by
  have ha : a.toNat < 256 := a.toNat_lt
  have hb : b.toNat < 256 := b.toNat_lt
  have high : (word16 a b >>> 8).toUInt8 = a := by
    apply UInt8.toNat_inj.1
    simp [toNat_word16, Nat.shiftRight_eq_div_pow]
    omega
  have low : (word16 a b).toUInt8 = b := by
    apply UInt8.toNat_inj.1
    simp [toNat_word16]
  rw [ofWord16, high, low]

theorem ofWord32_word32 (a b : UInt16) :
    ofWord32 (word32 a b) = ofWord16 a ++ ofWord16 b := by
  have ha : a.toNat < 65536 := a.toNat_lt
  have hb : b.toNat < 65536 := b.toNat_lt
  have high : (word32 a b >>> 16).toUInt16 = a := by
    apply UInt16.toNat_inj.1
    simp [toNat_word32, Nat.shiftRight_eq_div_pow]
    omega
  have low : (word32 a b).toUInt16 = b := by
    apply UInt16.toNat_inj.1
    simp [toNat_word32]
  rw [ofWord32, high, low]

theorem ofWord64_word64 (a b : UInt32) :
    ofWord64 (word64 a b) = ofWord32 a ++ ofWord32 b := by
  have ha : a.toNat < 4294967296 := a.toNat_lt
  have hb : b.toNat < 4294967296 := b.toNat_lt
  have high : (word64 a b >>> 32).toUInt32 = a := by
    apply UInt32.toNat_inj.1
    simp [toNat_word64, Nat.shiftRight_eq_div_pow]
    omega
  have low : (word64 a b).toUInt32 = b := by
    apply UInt32.toNat_inj.1
    simp [toNat_word64]
  rw [ofWord64, high, low]

theorem word16_bytes (n : UInt16) : word16 (n >>> 8).toUInt8 n.toUInt8 = n := by
  have hn : n.toNat < 65536 := n.toNat_lt
  apply UInt16.toNat_inj.1
  simp [toNat_word16, Nat.shiftRight_eq_div_pow]
  omega

theorem word32_halves (n : UInt32) : word32 (n >>> 16).toUInt16 n.toUInt16 = n := by
  have hn : n.toNat < 4294967296 := n.toNat_lt
  apply UInt32.toNat_inj.1
  simp [toNat_word32, Nat.shiftRight_eq_div_pow]
  omega

theorem word64_halves (n : UInt64) : word64 (n >>> 32).toUInt32 n.toUInt32 = n := by
  have hn : n.toNat < 18446744073709551616 := n.toNat_lt
  apply UInt64.toNat_inj.1
  simp [toNat_word64, Nat.shiftRight_eq_div_pow]
  omega

theorem ofWord16_inj {m n : UInt16} (h : ofWord16 m = ofWord16 n) : m = n := by
  obtain ⟨high, low⟩ := List.cons.inj h
  rw [← word16_bytes m, ← word16_bytes n, high, (List.cons.inj low).1]

end Repackage.Bytes
