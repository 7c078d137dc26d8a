import Repackage.Text.ModifiedUtf8

/-!
# Decoded texts are written as they were read

A byte form determines the code it stands for and the code its byte form: `two_of_ofTwo?`
and `three_of_ofThree?` say so for the forms of two and three bytes, where a pair of
surrogates is two forms of three. Since a text decodes only from its one encoding,
`encode_of_decode?` gives back all the bytes. In turn every text is read from its encoding
(`decode?_encode`), so texts with one encoding are the same (`encode_inj`).
-/

namespace Repackage.ModifiedUtf8

theorem ofNat_eq_of_toNat {n : Nat} {b : UInt8} (h : n = b.toNat) : UInt8.ofNat n = b := by
  rw [h, UInt8.ofNat_toNat]

theorem toNat_of_continuation? {b : UInt8} {n : Nat} (h : continuation? b = some n) :
    b.toNat = 0x80 + n ∧ n < 64 := by
  have hb : b.toNat < 256 := b.toNat_lt
  unfold continuation? at h
  split at h
  · cases h
    omega
  · cases h

theorem two_of_ofTwo? {a b : UInt8} {n : Nat} (ha : a.toNat / 32 = 6)
    (h : ofTwo? a b = some n) : two n = [a, b] ∧ n < 0x800 ∧ (n = 0 ∨ 0x80 ≤ n) := by
  simp only [ofTwo?, Option.bind_eq_bind, Option.bind_eq_some_iff] at h
  obtain ⟨low, hl, h⟩ := h
  obtain ⟨hb, hlow⟩ := toNat_of_continuation? hl
  split at h
  · cases h
  · rename_i hn
    cases h
    refine ⟨?_, by omega, by omega⟩
    rw [two, ofNat_eq_of_toNat (b := a) (by omega), ofNat_eq_of_toNat (b := b) (by omega)]

theorem three_of_ofThree? {a b c : UInt8} {n : Nat} (h : ofThree? a b c = some n) :
    three n = [a, b, c] ∧ 0x800 ≤ n ∧ n < 0x10000 := by
  simp only [ofThree?, Option.bind_eq_bind] at h
  split at h
  · cases h
  · rename_i ha
    simp only [Option.bind_eq_some_iff] at h
    obtain ⟨middle, hm, low, hl, h⟩ := h
    obtain ⟨hb, hmiddle⟩ := toNat_of_continuation? hm
    obtain ⟨hc, hlow⟩ := toNat_of_continuation? hl
    split at h
    · cases h
    · rename_i hn
      cases h
      refine ⟨?_, by omega, by omega⟩
      rw [three, ofNat_eq_of_toNat (b := a) (by omega), ofNat_eq_of_toNat (b := b) (by omega),
        ofNat_eq_of_toNat (b := c) (by omega)]

theorem isHighSurrogate_iff {n : Nat} :
    isHighSurrogate n = true ↔ 0xD800 ≤ n ∧ n ≤ 0xDBFF := by
  simp [isHighSurrogate]

theorem isLowSurrogate_iff {n : Nat} : isLowSurrogate n = true ↔ 0xDC00 ≤ n ∧ n ≤ 0xDFFF := by
  simp [isLowSurrogate]

/-! ## One character -/

theorem toNat_ofNat_of_isValidChar {n : Nat} (h : n.isValidChar) : (Char.ofNat n).toNat = n := by
  rw [Char.ofNat, dif_pos h]
  rfl

theorem encodeChar_ofNat {n : Nat} (h : n.isValidChar) :
    encodeChar (Char.ofNat n) =
      if n = 0 then two 0
      else if n < 0x80 then [.ofNat n]
      else if n < 0x800 then two n
      else if n < 0x10000 then three n
      else three (0xD800 + (n - 0x10000) / 0x400) ++ three (0xDC00 + (n - 0x10000) % 0x400) := by
  rw [encodeChar, toNat_ofNat_of_isValidChar h]

theorem encodeChar_of_lt {a : UInt8} (h0 : a.toNat ≠ 0) (h : a.toNat < 0x80) :
    encodeChar (Char.ofNat a.toNat) = [a] := by
  rw [encodeChar_ofNat (.inl (by omega)), if_neg h0, if_pos h, UInt8.ofNat_toNat]

theorem encodeChar_of_ofTwo? {a b : UInt8} {n : Nat} (ha : a.toNat / 32 = 6)
    (h : ofTwo? a b = some n) : encodeChar (Char.ofNat n) = [a, b] := by
  obtain ⟨e, hlt, hn⟩ := two_of_ofTwo? ha h
  rw [encodeChar_ofNat (.inl (by omega)), ← e]
  rcases hn with rfl | hn
  · rfl
  · rw [if_neg (by omega), if_neg (by omega), if_pos hlt]

theorem isValidChar_of_not_surrogate {n : Nat} (hl : ¬ isLowSurrogate n = true)
    (hh : ¬ isHighSurrogate n = true) (hn : n < 0x10000) : n.isValidChar := by
  rw [isLowSurrogate_iff] at hl
  rw [isHighSurrogate_iff] at hh
  rw [Nat.isValidChar]
  omega

theorem encodeChar_of_ofThree? {a b c : UInt8} {n : Nat} (h : ofThree? a b c = some n)
    (hl : ¬ isLowSurrogate n = true) (hh : ¬ isHighSurrogate n = true) :
    encodeChar (Char.ofNat n) = [a, b, c] := by
  obtain ⟨e, hle, hlt⟩ := three_of_ofThree? h
  rw [encodeChar_ofNat (isValidChar_of_not_surrogate hl hh hlt), ← e]
  rw [if_neg (by omega), if_neg (by omega), if_neg (by omega), if_pos hlt]

theorem encodeChar_of_pair {a b c d e f : UInt8} {n m : Nat} (h : ofThree? a b c = some n)
    (h' : ofThree? d e f = some m) (hh : isHighSurrogate n = true) (hl : isLowSurrogate m = true) :
    encodeChar (Char.ofNat (0x10000 + (n - 0xD800) * 0x400 + (m - 0xDC00))) = [a, b, c, d, e, f] := by
  rw [isLowSurrogate_iff] at hl
  rw [isHighSurrogate_iff] at hh
  rw [encodeChar_ofNat (.inr ⟨by omega, by omega⟩)]
  rw [if_neg (by omega), if_neg (by omega), if_neg (by omega), if_neg (by omega)]
  -- the two surrogates are the quotient and the remainder of the code
  have high : 0xD800 + (0x10000 + (n - 0xD800) * 0x400 + (m - 0xDC00) - 0x10000) / 0x400 = n := by
    omega
  have low : 0xDC00 + (0x10000 + (n - 0xD800) * 0x400 + (m - 0xDC00) - 0x10000) % 0x400 = m := by
    omega
  rw [high, low, (three_of_ofThree? h).1, (three_of_ofThree? h').1]
  rfl

/-! ## Texts -/

theorem flatMap_encodeChar_of_decodeChars? {bytes : Bytes} {chars : List Char}
    (h : decodeChars? bytes = some chars) : chars.flatMap encodeChar = bytes := by
  fun_induction decodeChars? bytes generalizing chars with
  | case1 => cases h; rfl
  | case3 a rest h0 h1 ih =>
    obtain ⟨cs, hcs, rfl⟩ := Option.map_eq_some_iff.1 h
    rw [List.flatMap_cons, encodeChar_of_lt h0 h1, ih hcs]
    rfl
  | case6 a _ _ b rest ha n hn ih =>
    obtain ⟨cs, hcs, rfl⟩ := Option.map_eq_some_iff.1 h
    rw [List.flatMap_cons, encodeChar_of_ofTwo? ha hn, ih hcs]
    rfl
  | case11 a _ _ b _ c n hn _ hh d e f rest m hm hl ih =>
    obtain ⟨cs, hcs, rfl⟩ := Option.map_eq_some_iff.1 h
    rw [List.flatMap_cons, encodeChar_of_pair hn hm hh hl, ih hcs]
    rfl
  | case14 a _ _ b _ c rest n hn hl hh ih =>
    obtain ⟨cs, hcs, rfl⟩ := Option.map_eq_some_iff.1 h
    rw [List.flatMap_cons, encodeChar_of_ofThree? hn hl hh, ih hcs]
    rfl
  | _ => cases h

theorem encode_of_decode? {bytes : Bytes} {text : String} (h : decode? bytes = some text) :
    encode text = bytes := by
  obtain ⟨chars, hc, rfl⟩ := Option.map_eq_some_iff.1 h
  rw [encode, String.toList_ofList, flatMap_encodeChar_of_decodeChars? hc]

/-! ## Encoded texts are read -/

theorem toNat_ofNat_of_lt {n : Nat} (h : n < 256) : (UInt8.ofNat n).toNat = n :=
  UInt8.toNat_ofNat_of_lt' h

theorem continuation?_ofNat {n : Nat} (h : n < 64) :
    continuation? (.ofNat (0x80 + n)) = some n := by
  rw [continuation?, toNat_ofNat_of_lt (by omega), if_pos (by omega)]
  congr 1
  omega

theorem ofTwo?_ofNat {n : Nat} (h : n < 0x800) :
    ofTwo? (.ofNat (0xC0 + n / 64)) (.ofNat (0x80 + n % 64)) =
      if n ≠ 0 ∧ n < 0x80 then none else some n := by
  have hn : (0xC0 + n / 64) % 32 * 64 + n % 64 = n := by omega
  simp only [ofTwo?, continuation?_ofNat (Nat.mod_lt n (by decide : 64 > 0)),
    toNat_ofNat_of_lt (show 0xC0 + n / 64 < 256 by omega), Option.bind_eq_bind, Option.bind_some,
    hn]

theorem ofThree?_ofNat {n : Nat} (h : n < 0x10000) :
    ofThree? (.ofNat (0xE0 + n / 4096)) (.ofNat (0x80 + n / 64 % 64)) (.ofNat (0x80 + n % 64)) =
      if n < 0x800 then none else some n := by
  have hn : (0xE0 + n / 4096) % 16 * 4096 + n / 64 % 64 * 64 + n % 64 = n := by omega
  have h14 : ¬ (0xE0 + n / 4096) / 16 ≠ 14 := by omega
  simp only [ofThree?, continuation?_ofNat (Nat.mod_lt n (by decide : 64 > 0)),
    continuation?_ofNat (Nat.mod_lt (n / 64) (by decide : 64 > 0)),
    toNat_ofNat_of_lt (show 0xE0 + n / 4096 < 256 by omega), if_neg h14,
    Option.bind_eq_bind, Option.bind_some, hn]

theorem ofThree?_of_le {n : Nat} (h : n < 0x10000) (hle : 0x800 ≤ n) :
    ofThree? (.ofNat (0xE0 + n / 4096)) (.ofNat (0x80 + n / 64 % 64)) (.ofNat (0x80 + n % 64)) =
      some n := by
  rw [ofThree?_ofNat h, if_neg (by omega)]

variable (rest : Bytes)

theorem decodeChars?_one {n : Nat} (h0 : n ≠ 0) (h : n < 0x80) :
    decodeChars? (.ofNat n :: rest) = (decodeChars? rest).map (Char.ofNat n :: ·) := by
  rw [decodeChars?.eq_def]
  simp only [toNat_ofNat_of_lt (show n < 256 by omega), if_neg h0, if_pos h]

theorem decodeChars?_two {n : Nat} (h : n < 0x800) :
    decodeChars? (two n ++ rest) =
      if n ≠ 0 ∧ n < 0x80 then none else (decodeChars? rest).map (Char.ofNat n :: ·) := by
  rw [two, List.cons_append, List.cons_append, List.nil_append, decodeChars?.eq_def]
  simp only [toNat_ofNat_of_lt (show 0xC0 + n / 64 < 256 by omega), ofTwo?_ofNat h]
  rw [if_neg (by omega), if_neg (by omega), if_pos (by omega)]
  by_cases hoverlong : n ≠ 0 ∧ n < 0x80
  · simp only [if_pos hoverlong]
  · simp only [if_neg hoverlong]

theorem decodeChars?_three {n : Nat} (h : n < 0x10000) (hh : ¬ isHighSurrogate n = true) :
    decodeChars? (three n ++ rest) = if n < 0x800 ∨ isLowSurrogate n = true then none
      else (decodeChars? rest).map (Char.ofNat n :: ·) := by
  rw [three, List.cons_append, List.cons_append, List.cons_append, List.nil_append,
    decodeChars?.eq_def]
  simp only [toNat_ofNat_of_lt (show 0xE0 + n / 4096 < 256 by omega), ofThree?_ofNat h]
  rw [if_neg (by omega), if_neg (by omega), if_neg (by omega)]
  by_cases hoverlong : n < 0x800
  · simp only [if_pos hoverlong, if_pos (Or.inl hoverlong)]
  · by_cases hl : isLowSurrogate n = true
    · simp only [if_neg hoverlong, if_pos hl, if_pos (Or.inr hl)]
    · simp only [if_neg hoverlong, if_neg hl, if_neg hh, if_neg (not_or.2 ⟨hoverlong, hl⟩)]

theorem decodeChars?_pair {n m : Nat} (hh : isHighSurrogate n = true)
    (hl : isLowSurrogate m = true) :
    decodeChars? (three n ++ three m ++ rest) = (decodeChars? rest).map
      (Char.ofNat (0x10000 + (n - 0xD800) * 0x400 + (m - 0xDC00)) :: ·) := by
  have hn := isHighSurrogate_iff.1 hh
  have hm := isLowSurrogate_iff.1 hl
  have hnl : ¬ isLowSurrogate n = true := by
    rw [isLowSurrogate_iff]
    omega
  rw [three, three]
  simp only [List.cons_append, List.nil_append]
  rw [decodeChars?.eq_def]
  simp only [toNat_ofNat_of_lt (show 0xE0 + n / 4096 < 256 by omega),
    ofThree?_of_le (show n < 0x10000 by omega) (by omega),
    ofThree?_of_le (show m < 0x10000 by omega) (by omega), if_neg hnl, if_pos hh, if_pos hl]
  rw [if_neg (by omega), if_neg (by omega), if_neg (by omega)]

theorem decodeChars?_encodeChar (c : Char) :
    decodeChars? (encodeChar c ++ rest) = (decodeChars? rest).map (c :: ·) := by
  have hvalid : c.toNat < 0xD800 ∨ 0xDFFF < c.toNat ∧ c.toNat < 0x110000 := c.valid
  conv => rhs; rw [← Char.ofNat_toNat c]
  unfold encodeChar
  generalize c.toNat = n at hvalid
  simp only
  split
  · rename_i h0
    rw [decodeChars?_two rest (by omega), if_neg (by omega), h0]
  · rename_i h0
    split
    · rename_i h
      exact decodeChars?_one rest h0 h
    · split
      · rename_i h h'
        rw [decodeChars?_two rest h', if_neg (by omega)]
      · split
        · rename_i h
          have hh : ¬ isHighSurrogate n = true := by
            rw [isHighSurrogate_iff]
            omega
          rw [decodeChars?_three rest h hh, if_neg]
          rw [isLowSurrogate_iff]
          omega
        · -- the surrogates are the quotient and the remainder of what is left of the code
          have hn : 0x10000 + (0xD800 + (n - 0x10000) / 0x400 - 0xD800) * 0x400 +
              (0xDC00 + (n - 0x10000) % 0x400 - 0xDC00) = n := by omega
          rw [decodeChars?_pair rest (isHighSurrogate_iff.2 (by omega))
            (isLowSurrogate_iff.2 (by omega)), hn]

theorem decodeChars?_flatMap (chars : List Char) :
    decodeChars? (chars.flatMap encodeChar) = some chars := by
  induction chars with
  | nil => rfl
  | cons c chars ih => rw [List.flatMap_cons, decodeChars?_encodeChar, ih]; rfl

theorem decode?_encode (text : String) : decode? (encode text) = some text := by
  rw [decode?, encode, decodeChars?_flatMap, Option.map_some, String.ofList_toList]

theorem encode_inj {text text' : String} (h : encode text = encode text') : text = text' := by
  have e := decode?_encode text
  rw [h, decode?_encode] at e
  exact (Option.some.inj e).symm

end Repackage.ModifiedUtf8
