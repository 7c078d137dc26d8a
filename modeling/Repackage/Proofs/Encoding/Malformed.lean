import Repackage.Proofs.Encoding.ModifiedUtf8

/-!
# Bytes that are no text

Where a byte is no continuation, one of the forms starts. So if bytes are a text then they are one
from there on, unless the second of two surrogates starts there (`decodeChars?_resume`). A form that
cannot stand at the start thus cannot stand anywhere: null bytes, overlong forms, bytes of forms
longer than three and surrogates without their other half (`Malformed`) are refused wherever they
are.
-/

namespace Repackage.ModifiedUtf8

variable {a : UInt8} {n m : Nat} {before after form : Bytes}

/-! ## Where forms start -/

/-- The byte goes on with a form that started before it. -/
def Continues (b : UInt8) : Prop := b.toNat / 64 = 2

instance : DecidablePred Continues := fun _ => inferInstanceAs (Decidable (_ = _))

theorem continues_ofNat (n : Nat) : Continues (.ofNat (0x80 + n % 64)) := by
  have hlt : n % 64 < 64 := Nat.mod_lt n (by decide)
  rw [Continues, toNat_ofNat_of_lt (by omega)]
  omega

theorem continues_of_mem_tail_two {b : UInt8} (h : b ∈ (two n).tail) : Continues b := by
  cases List.mem_singleton.1 h
  exact continues_ofNat n

theorem continues_of_mem_tail_three {b : UInt8} (h : b ∈ (three n).tail) : Continues b := by
  rcases List.mem_cons.1 h with rfl | h
  · exact continues_ofNat (n / 64)
  · cases List.mem_singleton.1 h
    exact continues_ofNat n

/-- The forms of a character: one that starts with its first byte, or two surrogates. -/
theorem encodeChar_cases (c : Char) : (∀ b ∈ (encodeChar c).tail, Continues b) ∨
    ∃ n m, isHighSurrogate n = true ∧ isLowSurrogate m = true ∧
      encodeChar c = three n ++ three m := by
  have hvalid : c.toNat < 0xD800 ∨ 0xDFFF < c.toNat ∧ c.toNat < 0x110000 := c.valid
  unfold encodeChar
  generalize c.toNat = n at hvalid
  simp only
  split
  · exact .inl fun _ => continues_of_mem_tail_two
  split
  · exact .inl fun _ hb => absurd hb List.not_mem_nil
  split
  · exact .inl fun _ => continues_of_mem_tail_two
  split
  · exact .inl fun _ => continues_of_mem_tail_three
  · exact .inr ⟨_, _, isHighSurrogate_iff.2 (by omega), isLowSurrogate_iff.2 (by omega), rfl⟩

theorem eq_nil_of_not_continues (htail : ∀ b ∈ form.tail, Continues b)
    (h : form = before ++ a :: after) (ha : ¬ Continues a) : before = [] := by
  cases before with
  | nil => rfl
  | cons b before =>
    refine absurd (htail a ?_) ha
    rw [h, List.cons_append, List.tail_cons]
    exact List.mem_append_right _ List.mem_cons_self

/-- A byte of a character that is no continuation is its first or starts its second surrogate. -/
theorem lead_of_encodeChar {c : Char} (h : encodeChar c = before ++ a :: after)
    (ha : ¬ Continues a) : before = [] ∨
      ∃ n m, isHighSurrogate n = true ∧ isLowSurrogate m = true ∧ before = three n ∧
        a :: after = three m := by
  rcases encodeChar_cases c with htail | ⟨n, m, hn, hm, hpair⟩
  · exact .inl (eq_nil_of_not_continues htail h ha)
  · rw [h] at hpair
    rcases List.append_eq_append_iff.1 hpair with ⟨rest, hhigh, hlow⟩ | ⟨rest, rfl, hlow⟩
    · cases rest with
      | nil =>
        rw [List.append_nil] at hhigh
        exact .inr ⟨n, m, hn, hm, hhigh.symm, hlow⟩
      | cons b rest =>
        cases (List.cons.inj hlow).1
        exact .inl (eq_nil_of_not_continues (fun _ => continues_of_mem_tail_three) hhigh ha)
    · have hrest :=
        eq_nil_of_not_continues (fun _ => continues_of_mem_tail_three) hlow ha
      subst hrest
      exact .inr ⟨n, m, hn, hm, List.append_nil _, hlow.symm⟩

/-- From a byte that is no continuation on there is a text, if not the second of two surrogates. -/
theorem decodeChars?_resume {chars : List Char}
    (h : decodeChars? (before ++ a :: after) = some chars) (ha : ¬ Continues a) :
    (∃ chars', decodeChars? (a :: after) = some chars') ∨
      ∃ n m start rest, isHighSurrogate n = true ∧ isLowSurrogate m = true ∧
        before = start ++ three n ∧ a :: after = three m ++ rest := by
  have hencode := flatMap_encodeChar_of_decodeChars? h
  clear h
  induction chars generalizing before with
  | nil => cases (List.append_eq_nil_iff.1 hencode.symm).2
  | cons c chars ih =>
    rw [List.flatMap_cons] at hencode
    rcases List.append_eq_append_iff.1 hencode with ⟨rest, rfl, hrest⟩ | ⟨rest, hc, hrest⟩
    · rcases ih hrest with hresume | ⟨n, m, start, rest', hn, hm, rfl, hlow⟩
      · exact .inl hresume
      · exact .inr ⟨n, m, encodeChar c ++ start, rest', hn, hm, by rw [List.append_assoc], hlow⟩
    · cases rest with
      | nil =>
        rw [List.nil_append] at hrest
        exact .inl ⟨chars, by rw [hrest, decodeChars?_flatMap]⟩
      | cons b rest =>
        cases (List.cons.inj hrest).1
        rcases lead_of_encodeChar hc ha with rfl | ⟨n, m, hn, hm, rfl, hlow⟩
        · refine .inl ⟨c :: chars, ?_⟩
          rw [List.nil_append] at hc
          rw [hrest, ← hc, ← List.flatMap_cons, decodeChars?_flatMap]
        · exact .inr ⟨n, m, [], chars.flatMap encodeChar, hn, hm, rfl, by rw [hrest, hlow]⟩

/-! ## What is refused -/

/-- A form that is in no text, between what stands before and after it. -/
inductive Malformed (before after : Bytes) : Bytes → Prop where
  | null : Malformed before after [0]
  | overlongTwo {n : Nat} : 0 < n → n < 0x80 → Malformed before after (two n)
  | overlongThree {n : Nat} : n < 0x800 → Malformed before after (three n)
  /-- The first byte of a form of four bytes or more. -/
  | long {a : UInt8} : 0xF0 ≤ a.toNat → Malformed before after [a]
  | loneHigh {n : Nat} : isHighSurrogate n = true →
      (∀ m, isLowSurrogate m = true → ¬ three m <+: after) → Malformed before after (three n)
  | loneLow {n : Nat} : isLowSurrogate n = true →
      (∀ m, isHighSurrogate m = true → ¬ three m <:+ before) → Malformed before after (three n)

theorem decodeChars?_null (after : Bytes) : decodeChars? (0 :: after) = none := by
  rw [decodeChars?.eq_def]
  exact if_pos rfl

theorem decodeChars?_long (h : 0xF0 ≤ a.toNat) (after : Bytes) :
    decodeChars? (a :: after) = none := by
  have hthree (b c : UInt8) : ofThree? a b c = none := if_pos (by omega)
  rw [decodeChars?.eq_def]
  simp only
  rw [if_neg (by omega), if_neg (by omega)]
  split
  · rfl
  · rw [if_neg (by omega)]
    split
    · rfl
    · rw [hthree]

theorem decodeChars?_overlongTwo (h0 : 0 < n) (h : n < 0x80) (after : Bytes) :
    decodeChars? (two n ++ after) = none := by
  rw [decodeChars?_two after (by omega), if_pos ⟨by omega, h⟩]

/-- A form of three bytes is not read if it is overlong or a low surrogate. -/
theorem decodeChars?_three_eq_none (h : n < 0x800 ∨ isLowSurrogate n = true) (after : Bytes) :
    decodeChars? (three n ++ after) = none := by
  have hrange : n < 0x800 ∨ 0xDC00 ≤ n ∧ n ≤ 0xDFFF := h.imp_right isLowSurrogate_iff.1
  have hhigh : ¬ isHighSurrogate n = true := by
    rw [isHighSurrogate_iff]
    omega
  rw [decodeChars?_three after (by omega) hhigh, if_pos h]

/-- A high surrogate is read only with a low one after it. -/
theorem decodeChars?_high (hn : isHighSurrogate n = true)
    (h : ∀ m, isLowSurrogate m = true → ¬ three m <+: after) :
    decodeChars? (three n ++ after) = none := by
  have hrange := isHighSurrogate_iff.1 hn
  have hlow : ¬ isLowSurrogate n = true := by
    rw [isLowSurrogate_iff]
    omega
  rw [three, List.cons_append, List.cons_append, List.cons_append, List.nil_append,
    decodeChars?.eq_def]
  simp only [toNat_ofNat_of_lt (show 0xE0 + n / 4096 < 256 by omega),
    ofThree?_of_le (show n < 0x10000 by omega) (by omega), if_neg hlow, if_pos hn]
  rw [if_neg (by omega), if_neg (by omega), if_neg (by omega)]
  split
  · rename_i d e f rest
    split
    · rfl
    · rename_i m hm
      refine if_neg fun hlow' => h m hlow' ?_
      rw [(three_of_ofThree? hm).1]
      exact ⟨rest, rfl⟩
  · rfl

theorem not_continues_of_le (h : 0xC0 ≤ a.toNat) : ¬ Continues a := by
  rw [Continues]
  have := a.toNat_lt
  omega

theorem toNat_head_three (hn : n < 0x10000) :
    (UInt8.ofNat (0xE0 + n / 4096)).toNat = 0xE0 + n / 4096 :=
  toNat_ofNat_of_lt (by omega)

/-- Forms of three bytes are those of different codes. -/
theorem three_inj {rest : Bytes} (hn : n < 0x10000) (hm : m < 0x10000)
    (h : three n ++ after = three m ++ rest) : n = m := by
  have hofNat {x y : Nat} (hx : x < 256) (hy : y < 256) (e : UInt8.ofNat x = UInt8.ofNat y) :
      x = y := by
    rw [← toNat_ofNat_of_lt hx, e, toNat_ofNat_of_lt hy]
  obtain ⟨hfirst, h⟩ := List.cons.inj h
  obtain ⟨hsecond, h⟩ := List.cons.inj h
  obtain ⟨hthird, -⟩ := List.cons.inj h
  have := hofNat (by omega) (by omega) hfirst
  have := hofNat (by omega) (by omega) hsecond
  have := hofNat (by omega) (by omega) hthird
  omega

/-- What cannot be read at the start cannot be read after anything, if it is not the second of two
surrogates. -/
theorem decodeChars?_eq_none (hnone : decodeChars? (a :: after) = none) (ha : ¬ Continues a)
    (hpair : ∀ n m start rest, isHighSurrogate n = true → isLowSurrogate m = true →
      before = start ++ three n → a :: after ≠ three m ++ rest) :
    decodeChars? (before ++ a :: after) = none := by
  cases h : decodeChars? (before ++ a :: after) with
  | none => rfl
  | some chars =>
    rcases decodeChars?_resume h ha with
      ⟨chars', hsome⟩ | ⟨n, m, start, rest, hn, hm, hstart, hrest⟩
    · cases hnone.symm.trans hsome
    · exact absurd hrest (hpair n m start rest hn hm hstart)

theorem decodeChars?_eq_none_of_ne (hnone : decodeChars? (a :: after) = none) (ha : ¬ Continues a)
    (hne : a.toNat / 16 ≠ 14) : decodeChars? (before ++ a :: after) = none := by
  refine decodeChars?_eq_none hnone ha fun n m start rest _ hm _ e => hne ?_
  have hrange := isLowSurrogate_iff.1 hm
  rw [(List.cons.inj e).1, toNat_head_three (by omega)]
  omega

theorem decodeChars?_three_eq_none_of_ne (hn : n < 0x10000)
    (hnone : decodeChars? (three n ++ after) = none) (hlow : ¬ isLowSurrogate n = true) :
    decodeChars? (before ++ (three n ++ after)) = none := by
  refine decodeChars?_eq_none hnone (not_continues_of_le ?_) fun _ m _ rest _ hm _ e => hlow ?_
  · rw [toNat_head_three hn]
    omega
  · have hrange := isLowSurrogate_iff.1 hm
    rwa [three_inj hn (by omega) e]

theorem decodeChars?_malformed (h : Malformed before after form) :
    decodeChars? (before ++ (form ++ after)) = none := by
  cases h with
  | null => exact decodeChars?_eq_none_of_ne (decodeChars?_null after) (by decide) (by decide)
  | long ha =>
    exact decodeChars?_eq_none_of_ne (decodeChars?_long ha after) (not_continues_of_le (by omega))
      (by omega)
  | @overlongTwo n h0 h =>
    have hhead : (UInt8.ofNat (0xC0 + n / 64)).toNat = 0xC0 + n / 64 := toNat_ofNat_of_lt (by omega)
    exact decodeChars?_eq_none_of_ne (decodeChars?_overlongTwo h0 h after)
      (not_continues_of_le (by omega)) (by omega)
  | overlongThree h =>
    refine decodeChars?_three_eq_none_of_ne (by omega)
      (decodeChars?_three_eq_none (.inl h) after) ?_
    rw [isLowSurrogate_iff]
    omega
  | loneHigh hn hafter =>
    have hrange := isHighSurrogate_iff.1 hn
    refine decodeChars?_three_eq_none_of_ne (by omega) (decodeChars?_high hn hafter) ?_
    rw [isLowSurrogate_iff]
    omega
  | @loneLow n hn hbefore =>
    have hrange := isLowSurrogate_iff.1 hn
    refine decodeChars?_eq_none (decodeChars?_three_eq_none (.inr hn) after)
      (not_continues_of_le ?_) fun m _ start _ hm _ hstart _ => hbefore m hm ⟨start, hstart.symm⟩
    rw [toNat_head_three (by omega)]
    omega

/-- A text is read from its bytes and from no others. In particular a form that is in no text is
refused wherever it stands. -/
theorem accepts_encodings_only :
    (∀ text, decode? (encode text) = some text) ∧
      (∀ bytes text, decode? bytes = some text → encode text = bytes) ∧
      (∀ bytes, (decode? bytes).isSome = true ↔ ∃ text, encode text = bytes) ∧
      ∀ before form after, Malformed before after form →
        decode? (before ++ (form ++ after)) = none := by
  refine ⟨decode?_encode, fun bytes text => encode_of_decode?, fun bytes => ⟨fun h => ?_, ?_⟩,
    fun before form after h => ?_⟩
  · obtain ⟨text, htext⟩ := Option.isSome_iff_exists.1 h
    exact ⟨text, encode_of_decode? htext⟩
  · rintro ⟨text, rfl⟩
    rw [decode?_encode]
    rfl
  · rw [decode?, decodeChars?_malformed h, Option.map_none]

/-- A high surrogate before a character that has both of its own. -/
theorem malformed_beforePair : Malformed (encode "x") (encode "😀") (three 0xD83D) := by
  refine .loneHigh rfl fun m hm h => ?_
  obtain ⟨rest, hrest⟩ := h
  have hpair : encode "😀" = three 0xD83D ++ three 0xDE00 := by decide +kernel
  have hrange := isLowSurrogate_iff.1 hm
  have := three_inj (by omega) (by decide) (hrest.trans hpair)
  omega

theorem accepts_encodings_only_beforePair :
    decode? (encode "a\x00é€😀") = some "a\x00é€😀" ∧
      Malformed (encode "x") (encode "😀") (three 0xD83D) ∧
      decode? (encode "x" ++ (three 0xD83D ++ encode "😀")) = none :=
  ⟨accepts_encodings_only.1 _, malformed_beforePair,
    accepts_encodings_only.2.2.2 _ _ _ malformed_beforePair⟩

end Repackage.ModifiedUtf8
