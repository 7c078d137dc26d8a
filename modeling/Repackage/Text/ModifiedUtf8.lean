import Repackage.Bytes

/-!
# Modified UTF-8

The text encoding of class files. It differs from UTF-8 in two ways: the null
character takes two bytes, and a supplementary character is written as its two
surrogates of three bytes each. `encode` gives the one encoding of a text; `decode?`
accepts that encoding only, so overlong forms, four-byte forms, raw null bytes and
unpaired surrogates are all refused.
-/

namespace Repackage.ModifiedUtf8

/-- The two-byte form, for codes below `0x800`. -/
def two (n : Nat) : Bytes := [.ofNat (0xC0 + n / 64), .ofNat (0x80 + n % 64)]

/-- The three-byte form, for codes below `0x10000`. -/
def three (n : Nat) : Bytes :=
  [.ofNat (0xE0 + n / 4096), .ofNat (0x80 + n / 64 % 64), .ofNat (0x80 + n % 64)]

def encodeChar (c : Char) : Bytes :=
  let n := c.toNat
  if n = 0 then two 0
  else if n < 0x80 then [.ofNat n]
  else if n < 0x800 then two n
  else if n < 0x10000 then three n
  else three (0xD800 + (n - 0x10000) / 0x400) ++ three (0xDC00 + (n - 0x10000) % 0x400)

def encode (text : String) : Bytes := text.toList.flatMap encodeChar

/-- The six bits of a continuation byte. -/
def continuation? (b : UInt8) : Option Nat :=
  if b.toNat / 64 = 2 then some (b.toNat % 64) else none

/-- The code of a two-byte form; the null character is its only code below `0x80`. -/
def ofTwo? (a b : UInt8) : Option Nat := do
  let low ← continuation? b
  let n := a.toNat % 32 * 64 + low
  if n ≠ 0 ∧ n < 0x80 then none else some n

/-- The code of a three-byte form, which is never below `0x800`. -/
def ofThree? (a b c : UInt8) : Option Nat := do
  if a.toNat / 16 ≠ 14 then none
  let middle ← continuation? b
  let low ← continuation? c
  let n := a.toNat % 16 * 4096 + middle * 64 + low
  if n < 0x800 then none else some n

def isHighSurrogate (n : Nat) : Bool := 0xD800 ≤ n && n ≤ 0xDBFF

def isLowSurrogate (n : Nat) : Bool := 0xDC00 ≤ n && n ≤ 0xDFFF

def decodeChars? : Bytes → Option (List Char)
  | [] => some []
  | a :: rest =>
    if a.toNat = 0 then none
    else if a.toNat < 0x80 then (decodeChars? rest).map (Char.ofNat a.toNat :: ·)
    else match rest with
    | [] => none
    | b :: rest =>
      if a.toNat / 32 = 6 then
        match ofTwo? a b with
        | none => none
        | some n => (decodeChars? rest).map (Char.ofNat n :: ·)
      else match rest with
      | [] => none
      | c :: rest =>
        match ofThree? a b c with
        | none => none
        | some n =>
          if isLowSurrogate n then none
          else if isHighSurrogate n then
            match rest with
            | d :: e :: f :: rest =>
              match ofThree? d e f with
              | none => none
              | some m =>
                if isLowSurrogate m then
                  (decodeChars? rest).map
                    (Char.ofNat (0x10000 + (n - 0xD800) * 0x400 + (m - 0xDC00)) :: ·)
                else none
            | _ => none
          else (decodeChars? rest).map (Char.ofNat n :: ·)

def decode? (bytes : Bytes) : Option String := (decodeChars? bytes).map String.ofList

end Repackage.ModifiedUtf8
