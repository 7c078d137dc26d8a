import Repackage.ClassFile.Basic
import Repackage.Proofs.Encoding.Attributes
import Repackage.Proofs.Encoding.Constants

/-!
# Class files are written as they were read

The parts of a class file mirror their writers, hence so does the whole
(`ClassFile.read_mirrors`); and since a class file is read to its end, writing it gives every
byte back.
-/

namespace Repackage

open Reader

theorem Version.read_eq_ok {bytes rest : Bytes} {v : Version}
    (h : Version.read bytes = .ok (v, rest)) : bytes = v.bytes ++ rest := by
  obtain ⟨minor, left, hminor, h⟩ := bind_eq_ok.1 h
  obtain ⟨major, left', hmajor, h⟩ := bind_eq_ok.1 h
  obtain ⟨rfl, rfl⟩ := pure_eq_ok.1 h
  rw [u16_eq_ok hminor, u16_eq_ok hmajor, Version.bytes, List.append_assoc]

theorem Member.read_mirrors (p : Pool) (depth : Nat) :
    (Member.read p depth).Mirrors Member.write := by
  intro bytes m rest h
  obtain ⟨access, left₁, ha, h⟩ := bind_eq_ok.1 h
  obtain ⟨name, left₂, hn, h⟩ := bind_eq_ok.1 h
  obtain ⟨descriptor, left₃, hd, h⟩ := bind_eq_ok.1 h
  obtain ⟨attributes, left₄, has, h⟩ := bind_eq_ok.1 h
  obtain ⟨rfl, rfl⟩ := pure_eq_ok.1 h
  obtain ⟨taken, ht, rfl⟩ := (Attribute.read_mirrors p depth).list16 has
  refine ⟨Bytes.ofWord16 access ++ Bytes.ofWord16 name ++ Bytes.ofWord16 descriptor ++ taken, ?_,
    by rw [u16_eq_ok ha, u16_eq_ok hn, u16_eq_ok hd]; simp⟩
  rw [Member.write, ht]
  rfl

namespace ClassFile

theorem read_mirrors (depth : Nat) : (ClassFile.read depth).Mirrors ClassFile.toBytes := by
  intro bytes c rest h
  obtain ⟨start, left, hs, h⟩ := bind_eq_ok.1 h
  split at h
  · cases h
  · rename_i hmagic
    obtain ⟨version, left₁, hversion, h⟩ := bind_eq_ok.1 h
    obtain ⟨constants, left₂, hconstants, h⟩ := bind_eq_ok.1 h
    obtain ⟨access, left₃, haccess, h⟩ := bind_eq_ok.1 h
    obtain ⟨thisClass, left₄, hthis, h⟩ := bind_eq_ok.1 h
    obtain ⟨superClass, left₅, hsuper, h⟩ := bind_eq_ok.1 h
    obtain ⟨interfaces, left₆, hinterfaces, h⟩ := bind_eq_ok.1 h
    obtain ⟨fields, left₇, hfields, h⟩ := bind_eq_ok.1 h
    obtain ⟨methods, left₈, hmethods, h⟩ := bind_eq_ok.1 h
    obtain ⟨attributes, left₉, hattributes, h⟩ := bind_eq_ok.1 h
    obtain ⟨rfl, rfl⟩ := pure_eq_ok.1 h
    obtain ⟨a, ha, rfl⟩ := Pool.read_mirrors hconstants
    obtain ⟨b, hb, rfl⟩ := index_mirrors.list16 hinterfaces
    obtain ⟨f, hf, rfl⟩ := (Member.read_mirrors constants depth).list16 hfields
    obtain ⟨m, hm, rfl⟩ := (Member.read_mirrors constants depth).list16 hmethods
    obtain ⟨n, hn, rfl⟩ := (Attribute.read_mirrors constants depth).list16 hattributes
    have e : start = magic := Decidable.not_not.1 hmagic
    refine ⟨Bytes.ofWord32 magic ++ version.bytes ++ a ++ Bytes.ofWord16 access
      ++ Bytes.ofWord16 thisClass ++ Writer.optionalIndex superClass ++ b ++ f ++ m ++ n, ?_, ?_⟩
    · rw [ClassFile.toBytes]
      simp only [ha, hb, hf, hm, hn]
      rfl
    · rw [u32_eq_ok hs, Version.read_eq_ok hversion, u16_eq_ok haccess, u16_eq_ok hthis,
        optionalIndex_eq_ok hsuper, e]
      simp

/-- A class file that is read to the end is written as all that was read. -/
theorem toBytes_of_read {depth : Nat} {bytes : Bytes} {c : ClassFile}
    (h : ClassFile.read depth bytes = .ok (c, [])) : c.toBytes = .ok bytes := by
  obtain ⟨taken, hw, e⟩ := read_mirrors depth h
  rw [hw, e, List.append_nil]

theorem read_constants {depth : Nat} {bytes rest : Bytes} {c : ClassFile}
    (h : ClassFile.read depth bytes = .ok (c, rest)) :
    ∃ left left', Pool.read left = .ok (c.constants, left') := by
  obtain ⟨start, left, hs, h⟩ := bind_eq_ok.1 h
  split at h
  · cases h
  · obtain ⟨version, left₁, hversion, h⟩ := bind_eq_ok.1 h
    obtain ⟨constants, left₂, hconstants, h⟩ := bind_eq_ok.1 h
    obtain ⟨access, left₃, haccess, h⟩ := bind_eq_ok.1 h
    obtain ⟨thisClass, left₄, hthis, h⟩ := bind_eq_ok.1 h
    obtain ⟨superClass, left₅, hsuper, h⟩ := bind_eq_ok.1 h
    obtain ⟨interfaces, left₆, hinterfaces, h⟩ := bind_eq_ok.1 h
    obtain ⟨fields, left₇, hfields, h⟩ := bind_eq_ok.1 h
    obtain ⟨methods, left₈, hmethods, h⟩ := bind_eq_ok.1 h
    obtain ⟨attributes, left₉, hattributes, h⟩ := bind_eq_ok.1 h
    obtain ⟨rfl, rfl⟩ := pure_eq_ok.1 h
    exact ⟨left₁, left₂, hconstants⟩

/-- Reading a class file leaves nothing. -/
theorem parse_eq_ok {bytes : Bytes} {c : ClassFile} (h : ClassFile.parse bytes = .ok c) :
    ClassFile.read bytes.length bytes = .ok (c, []) := by
  unfold ClassFile.parse at h
  cases hr : ClassFile.read bytes.length bytes with
  | error e => rw [hr] at h; cases h
  | ok p =>
    obtain ⟨c', left⟩ := p
    rw [hr] at h
    change (if !left.isEmpty then _ else _) = _ at h
    split at h
    · cases h
    · rename_i hleft
      cases h
      have hnil : left = [] := by simpa using hleft
      rw [hnil]

/-- A class file that can be read is written back byte for byte. -/
theorem toBytes_of_parse {bytes : Bytes} {c : ClassFile} (h : ClassFile.parse bytes = .ok c) :
    c.toBytes = .ok bytes :=
  toBytes_of_read (parse_eq_ok h)

/-- A class with a text that is not modified UTF-8, an eight-byte number, a signalling NaN,
access flags without a name, a long form of a frame where the short one would do, and an
attribute of no known kind. -/
def unusual : Bytes :=
  [0xCA, 0xFE, 0xBA, 0xBE, 0, 0, 0, 55, 0, 12,
   1, 0, 1, 0x41,
   7, 0, 1,
   1, 0, 1, 0x6D,
   1, 0, 3, 0x28, 0x29, 0x56,
   1, 0, 4, 0x43, 0x6F, 0x64, 0x65,
   1, 0, 13, 0x53, 0x74, 0x61, 0x63, 0x6B, 0x4D, 0x61, 0x70, 0x54, 0x61, 0x62, 0x6C, 0x65,
   1, 0, 3, 0xED, 0xA0, 0x80,
   5, 0, 0, 0, 0, 0, 0, 0, 1,
   4, 0x7F, 0xA0, 0, 1,
   1, 0, 1, 0x58,
   0xFF, 0xFF, 0, 2, 0, 0, 0, 0, 0, 0,
   0, 1, 0x80, 1, 0, 3, 0, 4, 0, 1,
   0, 5, 0, 0, 0, 24, 0, 1, 0, 1, 0, 0, 0, 1, 0xB1, 0, 0, 0, 1,
   0, 6, 0, 0, 0, 5, 0, 1, 251, 0, 3,
   0, 1, 0, 11, 0, 0, 0, 2, 0xDE, 0xAD]

theorem toBytes_of_parse_unusual :
    ∃ c, ClassFile.parse unusual = .ok c ∧ c.toBytes = .ok unusual := by
  have h : (ClassFile.parse unusual).toBool = true := by decide +kernel
  cases hc : ClassFile.parse unusual with
  | error e => rw [hc] at h; cases h
  | ok c => exact ⟨c, rfl, toBytes_of_parse hc⟩

end ClassFile

end Repackage
