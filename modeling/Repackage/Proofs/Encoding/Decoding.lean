import Repackage.Proofs.Encoding.Recovery

/-!
# Class files are read back as they were written

The constants of a pool and their order decide their indices. Hence reading the constants in their
order gives the same table, and the attributes find the same names under their indices. Only the
memory of texts may be another one: which of two equal texts is remembered depends on how a pool was
built.
-/

namespace Repackage

open Reader

/-! ## Constants -/

namespace HandleKind

theorem ofTag?_tag (kind : HandleKind) : ofTag? kind.tag = some kind := by
  cases kind <;> rfl

theorem read_cons (kind : HandleKind) (rest : Bytes) :
    HandleKind.read (kind.tag :: rest) = .ok (kind, rest) := by
  refine bind_eq_ok.2 ⟨kind.tag, rest, rfl, ?_⟩
  rw [ofTag?_tag]
  rfl

end HandleKind

namespace Constant

theorem ofText_encode (text : String) : ofText (ModifiedUtf8.encode text) = .utf8 text := by
  rw [ofText, ModifiedUtf8.decode?_encode]

theorem readText_append {bytes taken : Bytes} (h : writeText taken = .ok bytes) (i : Index)
    (rest : Bytes) : readBody i 1 (bytes ++ rest) = .ok (ofText taken, rest) := by
  obtain ⟨n, hn, h⟩ := Writer.bind_eq_ok h
  cases h
  have htake := take_append rest (fun _ => .truncatedText) taken
  rw [← Writer.toNat_of_length16 hn] at htake
  rw [List.append_assoc]
  exact bind_eq_ok.2 ⟨n, taken ++ rest, u16_append _ _, bind_of_eq_ok htake⟩

theorem ofIndices_append (f : Index → Index → Constant) (i j : Index) (rest : Bytes) :
    (do return f (← index) (← index) : Reader Constant)
      (Bytes.ofWord16 i ++ Bytes.ofWord16 j ++ rest) = .ok (f i j, rest) := by
  rw [List.append_assoc, bind_of_eq_ok (index_append _ _), bind_of_eq_ok (index_append _ _),
    pure_apply]

theorem readBody_append {c : Constant} {bytes : Bytes} (hc : c.WellFormed)
    (h : c.writeBody = .ok bytes) (i : Index) (rest : Bytes) :
    readBody i c.tag (bytes ++ rest) = .ok (c, rest) := by
  cases c with
  | utf8 text =>
    have hread := readText_append h i rest
    rwa [ofText_encode] at hread
  | rawUtf8 raw =>
    have hread := readText_append h i rest
    rw [WellFormed] at hc
    rwa [ofText, hc] at hread
  | integer value =>
    cases h
    exact bind_of_eq_ok (u32_append rest value.toUInt32)
  | float bits =>
    cases h
    exact bind_of_eq_ok (u32_append rest bits)
  | long value =>
    cases h
    exact bind_of_eq_ok (u64_append rest value.toUInt64)
  | double bits =>
    cases h
    exact bind_of_eq_ok (u64_append rest bits)
  | classInfo name | string name | methodType name | module name | package name =>
    cases h
    exact bind_of_eq_ok (index_append rest name)
  | fieldRef owner nameAndType =>
    cases h
    exact ofIndices_append .fieldRef owner nameAndType rest
  | methodRef owner nameAndType isInterface =>
    cases h
    cases isInterface
    · exact ofIndices_append (.methodRef · · false) owner nameAndType rest
    · exact ofIndices_append (.methodRef · · true) owner nameAndType rest
  | nameAndType name descriptor =>
    cases h
    exact ofIndices_append .nameAndType name descriptor rest
  | methodHandle kind member =>
    cases h
    exact bind_eq_ok.2 ⟨kind, _, HandleKind.read_cons kind _, bind_of_eq_ok (index_append _ _)⟩
  | dynamic bootstrap nameAndType =>
    cases h
    exact ofIndices_append .dynamic bootstrap nameAndType rest
  | invokeDynamic bootstrap nameAndType =>
    cases h
    exact ofIndices_append .invokeDynamic bootstrap nameAndType rest

theorem read_append {c : Constant} {bytes : Bytes} (hc : c.WellFormed) (h : c.write = .ok bytes)
    (i : Index) (rest : Bytes) : Constant.read i (bytes ++ rest) = .ok (c, rest) := by
  obtain ⟨body, hbody, h⟩ := Writer.bind_eq_ok h
  cases h
  exact bind_eq_ok.2 ⟨c.tag, body ++ rest, rfl, readBody_append hc hbody i rest⟩

end Constant

/-! ## Pools -/

namespace Pool

theorem readEntries_append {cs : List Constant} (hcs : ∀ c ∈ cs, c.WellFormed) {bytes : Bytes}
    (h : Writer.items Constant.write cs = .ok bytes) (count : UInt16) {slots : Nat} {p : Pool}
    (hslots : (cs.foldl push p).count = p.count + slots) (rest : Bytes) :
    readEntries count slots p (bytes ++ rest) = .ok (cs.foldl push p, rest) := by
  induction cs generalizing bytes slots p with
  | nil =>
    cases h
    obtain rfl : slots = 0 := by
      rw [List.foldl_nil] at hslots
      omega
    rfl
  | cons c cs ih =>
    rw [Writer.items_cons] at h
    obtain ⟨a, ha, h⟩ := Writer.bind_eq_ok h
    obtain ⟨b, hb, h⟩ := Writer.bind_eq_ok h
    cases h
    rw [List.forall_mem_cons] at hcs
    rw [List.foldl_cons] at hslots ⊢
    have hgrows := count_le_foldl_push cs (p.push c)
    rw [count_push] at hgrows
    have hread := Constant.read_append hcs.1 ha p.nextIndex (b ++ rest)
    have hrest {left : Nat} (hleft : slots = c.width + left) :
        readEntries count left (p.push c) (b ++ rest) = .ok (cs.foldl push (p.push c), rest) :=
      ih hcs.2 hb (by rw [count_push]; omega)
    by_cases hwide : c.isWide = true
    · have hw : c.width = 2 := by rw [Constant.width, if_pos hwide]
      obtain ⟨left, rfl⟩ : ∃ left, slots = left + 1 + 1 := ⟨slots - 2, by omega⟩
      rw [List.append_assoc, readEntries, bind_of_eq_ok hread, if_pos hwide]
      exact hrest (by omega)
    · have hw : c.width = 1 := by rw [Constant.width, if_neg hwide]
      obtain ⟨left, rfl⟩ : ∃ left, slots = left + 1 := ⟨slots - 1, by omega⟩
      rw [List.append_assoc, readEntries, bind_of_eq_ok hread, if_neg hwide]
      exact hrest (by omega)

/-- A pool is read back with the same constants under the same indices. -/
theorem read_append {p : Pool} (hp : p.WellFormed) {bytes : Bytes} (h : p.write = .ok bytes) :
    ∃ q, (∀ rest, Pool.read (bytes ++ rest) = .ok (q, rest)) ∧ q.table = p.table := by
  obtain ⟨count, hcount, h⟩ := Writer.bind_eq_ok h
  obtain ⟨b, hb, h⟩ := Writer.bind_eq_ok h
  cases h
  refine ⟨ofList p.toList, fun rest => ?_, table_ofList_toList p⟩
  have htotal : (ofList p.toList).count = count.toNat := by
    rw [Writer.toNat_of_length16 hcount, Pool.count, table_ofList_toList, Pool.count]
  have hpos := count_le_foldl_push p.toList empty
  have hempty : empty.count = 1 := rfl
  rw [ofList] at htotal
  have h0 : count ≠ 0 := by
    rintro rfl
    have : (0 : UInt16).toNat = 0 := rfl
    omega
  rw [Pool.read, List.append_assoc, bind_of_eq_ok (u16_append _ _), if_neg h0]
  exact readEntries_append hp hb count (by omega) rest

end Pool

/-! ## Class files -/

/-- Attributes are read by the texts of the pool, not by its memory of them. -/
theorem Attribute.read_congr {p q : Pool} (h : q.table = p.table) (depth : Nat) :
    Attribute.read q depth = Attribute.read p depth := by
  have hutf8 : q.utf8 = p.utf8 := by
    funext i
    unfold Pool.utf8 Pool.get
    rw [h]
  induction depth with
  | zero => rfl
  | succ depth ih => rw [Attribute.read, Attribute.read, ih, hutf8]

theorem Member.recovers {p q : Pool} (h : q.table = p.table) {m : Member} (hm : m.WellFormed p)
    (depth : Nat) : Recovers depth (Member.read q depth) Member.write m := by
  intro bytes hw hlen rest
  obtain ⟨as, has, hw⟩ := Writer.bind_eq_ok hw
  cases hw
  simp only [List.length_append] at hlen
  have hattributes := Recovers.list16 (Attribute.recoversAll p m.attributes hm depth) has
    (by omega) rest
  simp only [List.append_assoc]
  rw [Member.read, Attribute.read_congr h, bind_of_eq_ok (u16_append _ _),
    bind_of_eq_ok (index_append _ _), bind_of_eq_ok (index_append _ _),
    bind_of_eq_ok hattributes, pure_apply]

theorem Version.read_append (v : Version) (rest : Bytes) :
    Version.read (v.bytes ++ rest) = .ok (v, rest) := by
  rw [Version.read, Version.bytes, List.append_assoc, bind_of_eq_ok (u16_append _ _),
    bind_of_eq_ok (u16_append _ _), pure_apply]

namespace ClassFile

theorem read_append {c : ClassFile} (hc : c.WellFormed) {bytes : Bytes}
    (h : c.toBytes = .ok bytes) {depth : Nat} (hlen : bytes.length ≤ depth) (rest : Bytes) :
    ∃ p : Pool, ClassFile.read depth (bytes ++ rest) = .ok ({ c with constants := p }, rest) ∧
      p.table = c.constants.table := by
  obtain ⟨constants, hconstants, h⟩ := Writer.bind_eq_ok h
  obtain ⟨interfaces, hinterfaces, h⟩ := Writer.bind_eq_ok h
  obtain ⟨fields, hfields, h⟩ := Writer.bind_eq_ok h
  obtain ⟨methods, hmethods, h⟩ := Writer.bind_eq_ok h
  obtain ⟨attributes, hattributes, h⟩ := Writer.bind_eq_ok h
  cases h
  simp only [List.length_append] at hlen
  obtain ⟨p, hpool, htable⟩ := Pool.read_append hc.constants hconstants
  have hi := Recovers.list16 (fun i _ => index_recovers i) hinterfaces (Nat.le_refl _)
    (fields ++ (methods ++ (attributes ++ rest)))
  have hf := Recovers.list16 (fun f hf => Member.recovers htable (hc.fields f hf) depth) hfields
    (by omega) (methods ++ (attributes ++ rest))
  have hm := Recovers.list16 (fun m hm => Member.recovers htable (hc.methods m hm) depth) hmethods
    (by omega) (attributes ++ rest)
  have ha := Recovers.list16 (Attribute.recoversAll c.constants c.attributes hc.attributes depth)
    hattributes (by omega) rest
  refine ⟨p, ?_, htable⟩
  simp only [List.append_assoc]
  rw [ClassFile.read, bind_of_eq_ok (u32_append _ _), if_neg (Decidable.not_not.2 rfl)]
  dsimp only
  rw [bind_of_eq_ok (Version.read_append _ _), bind_of_eq_ok (hpool _), bind_of_eq_ok (u16_append _ _),
    bind_of_eq_ok (index_append _ _), bind_of_eq_ok (optionalIndex_append _ hc.superClass),
    bind_of_eq_ok hi, bind_of_eq_ok hf, bind_of_eq_ok hm, Attribute.read_congr htable,
    bind_of_eq_ok ha, pure_apply]

/-- What is written for a well-formed class file is read as that class file; its pool has the same
constants under the same indices. -/
theorem parse_of_toBytes {c : ClassFile} (hc : c.WellFormed) {bytes : Bytes}
    (h : c.toBytes = .ok bytes) :
    ∃ p : Pool, ClassFile.parse bytes = .ok { c with constants := p } ∧
      p.table = c.constants.table := by
  obtain ⟨p, hread, htable⟩ := read_append hc h (Nat.le_refl _) []
  refine ⟨p, ?_, htable⟩
  rw [List.append_nil] at hread
  rw [ClassFile.parse, hread]
  rfl

theorem parse_of_toBytes_unusual :
    ∃ c : ClassFile, c.WellFormed ∧ c.toBytes = .ok unusual ∧
      ∃ p : Pool, ClassFile.parse unusual = .ok { c with constants := p } ∧
        p.table = c.constants.table := by
  have h : (ClassFile.parse unusual).toBool = true := by decide +kernel
  cases hc : ClassFile.parse unusual with
  | error e => rw [hc] at h; cases h
  | ok c =>
    have hbytes := toBytes_of_read (parse_eq_ok hc)
    have hgood := wellFormed_of_parse hc
    exact ⟨c, hgood, hbytes, hc ▸ parse_of_toBytes hgood hbytes⟩

end ClassFile

end Repackage
