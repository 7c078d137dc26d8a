import Repackage.ClassFile.Pool
import Repackage.Proofs.Encoding.ModifiedUtf8
import Repackage.Proofs.Encoding.Pieces
import Repackage.Proofs.Pool.Layout

/-!
# Constant pools are written as they were read

A constant is its tag and what follows it, and the tag of a constant that was read is the
tag it was read under (`Constant.readBody_eq_ok`). A pool is read by pushing its constants
one after the other, so its constants are the ones read, in their order
(`Pool.toList_foldl_push`), and the indices that they take are as many as were announced.
-/

namespace Repackage

open Reader

/-! ## Constants -/

namespace HandleKind

theorem tag_of_ofTag? {tag : UInt8} {kind : HandleKind} (h : ofTag? tag = some kind) :
    kind.tag = tag := by
  unfold ofTag? at h
  split at h <;> cases h <;> rfl

theorem read_eq_ok {bytes rest : Bytes} {kind : HandleKind}
    (h : HandleKind.read bytes = .ok (kind, rest)) : bytes = kind.tag :: rest := by
  obtain ⟨tag, left, ht, h⟩ := bind_eq_ok.1 h
  rw [u8_eq_ok.1 ht]
  cases hk : ofTag? tag with
  | some kind' =>
    rw [hk] at h
    obtain ⟨rfl, rfl⟩ := pure_eq_ok.1 h
    rw [tag_of_ofTag? hk]
  | none =>
    rw [hk] at h
    cases h

end HandleKind

namespace Constant

variable {bytes rest : Bytes} {c : Constant}

theorem writeBody_ofText (taken : Bytes) : (ofText taken).writeBody = writeText taken := by
  unfold ofText
  split
  · rename_i text h
    rw [writeBody, ModifiedUtf8.encode_of_decode? h]
  · rfl

theorem tag_ofText (taken : Bytes) : (ofText taken).tag = 1 := by
  unfold ofText
  split <;> rfl

/-- A constant that is one index. -/
theorem ofIndex_eq_ok {f : Index → Constant}
    (h : (do return f (← index) : Reader Constant) bytes = .ok (c, rest)) :
    ∃ i, c = f i ∧ bytes = Bytes.ofWord16 i ++ rest := by
  obtain ⟨i, left, hi, h⟩ := bind_eq_ok.1 h
  obtain ⟨rfl, rfl⟩ := pure_eq_ok.1 h
  exact ⟨i, rfl, u16_eq_ok hi⟩

/-- A constant that is two indices. -/
theorem ofIndices_eq_ok {f : Index → Index → Constant}
    (h : (do return f (← index) (← index) : Reader Constant) bytes = .ok (c, rest)) :
    ∃ i j, c = f i j ∧ bytes = Bytes.ofWord16 i ++ Bytes.ofWord16 j ++ rest := by
  obtain ⟨i, left, hi, h⟩ := bind_eq_ok.1 h
  obtain ⟨j, left', hj, h⟩ := bind_eq_ok.1 h
  obtain ⟨rfl, rfl⟩ := pure_eq_ok.1 h
  exact ⟨i, j, rfl, by rw [u16_eq_ok hi, u16_eq_ok hj, List.append_assoc]⟩

theorem readText_eq_ok {i : Index} (h : readBody i 1 bytes = .ok (c, rest)) :
    ∃ taken, c = ofText taken ∧ ∃ written, writeText taken = .ok written ∧
      bytes = written ++ rest := by
  obtain ⟨n, left, hn, h⟩ := bind_eq_ok.1 h
  obtain ⟨taken, left', ht, h⟩ := bind_eq_ok.1 h
  obtain ⟨rfl, rfl⟩ := pure_eq_ok.1 h
  obtain ⟨rfl, hlen⟩ := take_eq_ok ht
  refine ⟨taken, rfl, Bytes.ofWord16 n ++ taken, ?_, by rw [u16_eq_ok hn, List.append_assoc]⟩
  rw [writeText, Writer.length16_of_toNat hlen]
  rfl

theorem readBody_eq_ok {i : Index} {tag : UInt8} (h : readBody i tag bytes = .ok (c, rest)) :
    c.tag = tag ∧ ∃ taken, c.writeBody = .ok taken ∧ bytes = taken ++ rest := by
  unfold readBody at h
  split at h
  · obtain ⟨taken, rfl, written, hw, rfl⟩ := readText_eq_ok (i := i) h
    exact ⟨tag_ofText taken, written, by rw [writeBody_ofText, hw], rfl⟩
  · obtain ⟨n, left, hn, h⟩ := bind_eq_ok.1 h
    obtain ⟨rfl, rfl⟩ := pure_eq_ok.1 h
    exact ⟨rfl, _, by rw [writeBody, UInt32.toUInt32_toInt32], u32_eq_ok hn⟩
  · obtain ⟨n, left, hn, h⟩ := bind_eq_ok.1 h
    obtain ⟨rfl, rfl⟩ := pure_eq_ok.1 h
    exact ⟨rfl, _, rfl, u32_eq_ok hn⟩
  · obtain ⟨n, left, hn, h⟩ := bind_eq_ok.1 h
    obtain ⟨rfl, rfl⟩ := pure_eq_ok.1 h
    exact ⟨rfl, _, by rw [writeBody, UInt64.toUInt64_toInt64], u64_eq_ok hn⟩
  · obtain ⟨n, left, hn, h⟩ := bind_eq_ok.1 h
    obtain ⟨rfl, rfl⟩ := pure_eq_ok.1 h
    exact ⟨rfl, _, rfl, u64_eq_ok hn⟩
  · obtain ⟨i, rfl, rfl⟩ := ofIndex_eq_ok h
    exact ⟨rfl, _, rfl, rfl⟩
  · obtain ⟨i, rfl, rfl⟩ := ofIndex_eq_ok h
    exact ⟨rfl, _, rfl, rfl⟩
  · obtain ⟨i, j, rfl, rfl⟩ := ofIndices_eq_ok h
    exact ⟨rfl, _, rfl, rfl⟩
  · obtain ⟨i, j, rfl, rfl⟩ := ofIndices_eq_ok (f := fun i j => .methodRef i j false) h
    exact ⟨rfl, _, rfl, rfl⟩
  · obtain ⟨i, j, rfl, rfl⟩ := ofIndices_eq_ok (f := fun i j => .methodRef i j true) h
    exact ⟨rfl, _, rfl, rfl⟩
  · obtain ⟨i, j, rfl, rfl⟩ := ofIndices_eq_ok h
    exact ⟨rfl, _, rfl, rfl⟩
  · obtain ⟨kind, left, hk, h⟩ := bind_eq_ok.1 h
    obtain ⟨i, rfl, rfl⟩ := ofIndex_eq_ok h
    exact ⟨rfl, _, rfl, HandleKind.read_eq_ok hk⟩
  · obtain ⟨i, rfl, rfl⟩ := ofIndex_eq_ok h
    exact ⟨rfl, _, rfl, rfl⟩
  · obtain ⟨i, j, rfl, rfl⟩ := ofIndices_eq_ok h
    exact ⟨rfl, _, rfl, rfl⟩
  · obtain ⟨i, j, rfl, rfl⟩ := ofIndices_eq_ok h
    exact ⟨rfl, _, rfl, rfl⟩
  · obtain ⟨i, rfl, rfl⟩ := ofIndex_eq_ok h
    exact ⟨rfl, _, rfl, rfl⟩
  · obtain ⟨i, rfl, rfl⟩ := ofIndex_eq_ok h
    exact ⟨rfl, _, rfl, rfl⟩
  · cases h

theorem read_mirrors (i : Index) : (Constant.read i).Mirrors Constant.write := by
  intro bytes c rest h
  obtain ⟨tag, left, ht, h⟩ := bind_eq_ok.1 h
  obtain ⟨rfl, taken, hw, rfl⟩ := readBody_eq_ok h
  refine ⟨c.tag :: taken, ?_, u8_eq_ok.1 ht⟩
  rw [Constant.write, hw]
  rfl

end Constant

/-! ## Pools -/

namespace Pool

/-- Reading takes `p` to `p'`: the constants pushed take `slots` indices, and the bytes taken
for them are those written for them. -/
def Grows (p p' : Pool) (slots : Nat) (bytes rest : Bytes) : Prop :=
  p'.count = p.count + slots ∧ ∃ cs taken, p' = cs.foldl push p ∧
    Writer.items Constant.write cs = .ok taken ∧ bytes = taken ++ rest

theorem Grows.cons {p p' : Pool} {c : Constant} {slots n : Nat} {a left rest : Bytes}
    (ha : c.write = .ok a) (h : Grows (p.push c) p' slots left rest) (hn : n = c.width + slots) :
    Grows p p' n (a ++ left) rest := by
  obtain ⟨hcount, cs, b, rfl, hb, rfl⟩ := h
  rw [count_push] at hcount
  exact ⟨by omega, c :: cs, a ++ b, rfl, Writer.items_cons_ok ha hb, by rw [List.append_assoc]⟩

theorem readEntries_eq_ok {count : UInt16} {slots : Nat} {p p' : Pool} {bytes rest : Bytes}
    (h : readEntries count slots p bytes = .ok (p', rest)) : Grows p p' slots bytes rest := by
  fun_induction readEntries count slots p generalizing bytes with
  | case1 p =>
    obtain ⟨rfl, rfl⟩ := pure_eq_ok.1 h
    exact ⟨rfl, [], [], rfl, rfl, rfl⟩
  | case2 slots p ihWide ih =>
    obtain ⟨c, left, hc, hk⟩ := bind_eq_ok.1 h
    obtain ⟨a, ha, rfl⟩ := Constant.read_mirrors _ hc
    by_cases hwide : c.isWide = true
    · have hw : c.width = 2 := by rw [Constant.width, if_pos hwide]
      rw [if_pos hwide] at hk
      -- a wide constant takes the index after it too, which must be there
      cases slots with
      | zero => cases hk
      | succ slots => exact (ihWide c hk).cons ha (by omega)
    · have hw : c.width = 1 := by rw [Constant.width, if_neg hwide]
      rw [if_neg hwide] at hk
      exact (ih c hk).cons ha (by omega)

theorem read_eq_ok {bytes rest : Bytes} {p : Pool} (h : Pool.read bytes = .ok (p, rest)) :
    ∃ (count : UInt16) (cs : List Constant) (taken : Bytes), p = ofList cs ∧
      p.count = count.toNat ∧ Writer.items Constant.write cs = .ok taken ∧
      bytes = Bytes.ofWord16 count ++ taken ++ rest := by
  obtain ⟨count, left, hc, h⟩ := bind_eq_ok.1 h
  split at h
  · cases h
  · rename_i h0
    obtain ⟨hcount, cs, taken, rfl, hw, rfl⟩ := readEntries_eq_ok h
    have hpos : count.toNat ≠ 0 := fun e => h0 (UInt16.toNat_inj.1 e)
    have hempty : empty.count = 1 := rfl
    refine ⟨count, cs, taken, rfl, by omega, hw, ?_⟩
    rw [u16_eq_ok hc, List.append_assoc]

theorem read_mirrors : Pool.read.Mirrors Pool.write := by
  intro bytes p rest h
  obtain ⟨count, cs, taken, rfl, hsize, hw, e⟩ := read_eq_ok h
  refine ⟨Bytes.ofWord16 count ++ taken, ?_, e⟩
  rw [Pool.write, Writer.length16_of_toNat hsize, ofList, toList_foldl_push,
    show empty.toList = [] from rfl, List.nil_append, hw]
  rfl

/-- The pools that are read are small enough for their indices. -/
theorem built_of_read {bytes rest : Bytes} {p : Pool} (h : Pool.read bytes = .ok (p, rest)) :
    p.Built ∧ p.count < 0x10000 := by
  obtain ⟨count, cs, taken, rfl, hsize, -, -⟩ := read_eq_ok h
  exact ⟨built_ofList cs, hsize ▸ count.toNat_lt⟩

end Pool

end Repackage
