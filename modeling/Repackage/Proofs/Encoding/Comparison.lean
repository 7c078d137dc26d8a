import Mathlib.Algebra.BigOperators.Ring.Finset
import Repackage.Proofs.Encoding.Skeleton

/-!
# Class files with one skeleton

Two class files with one skeleton differ in length by the lengths of their texts, and if their
bytes are the same, so are their constants and all their parts
(`ClassFile.toBytes_of_skeleton`). A text is written after its length, hence its end is known
from its bytes, and that of a pool in turn.
-/

namespace Repackage

open Writer (Alike)

/-! ## Constants -/

namespace Writer

variable {α : Type} {w : α → Written} {size : α → Nat} {x y : α}

/-- The bytes of two values differ in length as their sizes do, and tell the values apart whatever
comes after them. -/
def Sized (w : α → Written) (size : α → Nat) (x y : α) : Prop :=
  ∀ ⦃a b⦄, w x = .ok a → w y = .ok b →
    a.length + size y = b.length + size x ∧ ∀ r r', a ++ r = b ++ r' → x = y ∧ r = r'

def total (size : α → Nat) (xs : List α) : Nat := (xs.map size).sum

theorem Alike.sized (h : Alike w x y) (hsize : size x = size y) : Sized w size x y := by
  intro a b ha hb
  obtain ⟨hlen, heq⟩ := h ha hb
  refine ⟨by rw [hlen, hsize], fun r r' e => ?_⟩
  obtain ⟨e₁, e₂⟩ := List.append_inj e hlen
  exact ⟨heq e₁, e₂⟩

theorem Sized.items {β : Type} {k : α → β} {xs ys : List α}
    (h : ∀ x ∈ xs, ∀ y, k x = k y → Sized w size x y) (hk : xs.map k = ys.map k) :
    Sized (Writer.items w) (total size) xs ys := by
  induction xs generalizing ys with
  | nil =>
    cases ys with
    | nil => exact (Alike.refl _ _).sized rfl
    | cons y ys => cases hk
  | cons x xs ih =>
    cases ys with
    | nil => cases hk
    | cons y ys =>
      obtain ⟨hx, hxs⟩ := List.cons.inj hk
      intro a b ha hb
      obtain ⟨a₁, ha₁, ha⟩ := bind_eq_ok ((items_cons x xs).symm.trans ha)
      obtain ⟨a₂, ha₂, ha⟩ := bind_eq_ok ha
      obtain ⟨b₁, hb₁, hb⟩ := bind_eq_ok ((items_cons y ys).symm.trans hb)
      obtain ⟨b₂, hb₂, hb⟩ := bind_eq_ok hb
      cases ha
      cases hb
      obtain ⟨hlen₁, heq₁⟩ := h x List.mem_cons_self y hx ha₁ hb₁
      obtain ⟨hlen₂, heq₂⟩ := ih (fun x hx => h x (List.mem_cons_of_mem _ hx)) hxs ha₂ hb₂
      refine ⟨?_, fun r r' e => ?_⟩
      · simp only [List.length_append, total, List.map_cons, List.sum_cons] at hlen₂ ⊢
        omega
      · rw [List.append_assoc, List.append_assoc] at e
        obtain ⟨rfl, e⟩ := heq₁ _ _ e
        obtain ⟨rfl, e⟩ := heq₂ _ _ e
        exact ⟨rfl, e⟩

end Writer

namespace Constant

/-- The bytes that the text of a constant takes. -/
def textSize : Constant → Nat
  | .utf8 text => (ModifiedUtf8.encode text).length
  | _ => 0

theorem write_eq_ok {c : Constant} {a : Bytes} (h : c.write = .ok a) :
    ∃ b, c.writeBody = .ok b ∧ a = c.tag :: b := by
  obtain ⟨b, hb, h⟩ := Writer.bind_eq_ok h
  cases h
  exact ⟨b, hb, rfl⟩

theorem writeText_eq_ok {text a : Bytes} (h : writeText text = .ok a) :
    ∃ n : UInt16, n.toNat = text.length ∧ a = Bytes.ofWord16 n ++ text := by
  obtain ⟨n, hn, h⟩ := Writer.bind_eq_ok h
  cases h
  unfold Writer.length16 at hn
  split at hn
  · rename_i hlt
    cases hn
    exact ⟨_, UInt16.toNat_ofNat_of_lt' hlt, rfl⟩
  · cases hn

/-- The length that stands before a text tells where it ends. -/
theorem sized_utf8 (text text' : String) :
    Writer.Sized Constant.write textSize (.utf8 text) (.utf8 text') := by
  intro a b ha hb
  obtain ⟨a, hbody, rfl⟩ := write_eq_ok ha
  obtain ⟨b, hbody', rfl⟩ := write_eq_ok hb
  obtain ⟨m, hm, rfl⟩ := writeText_eq_ok hbody
  obtain ⟨n, hn, rfl⟩ := writeText_eq_ok hbody'
  refine ⟨by simp [textSize, Bytes.ofWord16]; omega, fun r r' e => ?_⟩
  simp only [List.cons_append, List.append_assoc] at e
  obtain ⟨hmn, hrest⟩ := List.append_inj (List.cons.inj e).2 rfl
  cases Bytes.ofWord16_inj hmn
  obtain ⟨htext, hrest⟩ := List.append_inj hrest (hm.symm.trans hn)
  exact ⟨congrArg _ (ModifiedUtf8.encode_inj htext), hrest⟩

/-- A constant that is an index, after bytes that do not depend on it. -/
theorem alike_index {f : Index → Constant} {p : Bytes}
    (hw : ∀ i, (f i).write = .ok (p ++ Bytes.ofWord16 i)) (i j : Index) :
    Alike Constant.write (f i) (f j) :=
  .ofIndex (q := []) (by rw [hw, List.append_nil]) (by rw [hw, List.append_nil]) (congrArg f)

theorem sized {c d : Constant} (h : c.skeleton = d.skeleton) :
    Writer.Sized Constant.write textSize c d := by
  cases c with
  | utf8 text =>
    cases d <;> cases h
    exact sized_utf8 text _
  | classInfo i =>
    cases d <;> cases h
    exact (alike_index (p := [7]) (fun _ => rfl) i _).sized rfl
  | string i =>
    cases d <;> cases h
    exact (alike_index (p := [8]) (fun _ => rfl) i _).sized rfl
  | methodType i =>
    cases d <;> cases h
    exact (alike_index (p := [16]) (fun _ => rfl) i _).sized rfl
  | nameAndType name i =>
    cases d <;> cases h
    exact (alike_index (p := 12 :: Bytes.ofWord16 name) (fun _ => rfl) i _).sized rfl
  | _ =>
    cases d <;> cases h
    exact (Alike.refl _ _).sized rfl

end Constant

/-! ## Pools -/

namespace Pool

variable {p q : Pool}

/-- The bytes that all texts of a pool take. -/
def textSize (p : Pool) : Nat := Writer.total Constant.textSize p.toList

theorem toList_skeleton (p : Pool) : p.skeleton.toList = p.toList.map Constant.skeleton :=
  p.table.toList_map Constant.width_skeleton

theorem map_toList_of_skeleton (h : p.skeleton = q.skeleton) :
    p.toList.map Constant.skeleton = q.toList.map Constant.skeleton := by
  rw [← toList_skeleton, h, toList_skeleton]

theorem count_eq_of_skeleton (h : p.skeleton = q.skeleton) : p.count = q.count := by
  have hcount (p : Pool) : p.skeleton.count = p.count := rfl
  rw [← hcount, h, hcount]

theorem write_of_skeleton {a b : Bytes} (h : p.skeleton = q.skeleton) (ha : p.write = .ok a)
    (hb : q.write = .ok b) :
    a.length + q.textSize = b.length + p.textSize ∧
      ∀ r r', a ++ r = b ++ r' → p.table = q.table ∧ r = r' := by
  obtain ⟨m, hm, ha⟩ := Writer.bind_eq_ok ha
  obtain ⟨n, hn, hb⟩ := Writer.bind_eq_ok hb
  rw [count_eq_of_skeleton h] at hm
  cases hm.symm.trans hn
  obtain ⟨a, hitems, ha⟩ := Writer.bind_eq_ok ha
  obtain ⟨b, hitems', hb⟩ := Writer.bind_eq_ok hb
  cases ha
  cases hb
  obtain ⟨hlen, heq⟩ := Writer.Sized.items (fun _ _ _ => Constant.sized) (map_toList_of_skeleton h)
    hitems hitems'
  refine ⟨by simp only [List.length_append, textSize]; omega, fun r r' e => ?_⟩
  rw [List.append_assoc, List.append_assoc] at e
  obtain ⟨hconstants, e⟩ := heq r r' (List.append_cancel_left e)
  exact ⟨OffsetArray.eq_of_toList hconstants, e⟩

end Pool

/-! ## Class files -/

namespace ClassFile

variable {c d : ClassFile} {a b : Bytes}

/-- What is written before the members, except for the pool. -/
theorem toBytes_eq_ok (h : c.toBytes = .ok a) :
    ∃ p i f m n, c.constants.write = .ok p ∧
      Writer.list16 (fun i => .ok (Bytes.ofWord16 i)) c.interfaces = .ok i ∧
      Writer.list16 Member.write c.fields = .ok f ∧ Writer.list16 Member.write c.methods = .ok m ∧
      Writer.list16 Attribute.write c.attributes = .ok n ∧
      a = Bytes.ofWord32 magic ++ c.version.bytes ++ (p ++ (Bytes.ofWord16 c.access ++
        Bytes.ofWord16 c.thisClass ++ Writer.optionalIndex c.superClass ++ i ++
          (f ++ (m ++ n)))) := by
  obtain ⟨p, hp, h⟩ := Writer.bind_eq_ok h
  obtain ⟨i, hi, h⟩ := Writer.bind_eq_ok h
  obtain ⟨f, hf, h⟩ := Writer.bind_eq_ok h
  obtain ⟨m, hm, h⟩ := Writer.bind_eq_ok h
  obtain ⟨n, hn, h⟩ := Writer.bind_eq_ok h
  cases h
  exact ⟨p, i, f, m, n, hp, hi, hf, hm, hn, by simp only [List.append_assoc]⟩

theorem toBytes_of_skeleton (h : c.skeleton = d.skeleton) (ha : c.toBytes = .ok a)
    (hb : d.toBytes = .ok b) :
    a.length + d.constants.textSize = b.length + c.constants.textSize ∧
      (a = b → c.constants.table = d.constants.table ∧ c.fields = d.fields ∧
        c.methods = d.methods ∧ c.attributes = d.attributes) := by
  obtain ⟨p, i, f, m, n, hp, hi, hf, hm, hn, rfl⟩ := toBytes_eq_ok ha
  obtain ⟨p', i', f', m', n', hp', hi', hf', hm', hn', rfl⟩ := toBytes_eq_ok hb
  simp only [skeleton, ClassFile.mk.injEq] at h
  obtain ⟨hversion, hpool, haccess, hthis, hsuper, hinterfaces, hfields, hmethods, hattributes⟩ := h
  rw [hinterfaces] at hi
  cases hi.symm.trans hi'
  rw [hversion, haccess, hthis, hsuper]
  obtain ⟨lenPool, eqPool⟩ := Pool.write_of_skeleton hpool hp hp'
  obtain ⟨lenFields, eqFields⟩ := Alike.mapped16 (fun _ _ _ => Member.alike) hfields hf hf'
  obtain ⟨lenMethods, eqMethods⟩ := Alike.mapped16 (fun _ _ _ => Member.alike) hmethods hm hm'
  obtain ⟨lenAttributes, eqAttributes⟩ := Attribute.alike_list16 hattributes hn hn'
  refine ⟨by simp only [List.length_append]; omega, fun e => ?_⟩
  obtain ⟨htable, e⟩ := eqPool _ _ (List.append_cancel_left e)
  obtain ⟨ef, e⟩ := List.append_inj (List.append_cancel_left e) lenFields
  obtain ⟨em, en⟩ := List.append_inj e lenMethods
  exact ⟨htable, eqFields ef, eqMethods em, eqAttributes en⟩

end ClassFile

end Repackage
