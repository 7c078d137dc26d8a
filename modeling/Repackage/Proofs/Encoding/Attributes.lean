import Repackage.ClassFile.Attribute
import Repackage.Proofs.Encoding.Pieces

/-!
# Attributes are written as they were read

Records of numbers and indices are taken apart field by field. Values of annotations and
attributes nest, so their readers carry a depth: that they mirror their writers is shown by
induction on it (`ElementValue.read_mirrors`, `Attribute.read_mirrors`), given that the
readers of what is nested do.
-/

namespace Repackage

open Reader

/-! ## Frames -/

namespace VerificationType

theorem read_eq_ok {bytes rest : Bytes} {t : VerificationType}
    (h : VerificationType.read bytes = .ok (t, rest)) : bytes = t.bytes ++ rest := by
  obtain ⟨tag, left, ht, h⟩ := bind_eq_ok.1 h
  rw [u8_eq_ok.1 ht]
  split at h
  · obtain ⟨rfl, rfl⟩ := pure_eq_ok.1 h; rfl
  · obtain ⟨rfl, rfl⟩ := pure_eq_ok.1 h; rfl
  · obtain ⟨rfl, rfl⟩ := pure_eq_ok.1 h; rfl
  · obtain ⟨rfl, rfl⟩ := pure_eq_ok.1 h; rfl
  · obtain ⟨rfl, rfl⟩ := pure_eq_ok.1 h; rfl
  · obtain ⟨rfl, rfl⟩ := pure_eq_ok.1 h; rfl
  · obtain ⟨rfl, rfl⟩ := pure_eq_ok.1 h; rfl
  · obtain ⟨i, left', hi, h⟩ := bind_eq_ok.1 h
    obtain ⟨rfl, rfl⟩ := pure_eq_ok.1 h
    rw [u16_eq_ok hi]
    rfl
  · obtain ⟨n, left', hn, h⟩ := bind_eq_ok.1 h
    obtain ⟨rfl, rfl⟩ := pure_eq_ok.1 h
    rw [u16_eq_ok hn]
    rfl
  · cases h

theorem read_mirrors : VerificationType.read.Mirrors VerificationType.write :=
  fun _ _ _ h => ⟨_, rfl, read_eq_ok h⟩

theorem items_write (ts : List VerificationType) :
    Writer.items VerificationType.write ts = .ok (ts.flatMap VerificationType.bytes) := by
  induction ts with
  | nil => rfl
  | cons t ts ih => exact Writer.items_cons_ok rfl ih

end VerificationType

namespace Frame

theorem read_mirrors : Frame.read.Mirrors Frame.write := by
  intro bytes f rest h
  obtain ⟨tag, left, ht, h⟩ := bind_eq_ok.1 h
  rw [u8_eq_ok.1 ht]
  split at h
  · obtain ⟨rfl, rfl⟩ := pure_eq_ok.1 h
    exact ⟨[tag], rfl, rfl⟩
  split at h
  · obtain ⟨t, left', hs, h⟩ := bind_eq_ok.1 h
    obtain ⟨rfl, rfl⟩ := pure_eq_ok.1 h
    refine ⟨tag :: t.bytes, ?_, by rw [VerificationType.read_eq_ok hs]; rfl⟩
    rw [Frame.write, UInt8.sub_add_cancel]
  split at h
  · cases h
  split at h
  · rename_i e
    obtain ⟨n, left', hn, h⟩ := bind_eq_ok.1 h
    obtain ⟨t, left'', hs, h⟩ := bind_eq_ok.1 h
    obtain ⟨rfl, rfl⟩ := pure_eq_ok.1 h
    refine ⟨_, rfl, ?_⟩
    rw [e, u16_eq_ok hn, VerificationType.read_eq_ok hs]
    simp
  split at h
  · obtain ⟨n, left', hn, h⟩ := bind_eq_ok.1 h
    obtain ⟨rfl, rfl⟩ := pure_eq_ok.1 h
    refine ⟨tag :: Bytes.ofWord16 n, ?_, by rw [u16_eq_ok hn]; rfl⟩
    have e : 251 - (251 - tag) = tag := by grind
    rw [Frame.write, e]
  split at h
  · rename_i e
    obtain ⟨n, left', hn, h⟩ := bind_eq_ok.1 h
    obtain ⟨rfl, rfl⟩ := pure_eq_ok.1 h
    refine ⟨_, rfl, by rw [e, u16_eq_ok hn]; rfl⟩
  split at h
  · obtain ⟨n, left', hn, h⟩ := bind_eq_ok.1 h
    obtain ⟨ts, left'', hts, h⟩ := bind_eq_ok.1 h
    obtain ⟨rfl, rfl⟩ := pure_eq_ok.1 h
    obtain ⟨hlen, taken, hw, rfl⟩ := VerificationType.read_mirrors.times hts
    rw [VerificationType.items_write] at hw
    cases hw
    refine ⟨tag :: Bytes.ofWord16 n ++ ts.flatMap VerificationType.bytes, ?_, ?_⟩
    · have e : 251 + (tag - 251) = tag := by grind
      rw [Frame.write, hlen, UInt8.ofNat_toNat, e]
    · rw [u16_eq_ok hn]
      simp
  · obtain ⟨n, left', hn, h⟩ := bind_eq_ok.1 h
    obtain ⟨ls, left'', hls, h⟩ := bind_eq_ok.1 h
    obtain ⟨ss, left''', hss, h⟩ := bind_eq_ok.1 h
    obtain ⟨rfl, rfl⟩ := pure_eq_ok.1 h
    obtain ⟨a, ha, rfl⟩ := VerificationType.read_mirrors.list16 hls
    obtain ⟨b, hb, rfl⟩ := VerificationType.read_mirrors.list16 hss
    have e : tag = 255 := by grind
    refine ⟨255 :: Bytes.ofWord16 n ++ a ++ b, ?_, ?_⟩
    · rw [Frame.write, ha, hb]
      rfl
    · rw [e, u16_eq_ok hn]
      simp

end Frame

/-! ## Annotations -/

theorem ElementValue.writeAll_eq (vs : List ElementValue) :
    ElementValue.writeAll vs = Writer.items ElementValue.write vs := by
  induction vs with
  | nil => rfl
  | cons v vs ih => rw [ElementValue.writeAll, ih, Writer.items_cons]

/-- An element of an annotation: its name and its value. -/
def AnnotationInfo.writeElement (e : Index × ElementValue) : Written := do
  return Bytes.ofWord16 e.1 ++ (← e.2.write)

theorem AnnotationInfo.writeElements_eq (es : List (Index × ElementValue)) :
    AnnotationInfo.writeElements es = Writer.items AnnotationInfo.writeElement es := by
  induction es with
  | nil => rfl
  | cons e es ih =>
    rw [AnnotationInfo.writeElements, ih, Writer.items_cons, AnnotationInfo.writeElement]
    simp only [bind_assoc, pure_bind]

theorem ElementValue.write_array (vs : List ElementValue) :
    (ElementValue.array vs).write =
      (do return arrayTag :: (← Writer.list16 ElementValue.write vs)) := by
  rw [ElementValue.write, ElementValue.writeAll_eq, Writer.list16]
  simp

theorem AnnotationInfo.write_eq (a : AnnotationInfo) :
    a.write =
      (do return Bytes.ofWord16 a.type ++ (← Writer.list16 writeElement a.elements)) := by
  obtain ⟨type, elements⟩ := a
  rw [AnnotationInfo.write, AnnotationInfo.writeElements_eq, Writer.list16]
  simp

namespace ElementValue

theorem readElement_mirrors {value : Reader ElementValue} (hv : value.Mirrors ElementValue.write) :
    (do return (← index, ← value) : Reader (Index × ElementValue)).Mirrors
      AnnotationInfo.writeElement := by
  intro bytes e rest h
  obtain ⟨i, left, hi, h⟩ := bind_eq_ok.1 h
  obtain ⟨v, left', hr, h⟩ := bind_eq_ok.1 h
  obtain ⟨rfl, rfl⟩ := pure_eq_ok.1 h
  obtain ⟨a, ha, rfl⟩ := hv hr
  refine ⟨Bytes.ofWord16 i ++ a, ?_, by rw [u16_eq_ok hi, List.append_assoc]⟩
  rw [AnnotationInfo.writeElement, ha]
  rfl

theorem readAnnotationInfo_mirrors {value : Reader ElementValue}
    (hv : value.Mirrors ElementValue.write) :
    (readAnnotationInfo value).Mirrors AnnotationInfo.write := by
  intro bytes a rest h
  obtain ⟨type, left, ht, h⟩ := bind_eq_ok.1 h
  obtain ⟨elements, left', he, h⟩ := bind_eq_ok.1 h
  obtain ⟨rfl, rfl⟩ := pure_eq_ok.1 h
  obtain ⟨taken, hw, rfl⟩ := (readElement_mirrors hv).list16 he
  refine ⟨Bytes.ofWord16 type ++ taken, ?_, by rw [u16_eq_ok ht, List.append_assoc]⟩
  rw [AnnotationInfo.write_eq, hw]
  rfl

theorem read_mirrors (depth : Nat) : (ElementValue.read depth).Mirrors ElementValue.write := by
  induction depth with
  | zero => intro bytes v rest h; cases h
  | succ depth ih =>
    intro bytes v rest h
    obtain ⟨tag, left, ht, h⟩ := bind_eq_ok.1 h
    rw [u8_eq_ok.1 ht]
    split at h
    · obtain ⟨i, left', hi, h⟩ := bind_eq_ok.1 h
      obtain ⟨rfl, rfl⟩ := pure_eq_ok.1 h
      exact ⟨_, by rw [ElementValue.write], by rw [u16_eq_ok hi]; rfl⟩
    split at h
    · rename_i e
      obtain ⟨i, left', hi, h⟩ := bind_eq_ok.1 h
      obtain ⟨j, left'', hj, h⟩ := bind_eq_ok.1 h
      obtain ⟨rfl, rfl⟩ := pure_eq_ok.1 h
      refine ⟨_, by rw [ElementValue.write], ?_⟩
      rw [e, u16_eq_ok hi, u16_eq_ok hj]
      simp
    split at h
    · rename_i e
      obtain ⟨i, left', hi, h⟩ := bind_eq_ok.1 h
      obtain ⟨rfl, rfl⟩ := pure_eq_ok.1 h
      exact ⟨_, by rw [ElementValue.write], by rw [e, u16_eq_ok hi]; rfl⟩
    split at h
    · rename_i e
      obtain ⟨a, left', ha, h⟩ := bind_eq_ok.1 h
      obtain ⟨rfl, rfl⟩ := pure_eq_ok.1 h
      obtain ⟨taken, hw, rfl⟩ := readAnnotationInfo_mirrors ih ha
      refine ⟨annotationTag :: taken, ?_, by rw [e]; rfl⟩
      rw [ElementValue.write, hw]
      rfl
    split at h
    · rename_i e
      obtain ⟨vs, left', hvs, h⟩ := bind_eq_ok.1 h
      obtain ⟨rfl, rfl⟩ := pure_eq_ok.1 h
      obtain ⟨taken, hw, rfl⟩ := ih.list16 hvs
      refine ⟨arrayTag :: taken, ?_, by rw [e]; rfl⟩
      rw [write_array, hw]
      rfl
    · cases h

end ElementValue

theorem AnnotationInfo.read_mirrors (depth : Nat) :
    (AnnotationInfo.read depth).Mirrors AnnotationInfo.write :=
  ElementValue.readAnnotationInfo_mirrors (ElementValue.read_mirrors depth)

theorem ParameterAnnotations.read_mirrors (depth : Nat) :
    (ParameterAnnotations.read depth).Mirrors ParameterAnnotations.write :=
  (AnnotationInfo.read_mirrors depth).list16.list8

/-! ## Annotations on types -/

theorem LocalVarTarget.read_mirrors : LocalVarTarget.read.Mirrors LocalVarTarget.write := by
  intro bytes t rest h
  obtain ⟨a, left, ha, h⟩ := bind_eq_ok.1 h
  obtain ⟨b, left', hb, h⟩ := bind_eq_ok.1 h
  obtain ⟨c, left'', hc, h⟩ := bind_eq_ok.1 h
  obtain ⟨rfl, rfl⟩ := pure_eq_ok.1 h
  refine ⟨_, rfl, ?_⟩
  rw [u16_eq_ok ha, u16_eq_ok hb, u16_eq_ok hc]
  simp

theorem PathStep.read_mirrors : PathStep.read.Mirrors PathStep.write := by
  intro bytes s rest h
  obtain ⟨a, left, ha, h⟩ := bind_eq_ok.1 h
  obtain ⟨b, left', hb, h⟩ := bind_eq_ok.1 h
  obtain ⟨rfl, rfl⟩ := pure_eq_ok.1 h
  exact ⟨_, rfl, by rw [u8_eq_ok.1 ha, u8_eq_ok.1 hb]; rfl⟩

theorem Target.read_mirrors (type : UInt8) : (Target.read type).Mirrors Target.write := by
  unfold Target.read
  refine .ite (u8_mirrors.map fun _ => rfl) ?_
  refine .ite (index_mirrors.map fun _ => rfl) ?_
  refine .ite ?bound (.ite ?empty (.ite (u8_mirrors.map fun _ => rfl)
    (.ite (index_mirrors.map fun _ => rfl)
    (.ite (LocalVarTarget.read_mirrors.list16.map fun _ => rfl)
    (.ite (index_mirrors.map fun _ => rfl)
    (.ite (index_mirrors.map fun _ => rfl)
    (.ite ?argument (throw_mirrors _))))))))
  case bound =>
    intro bytes t rest h
    obtain ⟨a, left, ha, h⟩ := bind_eq_ok.1 h
    obtain ⟨b, left', hb, h⟩ := bind_eq_ok.1 h
    obtain ⟨rfl, rfl⟩ := pure_eq_ok.1 h
    exact ⟨[a, b], rfl, by rw [u8_eq_ok.1 ha, u8_eq_ok.1 hb]; rfl⟩
  case empty =>
    intro bytes t rest h
    obtain ⟨rfl, rfl⟩ := pure_eq_ok.1 h
    exact ⟨[], rfl, rfl⟩
  case argument =>
    intro bytes t rest h
    obtain ⟨n, left, hn, h⟩ := bind_eq_ok.1 h
    obtain ⟨i, left', hi, h⟩ := bind_eq_ok.1 h
    obtain ⟨rfl, rfl⟩ := pure_eq_ok.1 h
    exact ⟨_, rfl, by rw [u16_eq_ok hn, u8_eq_ok.1 hi, List.append_assoc]; rfl⟩

theorem TypeAnnotationInfo.read_mirrors (depth : Nat) :
    (TypeAnnotationInfo.read depth).Mirrors TypeAnnotationInfo.write := by
  intro bytes a rest h
  obtain ⟨type, left, ht, h⟩ := bind_eq_ok.1 h
  obtain ⟨target, left', htarget, h⟩ := bind_eq_ok.1 h
  obtain ⟨path, left'', hp, h⟩ := bind_eq_ok.1 h
  obtain ⟨info, left''', hi, h⟩ := bind_eq_ok.1 h
  obtain ⟨rfl, rfl⟩ := pure_eq_ok.1 h
  obtain ⟨a, ha, rfl⟩ := Target.read_mirrors type htarget
  obtain ⟨b, hb, rfl⟩ := PathStep.read_mirrors.list8 hp
  obtain ⟨c, hc, rfl⟩ := AnnotationInfo.read_mirrors depth hi
  refine ⟨type :: a ++ b ++ c, ?_, by rw [u8_eq_ok.1 ht]; simp⟩
  rw [TypeAnnotationInfo.write, ha, hb, hc]
  rfl

/-! ## Parts of attributes -/

theorem Handler.read_mirrors : Handler.read.Mirrors Handler.write := by
  intro bytes x rest h
  obtain ⟨a, left, ha, h⟩ := bind_eq_ok.1 h
  obtain ⟨b, left', hb, h⟩ := bind_eq_ok.1 h
  obtain ⟨c, left'', hc, h⟩ := bind_eq_ok.1 h
  obtain ⟨i, left''', hi, h⟩ := bind_eq_ok.1 h
  obtain ⟨rfl, rfl⟩ := pure_eq_ok.1 h
  refine ⟨_, rfl, ?_⟩
  rw [u16_eq_ok ha, u16_eq_ok hb, u16_eq_ok hc, optionalIndex_eq_ok hi]
  simp

theorem InnerClass.read_mirrors : InnerClass.read.Mirrors InnerClass.write := by
  intro bytes x rest h
  obtain ⟨i, left, hi, h⟩ := bind_eq_ok.1 h
  obtain ⟨o, left', ho, h⟩ := bind_eq_ok.1 h
  obtain ⟨n, left'', hn, h⟩ := bind_eq_ok.1 h
  obtain ⟨a, left''', ha, h⟩ := bind_eq_ok.1 h
  obtain ⟨rfl, rfl⟩ := pure_eq_ok.1 h
  refine ⟨_, rfl, ?_⟩
  rw [u16_eq_ok hi, optionalIndex_eq_ok ho, optionalIndex_eq_ok hn, u16_eq_ok ha]
  simp

theorem LocalVariable.read_mirrors : LocalVariable.read.Mirrors LocalVariable.write := by
  intro bytes x rest h
  obtain ⟨a, left₁, ha, h⟩ := bind_eq_ok.1 h
  obtain ⟨b, left₂, hb, h⟩ := bind_eq_ok.1 h
  obtain ⟨c, left₃, hc, h⟩ := bind_eq_ok.1 h
  obtain ⟨d, left₄, hd, h⟩ := bind_eq_ok.1 h
  obtain ⟨e, left₅, he, h⟩ := bind_eq_ok.1 h
  obtain ⟨rfl, rfl⟩ := pure_eq_ok.1 h
  refine ⟨_, rfl, ?_⟩
  rw [u16_eq_ok ha, u16_eq_ok hb, u16_eq_ok hc, u16_eq_ok hd, u16_eq_ok he]
  simp

/-! ## Attributes -/

theorem Attribute.writeAll_eq (as : List Attribute) :
    Attribute.writeAll as = Writer.items Attribute.write as := by
  induction as with
  | nil => rfl
  | cons a as ih => rw [Attribute.writeAll, ih, Writer.items_cons]

theorem Code.write_eq (c : Code) :
    c.write = (do
      let length ← Writer.length32 c.instructions.length
      let handlers ← Writer.list16 Handler.write c.handlers
      let attributes ← Writer.list16 Attribute.write c.attributes
      return Bytes.ofWord16 c.maxStack ++ Bytes.ofWord16 c.maxLocals ++ Bytes.ofWord32 length
        ++ c.instructions ++ handlers ++ attributes) := by
  obtain ⟨maxStack, maxLocals, instructions, handlers, attributes⟩ := c
  rw [Code.write, Attribute.writeAll_eq]
  simp [Writer.list16]

section

variable {inner : Reader Attribute} (hinner : inner.Mirrors Attribute.write)

include hinner

theorem Code.readWith_mirrors : (Code.readWith inner).Mirrors Code.write := by
  intro bytes c rest h
  obtain ⟨stack, left₁, hs, h⟩ := bind_eq_ok.1 h
  obtain ⟨locals, left₂, hl, h⟩ := bind_eq_ok.1 h
  obtain ⟨length, left₃, hn, h⟩ := bind_eq_ok.1 h
  obtain ⟨instructions, left₄, hi, h⟩ := bind_eq_ok.1 h
  obtain ⟨handlers, left₅, hh, h⟩ := bind_eq_ok.1 h
  obtain ⟨count, left₆, hc, h⟩ := bind_eq_ok.1 h
  obtain ⟨rfl, rfl⟩ := pure_eq_ok.1 h
  obtain ⟨rfl, hlen⟩ := take_eq_ok hi
  obtain ⟨a, ha, rfl⟩ := Handler.read_mirrors.list16 hh
  obtain ⟨b, hb, rfl⟩ := hinner.list16 hc
  refine ⟨Bytes.ofWord16 stack ++ Bytes.ofWord16 locals ++ Bytes.ofWord32 length ++ instructions
    ++ a ++ b, ?_, by rw [u16_eq_ok hs, u16_eq_ok hl, u32_eq_ok hn]; simp⟩
  rw [Code.write_eq, Writer.length32_of_toNat hlen, ha, hb]
  rfl

theorem AttributeBody.readWith_mirrors (depth : Nat) (name : String) :
    (AttributeBody.readWith inner depth name).Mirrors AttributeBody.write := by
  intro bytes body rest h
  unfold AttributeBody.readWith at h
  split at h
  · exact index_mirrors.map (fun _ => by rw [AttributeBody.write]) h
  · exact (Code.readWith_mirrors hinner).map (fun _ => by rw [AttributeBody.write]) h
  · exact Frame.read_mirrors.list16.map (fun _ => by rw [AttributeBody.write]) h
  · exact index_mirrors.list16.map (fun _ => by rw [AttributeBody.write]) h
  · exact InnerClass.read_mirrors.list16.map (fun _ => by rw [AttributeBody.write]) h
  · obtain ⟨owner, left, ho, h⟩ := bind_eq_ok.1 h
    obtain ⟨method, left', hm, h⟩ := bind_eq_ok.1 h
    obtain ⟨rfl, rfl⟩ := pure_eq_ok.1 h
    refine ⟨_, by rw [AttributeBody.write], ?_⟩
    rw [u16_eq_ok ho, optionalIndex_eq_ok hm, List.append_assoc]
  · exact index_mirrors.map (fun _ => by rw [AttributeBody.write]) h
  · exact LocalVariable.read_mirrors.list16.map (fun _ => by rw [AttributeBody.write]) h
  · exact LocalVariable.read_mirrors.list16.map (fun _ => by rw [AttributeBody.write]) h
  · exact (AnnotationInfo.read_mirrors depth).list16.map (fun _ => by rw [AttributeBody.write]) h
  · exact (AnnotationInfo.read_mirrors depth).list16.map (fun _ => by rw [AttributeBody.write]) h
  · exact (ParameterAnnotations.read_mirrors depth).map (fun _ => by rw [AttributeBody.write]) h
  · exact (ParameterAnnotations.read_mirrors depth).map (fun _ => by rw [AttributeBody.write]) h
  · exact (TypeAnnotationInfo.read_mirrors depth).list16.map
      (fun _ => by rw [AttributeBody.write]) h
  · exact (TypeAnnotationInfo.read_mirrors depth).list16.map
      (fun _ => by rw [AttributeBody.write]) h
  · exact (ElementValue.read_mirrors depth).map (fun _ => by rw [AttributeBody.write]) h
  · exact index_mirrors.map (fun _ => by rw [AttributeBody.write]) h
  · exact index_mirrors.list16.map (fun _ => by rw [AttributeBody.write]) h
  · cases h
    exact ⟨bytes, by rw [AttributeBody.write], (List.append_nil bytes).symm⟩

end

theorem Attribute.read_mirrors (p : Pool) (depth : Nat) :
    (Attribute.read p depth).Mirrors Attribute.write := by
  induction depth with
  | zero => intro bytes a rest h; cases h
  | succ depth ih =>
    intro bytes a rest h
    obtain ⟨index, left₁, hi, h⟩ := bind_eq_ok.1 h
    obtain ⟨length, left₂, hl, h⟩ := bind_eq_ok.1 h
    obtain ⟨taken, left₃, ht, h⟩ := bind_eq_ok.1 h
    obtain ⟨name, left₄, hn, h⟩ := bind_eq_ok.1 h
    obtain ⟨⟨body, left⟩, left₅, hb, h⟩ := bind_eq_ok.1 h
    obtain ⟨-, rfl⟩ := lift_eq_ok.1 hn
    obtain ⟨hbody, rfl⟩ := lift_eq_ok.1 hb
    simp only at h
    split at h
    · cases h
    · rename_i hleft
      obtain ⟨rfl, rfl⟩ := pure_eq_ok.1 h
      obtain ⟨rfl, hlen⟩ := take_eq_ok ht
      obtain ⟨written, hw, rfl⟩ := AttributeBody.readWith_mirrors ih _ _ hbody
      -- nothing of the body is left, so what was taken is what is written
      have hnil : left = [] := by simpa using hleft
      subst hnil
      rw [List.append_nil] at hlen
      refine ⟨Bytes.ofWord16 index ++ Bytes.ofWord32 length ++ written, ?_, ?_⟩
      · rw [Attribute.write, hw]
        change (do let length ← Writer.length32 written.length; _) = _
        rw [Writer.length32_of_toNat hlen]
        rfl
      · rw [u16_eq_ok hi, u32_eq_ok hl]
        simp

end Repackage
