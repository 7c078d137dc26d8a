import Repackage.Proofs.Encoding.Skeleton
import Repackage.Proofs.Encoding.Comparison

/-!
# What has no room

Writing fails only where a length has no room in the format. `Writer.Even x y` says that two things
to write fail alike or have equally many bytes. A part of a class file is even with its skeleton,
whatever nests in it, since an index takes two bytes and the length of an attribute depends on the
length of its body only. Hence parts with one skeleton can be written or cannot, both of them.

This leaves the pool, whose texts a skeleton does not keep: a class file with the skeleton of one
that can be written fails exactly if a text in its pool is too long (`ClassFile.toBytes_fails`).
-/

namespace Repackage

namespace Writer

variable {α : Type} {w : α → Written} {x y z : Written}

/-- Both fail with the same error, or both have equally many bytes. -/
def Even (x y : Written) : Prop := x.map List.length = y.map List.length

theorem Even.refl (x : Written) : Even x x := rfl

theorem Even.symm (h : Even x y) : Even y x := Eq.symm h

theorem Even.trans (h : Even x y) (h' : Even y z) : Even x z := Eq.trans h h'

theorem Even.of_lengths {a b : Bytes} (h : a.length = b.length) : Even (.ok a) (.ok b) :=
  congrArg Except.ok h

/-- What is written next may depend on the length of what was written. -/
theorem Even.bind {f g : Bytes → Written} (h : Even x y)
    (hf : ∀ a b, a.length = b.length → Even (f a) (g b)) : Even (x >>= f) (y >>= g) := by
  cases x with
  | error e =>
    cases y with
    | error e' =>
      cases h
      rfl
    | ok b => cases h
  | ok a =>
    cases y with
    | error e => cases h
    | ok b => exact hf a b (Except.ok.inj h)

theorem Even.exists_ok {a : Bytes} (h : Even x y) (hy : y = .ok a) : ∃ b, x = .ok b := by
  subst hy
  cases x with
  | error e => cases h
  | ok b => exact ⟨b, rfl⟩

theorem exists_error_iff : (∃ e, x = .error e) ↔ ¬ ∃ b, x = .ok b := by
  cases x with
  | error e => exact ⟨fun _ h => (by cases h.choose_spec), fun _ => ⟨e, rfl⟩⟩
  | ok b => exact ⟨fun h => (by cases h.choose_spec), fun h => absurd ⟨b, rfl⟩ h⟩

/-- Bytes that are equally many before what is even. -/
theorem Even.after {p q : Bytes} (hpq : p.length = q.length) (h : Even x y) :
    Even (do return p ++ (← x)) (do return q ++ (← y)) :=
  h.bind fun a b hab => .of_lengths (by rw [List.length_append, List.length_append, hpq, hab])

theorem Even.items {k : α → α} {xs : List α} (h : ∀ x ∈ xs, Even (w x) (w (k x))) :
    Even (Writer.items w xs) (Writer.items w (xs.map k)) := by
  induction xs with
  | nil => exact .refl _
  | cons x xs ih =>
    rw [List.map_cons, items_cons, items_cons]
    refine (h x List.mem_cons_self).bind fun a b hab => ?_
    exact (ih fun x hx => h x (List.mem_cons_of_mem _ hx)).after hab

theorem Even.list16 {k : α → α} {xs : List α} (h : ∀ x ∈ xs, Even (w x) (w (k x))) :
    Even (Writer.list16 w xs) (Writer.list16 w (xs.map k)) := by
  unfold Writer.list16
  rw [List.length_map]
  cases length16 xs.length with
  | error e => exact .refl _
  | ok n => exact (Even.items h).after rfl

theorem Even.list8 {k : α → α} {xs : List α} (h : ∀ x ∈ xs, Even (w x) (w (k x))) :
    Even (Writer.list8 w xs) (Writer.list8 w (xs.map k)) := by
  unfold Writer.list8
  rw [List.length_map]
  cases length8 xs.length with
  | error e => exact .refl _
  | ok n => exact (Even.items h).after (p := [n]) rfl

/-- Lists that are the same after `k`, each item of which is even with what `k` makes of it. -/
theorem Even.list16_of_map {k : α → α} {xs ys : List α} (h : ∀ x, Even (w x) (w (k x)))
    (hk : xs.map k = ys.map k) : Even (Writer.list16 w xs) (Writer.list16 w ys) := by
  have hxs : Even (Writer.list16 w xs) (Writer.list16 w (xs.map k)) := Even.list16 fun x _ => h x
  rw [hk] at hxs
  exact hxs.trans (Even.list16 fun y _ => h y).symm

theorem exists_items_iff {xs : List α} :
    (∃ b, items w xs = .ok b) ↔ ∀ x ∈ xs, ∃ b, w x = .ok b := by
  induction xs with
  | nil => exact ⟨fun _ => List.forall_mem_nil _, fun _ => ⟨[], items_nil⟩⟩
  | cons x xs ih =>
    rw [List.forall_mem_cons, ← ih, items_cons]
    constructor
    · rintro ⟨b, h⟩
      obtain ⟨a, ha, h⟩ := bind_eq_ok h
      obtain ⟨c, hc, -⟩ := bind_eq_ok h
      exact ⟨⟨a, ha⟩, c, hc⟩
    · rintro ⟨⟨a, ha⟩, c, hc⟩
      exact ⟨a ++ c, by rw [ha, hc]; rfl⟩

end Writer

open Writer (Even)

/-! ## Annotations -/

mutual

theorem ElementValue.even (v : ElementValue) : Even v.write v.skeleton.write := by
  cases v with
  | const tag value =>
    rw [ElementValue.skeleton]
    exact .refl _
  | enumConst type name =>
    rw [ElementValue.skeleton, ElementValue.write, ElementValue.write]
    exact .of_lengths rfl
  | classLiteral descriptor =>
    rw [ElementValue.skeleton, ElementValue.write, ElementValue.write]
    exact .of_lengths rfl
  | nested a =>
    rw [ElementValue.skeleton, ElementValue.write, ElementValue.write]
    exact (AnnotationInfo.even a).after (p := [ElementValue.annotationTag]) rfl
  | array values =>
    rw [ElementValue.skeleton, ElementValue.write_array, ElementValue.write_array,
      ElementValue.skeletons_eq_map]
    exact (Even.list16 (ElementValue.evenAll values)).after (p := [ElementValue.arrayTag]) rfl
termination_by structural v

theorem ElementValue.evenAll (vs : List ElementValue) :
    ∀ v ∈ vs, Even v.write v.skeleton.write := by
  cases vs with
  | nil => exact List.forall_mem_nil _
  | cons v vs => exact List.forall_mem_cons.2 ⟨ElementValue.even v, ElementValue.evenAll vs⟩
termination_by structural vs

theorem AnnotationInfo.even (a : AnnotationInfo) : Even a.write a.skeleton.write := by
  cases a with
  | mk type elements =>
    rw [AnnotationInfo.skeleton, AnnotationInfo.write_eq, AnnotationInfo.write_eq,
      AnnotationInfo.elementSkeletons_eq_map]
    exact (Even.list16 (AnnotationInfo.evenElements elements)).after rfl
termination_by structural a

theorem AnnotationInfo.evenElements (es : List (Index × ElementValue)) :
    ∀ e ∈ es, Even (AnnotationInfo.writeElement e)
      (AnnotationInfo.writeElement (e.1, e.2.skeleton)) := by
  cases es with
  | nil => exact List.forall_mem_nil _
  | cons e es =>
    cases e with
    | mk name v =>
      exact List.forall_mem_cons.2
        ⟨(ElementValue.even v).after rfl, AnnotationInfo.evenElements es⟩
termination_by structural es

end

theorem TypeAnnotationInfo.even (a : TypeAnnotationInfo) : Even a.write a.skeleton.write := by
  unfold TypeAnnotationInfo.write
  refine Even.bind (.refl _) fun target target' htarget => ?_
  refine Even.bind (.refl _) fun path path' hpath => ?_
  exact (AnnotationInfo.even a.info).after (by simp [TypeAnnotationInfo.skeleton, htarget, hpath])

/-! ## Attributes -/

mutual

theorem Attribute.even (a : Attribute) : Even a.write a.skeleton.write := by
  cases a with
  | mk name body =>
    rw [Attribute.skeleton, Attribute.write, Attribute.write]
    refine (AttributeBody.even body).bind fun b b' hb => ?_
    rw [hb]
    cases Writer.length32 b'.length with
    | error e => exact .refl _
    | ok length => exact .of_lengths (by simp only [List.length_append, hb])
termination_by structural a

theorem AttributeBody.even (body : AttributeBody) : Even body.write body.skeleton.write := by
  cases body with
  | code c =>
    rw [AttributeBody.skeleton, AttributeBody.write, AttributeBody.write]
    exact Code.even c
  | signature text =>
    rw [AttributeBody.skeleton, AttributeBody.write, AttributeBody.write]
    exact .of_lengths rfl
  | localVariableTable vars =>
    rw [AttributeBody.skeleton, AttributeBody.write, AttributeBody.write]
    exact Even.list16 fun _ _ => .of_lengths rfl
  | localVariableTypeTable vars =>
    rw [AttributeBody.skeleton, AttributeBody.write, AttributeBody.write]
    exact Even.list16 fun _ _ => .of_lengths rfl
  | annotations retention as =>
    rw [AttributeBody.skeleton, AttributeBody.write, AttributeBody.write]
    exact Even.list16 fun a _ => a.even
  | parameterAnnotations retention ps =>
    rw [AttributeBody.skeleton, AttributeBody.write, AttributeBody.write]
    exact Even.list8 fun _ _ => Even.list16 fun a _ => a.even
  | typeAnnotations retention as =>
    rw [AttributeBody.skeleton, AttributeBody.write, AttributeBody.write]
    exact Even.list16 fun a _ => a.even
  | annotationDefault value =>
    rw [AttributeBody.skeleton, AttributeBody.write, AttributeBody.write]
    exact value.even
  | _ => exact .refl _
termination_by structural body

theorem Code.even (c : Code) : Even c.write c.skeleton.write := by
  cases c with
  | mk maxStack maxLocals instructions handlers attributes =>
    rw [Code.skeleton, Code.write_eq, Code.write_eq, Attribute.skeletons_eq_map]
    dsimp only
    cases Writer.length32 instructions.length with
    | error e => exact .refl _
    | ok length =>
      refine Even.bind (.refl _) fun hs hs' hhs => ?_
      exact (Even.list16 (Attribute.evenAll attributes)).after (by simp [hhs])
termination_by structural c

theorem Attribute.evenAll (as : List Attribute) : ∀ a ∈ as, Even a.write a.skeleton.write := by
  cases as with
  | nil => exact List.forall_mem_nil _
  | cons a as => exact List.forall_mem_cons.2 ⟨Attribute.even a, Attribute.evenAll as⟩
termination_by structural as

end

theorem Member.even (m : Member) : Even m.write m.skeleton.write := by
  unfold Member.write Member.skeleton
  rw [Attribute.skeletons_eq_map]
  exact (Even.list16 fun a _ => a.even).after rfl

/-! ## Texts -/

namespace Constant

theorem exists_writeText_iff {text : Bytes} :
    (∃ b, writeText text = .ok b) ↔ text.length ≤ 65535 := by
  unfold writeText Writer.length16
  by_cases hlt : text.length < 0x10000
  · rw [if_pos hlt]
    exact ⟨fun _ => Nat.le_of_lt_succ hlt, fun _ => ⟨_, rfl⟩⟩
  · rw [if_neg hlt]
    exact ⟨fun h => (by cases h.choose_spec), fun h => absurd (Nat.lt_succ_of_le h) hlt⟩

theorem exists_write_utf8_iff {text : String} :
    (∃ b, (utf8 text).write = .ok b) ↔ (ModifiedUtf8.encode text).length ≤ 65535 := by
  rw [← exists_writeText_iff]
  constructor
  · rintro ⟨b, h⟩
    obtain ⟨body, hbody, -⟩ := write_eq_ok h
    exact ⟨body, hbody⟩
  · rintro ⟨body, hbody⟩
    refine ⟨1 :: body, ?_⟩
    rw [write, writeBody, hbody]
    rfl

/-- Next to a constant that can be written, only a text can be too long. -/
theorem exists_write_iff {c d : Constant} {a : Bytes} (h : c.skeleton = d.skeleton)
    (hd : d.write = .ok a) :
    (∃ b, c.write = .ok b) ↔
      ∀ text, c = .utf8 text → (ModifiedUtf8.encode text).length ≤ 65535 := by
  cases c with
  | utf8 text =>
    rw [exists_write_utf8_iff]
    constructor
    · rintro hle text ⟨⟩
      exact hle
    · exact fun hle => hle text rfl
  | rawUtf8 raw =>
    -- these bytes are the same in both
    cases d <;> cases h
    exact ⟨fun _ _ e => (by cases e), fun _ => ⟨a, hd⟩⟩
  | _ => exact ⟨fun _ _ e => (by cases e), fun _ => ⟨_, rfl⟩⟩

end Constant

namespace Pool

variable {p q : Pool} {a : Bytes}

theorem exists_write_iff (h : q.skeleton = p.skeleton) (hp : p.write = .ok a) :
    (∃ b, q.write = .ok b) ↔
      ∀ text, .utf8 text ∈ q.toList →
        (ModifiedUtf8.encode text).length ≤ 65535 := by
  obtain ⟨n, hn, hp⟩ := Writer.bind_eq_ok hp
  obtain ⟨b, hb, -⟩ := Writer.bind_eq_ok hp
  have hconstants : ∀ c ∈ q.toList, ∃ d : Constant, ∃ a,
      c.skeleton = d.skeleton ∧ d.write = .ok a := by
    intro c hc
    have hmem := List.mem_map_of_mem (f := Constant.skeleton) hc
    rw [map_toList_of_skeleton h] at hmem
    obtain ⟨d, hd, hskeleton⟩ := List.mem_map.1 hmem
    obtain ⟨a, ha⟩ := Writer.exists_items_iff.1 ⟨b, hb⟩ d hd
    exact ⟨d, a, hskeleton.symm, ha⟩
  have hitems : (∃ b, q.write = .ok b) ↔
      ∃ b, Writer.items Constant.write q.toList = .ok b := by
    unfold Pool.write
    rw [count_eq_of_skeleton h, hn]
    constructor
    · rintro ⟨b, hq⟩
      obtain ⟨n, -, hq⟩ := Writer.bind_eq_ok hq
      obtain ⟨b, hb, -⟩ := Writer.bind_eq_ok hq
      exact ⟨b, hb⟩
    · rintro ⟨b, hb⟩
      exact ⟨Bytes.ofWord16 n ++ b, by rw [hb]; rfl⟩
  rw [hitems, Writer.exists_items_iff]
  constructor
  · intro hall text hmem
    exact Constant.exists_write_utf8_iff.1 (hall _ hmem)
  · intro hall c hc
    obtain ⟨d, a, hskeleton, hd⟩ := hconstants c hc
    exact (Constant.exists_write_iff hskeleton hd).2 fun text e => hall text (e ▸ hc)

end Pool

/-- Beside a class file that can be written, one with the same skeleton fails exactly if it has a
text that is too long. -/
theorem ClassFile.toBytes_fails {c d : ClassFile} {bytes : Bytes} (h : d.skeleton = c.skeleton)
    (hc : c.toBytes = .ok bytes) :
    (∃ e, d.toBytes = .error e) ↔
      ∃ text, .utf8 text ∈ d.constants.toList ∧
        65535 < (ModifiedUtf8.encode text).length := by
  obtain ⟨p, i, f, m, n, hp, hi, hf, hm, hn, -⟩ := toBytes_eq_ok hc
  simp only [skeleton, ClassFile.mk.injEq] at h
  obtain ⟨-, hpool, -, -, -, hinterfaces, hfields, hmethods, hattributes⟩ := h
  rw [Attribute.skeletons_eq_map, Attribute.skeletons_eq_map] at hattributes
  rw [← hinterfaces] at hi
  obtain ⟨f', hf'⟩ := (Even.list16_of_map Member.even hfields).exists_ok hf
  obtain ⟨m', hm'⟩ := (Even.list16_of_map Member.even hmethods).exists_ok hm
  obtain ⟨n', hn'⟩ := (Even.list16_of_map Attribute.even hattributes).exists_ok hn
  have hwhole : (∃ b, d.toBytes = .ok b) ↔ ∃ b, d.constants.write = .ok b := by
    unfold toBytes
    constructor
    · rintro ⟨b, hd⟩
      obtain ⟨b, hb, -⟩ := Writer.bind_eq_ok hd
      exact ⟨b, hb⟩
    · rintro ⟨b, hb⟩
      rw [hb, hi, hf', hm', hn']
      exact ⟨_, rfl⟩
  rw [Writer.exists_error_iff, hwhole, Pool.exists_write_iff hpool hp]
  simp only [not_forall, Nat.not_le, exists_prop]

end Repackage
