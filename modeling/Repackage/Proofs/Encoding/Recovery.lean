import Repackage.Proofs.Encoding.WellFormed

/-!
# What is written is read back

`Recovers n r w x` says that the reader `r` takes the bytes which `w` writes for `x`, and no byte
of what follows them, and gives `x` back. The readers of what nests stop at a depth, so the bytes
are bounded: as many levels as there are bytes are enough (`ElementValue.recovers`,
`Attribute.recovers`, both by induction along the types).
-/

namespace Repackage

namespace Reader

variable {α β : Type} {n : Nat} {r : Reader α} {w : α → Written} {x : α}

/-- What is written for a value in at most `n` bytes is read as that value, whatever follows. -/
def Recovers (n : Nat) (r : Reader α) (w : α → Written) (x : α) : Prop :=
  ∀ ⦃bytes⦄, w x = .ok bytes → bytes.length ≤ n → ∀ rest, r (bytes ++ rest) = .ok (x, rest)

theorem Recovers.whole {bytes : Bytes} (h : Recovers n r w x) (hw : w x = .ok bytes)
    (hlen : bytes.length ≤ n) : r bytes = .ok (x, []) := by
  have hr := h hw hlen []
  rwa [List.append_nil] at hr

/-! ## Numbers -/

section Numbers

variable (f : α → Reader β) (rest : Bytes)

theorem pure_apply (x : α) : (pure x : Reader α) rest = .ok (x, rest) := rfl

theorem bind_of_eq_ok {f : α → Reader β} {bytes left : Bytes} (h : r bytes = .ok (x, left)) :
    (r >>= f) bytes = f x left := by
  change (r bytes >>= fun p => f p.1 p.2) = f x left
  rw [h]
  rfl

theorem u16_append (n : UInt16) : u16 (Bytes.ofWord16 n ++ rest) = .ok (n, rest) := by
  change Except.ok (Bytes.word16 (n >>> 8).toUInt8 n.toUInt8, rest) = _
  rw [Bytes.word16_bytes]

theorem u32_append (n : UInt32) : u32 (Bytes.ofWord32 n ++ rest) = .ok (n, rest) := by
  rw [u32, Bytes.ofWord32, List.append_assoc, bind_of_eq_ok (u16_append _ _),
    bind_of_eq_ok (u16_append _ _), Bytes.word32_halves, pure_apply]

theorem u64_append (n : UInt64) : u64 (Bytes.ofWord64 n ++ rest) = .ok (n, rest) := by
  rw [u64, Bytes.ofWord64, List.append_assoc, bind_of_eq_ok (u32_append _ _),
    bind_of_eq_ok (u32_append _ _), Bytes.word64_halves, pure_apply]

theorem index_append (i : Index) : index (Bytes.ofWord16 i ++ rest) = .ok (i, rest) :=
  u16_append rest i

theorem optionalIndex_append {i : Option Index} (hi : i ≠ some 0) :
    optionalIndex (Writer.optionalIndex i ++ rest) = .ok (i, rest) := by
  rw [optionalIndex, Writer.optionalIndex, bind_of_eq_ok (u16_append _ _), pure_apply]
  cases i with
  | none => rfl
  | some i =>
    have h0 : i ≠ 0 := fun e => hi (congrArg some e)
    rw [Option.getD_some, if_neg h0]

theorem take_append (short : Nat → ReadError) (taken : Bytes) :
    take taken.length short (taken ++ rest) = .ok (taken, rest) := by
  unfold take
  simp

theorem blob_append (taken : Bytes) : blob taken.length (taken ++ rest) = .ok (taken, rest) :=
  take_append rest _ taken

end Numbers

/-! ## Lists -/

theorem Recovers.times {xs : List α} (h : ∀ x ∈ xs, Recovers n r w x) {bytes : Bytes}
    (hw : Writer.items w xs = .ok bytes) (hn : bytes.length ≤ n) (rest : Bytes) :
    r.times xs.length (bytes ++ rest) = .ok (xs, rest) := by
  induction xs generalizing bytes with
  | nil =>
    cases hw
    rfl
  | cons x xs ih =>
    rw [Writer.items_cons] at hw
    obtain ⟨a, ha, hw⟩ := Writer.bind_eq_ok hw
    obtain ⟨b, hb, hw⟩ := Writer.bind_eq_ok hw
    cases hw
    rw [List.length_append] at hn
    have hx := h x List.mem_cons_self ha (by omega) (b ++ rest)
    have hxs := ih (fun y hy => h y (List.mem_cons_of_mem x hy)) hb (by omega)
    rw [List.length_cons, Reader.times, List.append_assoc, bind_of_eq_ok hx, bind_of_eq_ok hxs,
      pure_apply]

theorem Recovers.list8 {xs : List α} (h : ∀ x ∈ xs, Recovers n r w x) :
    Recovers n (Reader.list8 r) (Writer.list8 w) xs := by
  intro bytes hw hn rest
  obtain ⟨k, hk, hw⟩ := Writer.bind_eq_ok hw
  obtain ⟨a, ha, hw⟩ := Writer.bind_eq_ok hw
  cases hw
  have hxs := Recovers.times h ha (Nat.le_trans (Nat.le_succ _) hn) rest
  rw [← Writer.toNat_of_length8 hk] at hxs
  exact bind_eq_ok.2 ⟨k, a ++ rest, rfl, hxs⟩

theorem Recovers.list16 {xs : List α} (h : ∀ x ∈ xs, Recovers n r w x) :
    Recovers n (Reader.list16 r) (Writer.list16 w) xs := by
  intro bytes hw hn rest
  obtain ⟨k, hk, hw⟩ := Writer.bind_eq_ok hw
  obtain ⟨a, ha, hw⟩ := Writer.bind_eq_ok hw
  cases hw
  rw [List.length_append] at hn
  have hxs := Recovers.times h ha (by omega) rest
  rw [← Writer.toNat_of_length16 hk] at hxs
  rw [Reader.list16, List.append_assoc, bind_of_eq_ok (u16_append _ _), hxs]

theorem index_recovers (i : Index) : Recovers n index (fun i => .ok (Bytes.ofWord16 i)) i := by
  intro bytes h _ rest
  cases h
  exact index_append rest i

end Reader

open Reader

/-! ## Frames -/

theorem VerificationType.recovers {n : Nat} (t : VerificationType) :
    Recovers n VerificationType.read VerificationType.write t := by
  intro bytes h _ rest
  cases h
  cases t with
  | object name => exact bind_eq_ok.2 ⟨7, _, rfl, bind_of_eq_ok (index_append rest name)⟩
  | uninitialized offset => exact bind_eq_ok.2 ⟨8, _, rfl, bind_of_eq_ok (u16_append rest offset)⟩
  | _ => rfl

theorem Frame.recovers {n : Nat} {f : Frame} (hf : f.WellFormed) :
    Recovers n Frame.read Frame.write f := by
  intro bytes h _ rest
  cases f with
  | same delta =>
    cases h
    have h64 : delta < 64 := by rw [Frame.WellFormed] at hf; grind
    refine bind_eq_ok.2 ⟨delta, rest, rfl, ?_⟩
    rw [if_pos h64, pure_apply]
  | sameLocalsOneStack delta stack =>
    cases h
    have htag : ¬ delta + 64 < 64 ∧ delta + 64 < 128 := by rw [Frame.WellFormed] at hf; grind
    refine bind_eq_ok.2 ⟨delta + 64, stack.bytes ++ rest, rfl, ?_⟩
    rw [if_neg htag.1, if_pos htag.2, bind_of_eq_ok (stack.recovers rfl (Nat.le_refl _) rest),
      UInt8.add_sub_cancel, pure_apply]
  | sameLocalsOneStackExtended delta stack =>
    cases h
    refine bind_eq_ok.2 ⟨247, Bytes.ofWord16 delta ++ (stack.bytes ++ rest), by simp [u8], ?_⟩
    exact bind_eq_ok.2 ⟨delta, _, u16_append _ _,
      bind_of_eq_ok (stack.recovers rfl (Nat.le_refl _) rest)⟩
  | chop delta chopped =>
    cases h
    have htag : ¬ 251 - chopped < 247 ∧ 251 - chopped ≠ 247 ∧ 251 - chopped < 251 := by
      rw [Frame.WellFormed] at hf; grind
    have hshort : ¬ 251 - chopped < 64 ∧ ¬ 251 - chopped < 128 := by grind
    have hback : 251 - (251 - chopped) = chopped := by grind
    refine bind_eq_ok.2 ⟨251 - chopped, Bytes.ofWord16 delta ++ rest, rfl, ?_⟩
    rw [if_neg hshort.1, if_neg hshort.2, if_neg htag.1, if_neg htag.2.1, if_pos htag.2.2,
      bind_of_eq_ok (u16_append _ _), hback, pure_apply]
  | sameExtended delta =>
    cases h
    exact bind_eq_ok.2 ⟨251, _, rfl, bind_of_eq_ok (u16_append rest delta)⟩
  | append delta locals =>
    cases h
    rw [Frame.WellFormed] at hf
    have hlen : (UInt8.ofNat locals.length).toNat = locals.length :=
      UInt8.toNat_ofNat_of_lt' (by have : UInt8.size = 256 := rfl; omega)
    generalize UInt8.ofNat locals.length = k at hlen ⊢
    have hk : 1 ≤ k ∧ k ≤ 3 := by
      rw [UInt8.le_iff_toNat_le, UInt8.le_iff_toNat_le, hlen]
      exact hf
    have htag : ¬ 251 + k < 251 ∧ 251 + k ≠ 251 ∧ 251 + k < 255 := by grind
    have hshort : ¬ 251 + k < 64 ∧ ¬ 251 + k < 128 ∧ ¬ 251 + k < 247 ∧ 251 + k ≠ 247 := by grind
    have hback : 251 + k - 251 = k := by grind
    have hlocals := Recovers.times (fun t _ => t.recovers) (VerificationType.items_write locals)
      (Nat.le_refl _) rest
    refine bind_eq_ok.2 ⟨251 + k, Bytes.ofWord16 delta ++
      (locals.flatMap VerificationType.bytes ++ rest), by simp [u8], ?_⟩
    rw [if_neg hshort.1, if_neg hshort.2.1, if_neg hshort.2.2.1, if_neg hshort.2.2.2,
      if_neg htag.1, if_neg htag.2.1, if_pos htag.2.2, hback, hlen,
      bind_of_eq_ok (u16_append _ _), bind_of_eq_ok hlocals, pure_apply]
  | full delta locals stack =>
    obtain ⟨a, ha, h⟩ := Writer.bind_eq_ok h
    obtain ⟨b, hb, h⟩ := Writer.bind_eq_ok h
    cases h
    have hlocals := Recovers.list16 (fun t _ => t.recovers) ha (Nat.le_refl _) (b ++ rest)
    have hstack := Recovers.list16 (fun t _ => t.recovers) hb (Nat.le_refl _) rest
    refine bind_eq_ok.2 ⟨255, Bytes.ofWord16 delta ++ (a ++ (b ++ rest)), by simp [u8], ?_⟩
    exact bind_eq_ok.2 ⟨delta, _, u16_append _ _,
      bind_eq_ok.2 ⟨locals, _, hlocals, bind_of_eq_ok hstack⟩⟩

/-! ## Annotations -/

/-- Every value starts with its tag. -/
theorem ElementValue.length_pos {v : ElementValue} {bytes : Bytes} (h : v.write = .ok bytes) :
    0 < bytes.length := by
  cases v with
  | nested a =>
    rw [ElementValue.write] at h
    obtain ⟨a, ha, h⟩ := Writer.bind_eq_ok h
    cases h
    exact Nat.zero_lt_succ _
  | array values =>
    rw [ElementValue.write_array] at h
    obtain ⟨a, ha, h⟩ := Writer.bind_eq_ok h
    cases h
    exact Nat.zero_lt_succ _
  | _ =>
    rw [ElementValue.write] at h
    cases h
    exact Nat.zero_lt_succ _

mutual

theorem ElementValue.recovers (v : ElementValue) (hv : v.WellFormed) (depth : Nat) :
    Recovers depth (ElementValue.read depth) ElementValue.write v := by
  intro bytes h hlen rest
  obtain ⟨depth, rfl⟩ : ∃ k, depth = k + 1 :=
    Nat.exists_eq_succ_of_ne_zero (Nat.ne_of_gt (Nat.lt_of_lt_of_le (ElementValue.length_pos h) hlen))
  cases v with
  | const tag value =>
    rw [ElementValue.write] at h
    cases h
    rw [ElementValue.WellFormed] at hv
    refine bind_eq_ok.2 ⟨tag, Bytes.ofWord16 value ++ rest, rfl, ?_⟩
    rw [if_pos hv, bind_of_eq_ok (index_append _ _), pure_apply]
  | enumConst type name =>
    rw [ElementValue.write] at h
    cases h
    refine bind_eq_ok.2 ⟨ElementValue.enumTag,
      Bytes.ofWord16 type ++ (Bytes.ofWord16 name ++ rest), rfl, ?_⟩
    exact bind_eq_ok.2 ⟨type, _, index_append _ _, bind_of_eq_ok (index_append _ _)⟩
  | classLiteral descriptor =>
    rw [ElementValue.write] at h
    cases h
    exact bind_eq_ok.2 ⟨ElementValue.classTag, _, rfl, bind_of_eq_ok (index_append rest descriptor)⟩
  | nested a =>
    rw [ElementValue.write] at h
    obtain ⟨b, hb, h⟩ := Writer.bind_eq_ok h
    cases h
    rw [ElementValue.WellFormed] at hv
    exact bind_eq_ok.2 ⟨ElementValue.annotationTag, b ++ rest, rfl,
      bind_of_eq_ok (AnnotationInfo.recovers a hv depth hb (Nat.le_of_succ_le_succ hlen) rest)⟩
  | array values =>
    rw [ElementValue.write_array] at h
    obtain ⟨b, hb, h⟩ := Writer.bind_eq_ok h
    cases h
    rw [ElementValue.WellFormed] at hv
    have hvalues := Recovers.list16 (ElementValue.recoversAll values hv depth)
    exact bind_eq_ok.2 ⟨ElementValue.arrayTag, b ++ rest, rfl,
      bind_of_eq_ok (hvalues hb (Nat.le_of_succ_le_succ hlen) rest)⟩
termination_by structural v

theorem ElementValue.recoversAll (vs : List ElementValue) (hvs : ElementValue.AllWellFormed vs)
    (depth : Nat) : ∀ v ∈ vs, Recovers depth (ElementValue.read depth) ElementValue.write v := by
  cases vs with
  | nil => exact List.forall_mem_nil _
  | cons v vs =>
    rw [ElementValue.AllWellFormed] at hvs
    exact List.forall_mem_cons.2
      ⟨ElementValue.recovers v hvs.1 depth, ElementValue.recoversAll vs hvs.2 depth⟩
termination_by structural vs

theorem AnnotationInfo.recovers (a : AnnotationInfo) (ha : a.WellFormed) (depth : Nat) :
    Recovers depth (AnnotationInfo.read depth) AnnotationInfo.write a := by
  cases a with
  | mk type elements =>
    intro bytes h hlen rest
    rw [AnnotationInfo.write_eq] at h
    obtain ⟨b, hb, h⟩ := Writer.bind_eq_ok h
    cases h
    rw [AnnotationInfo.WellFormed] at ha
    rw [List.length_append] at hlen
    have helements := Recovers.list16 (AnnotationInfo.recoversElements elements ha depth) hb
      (by omega) rest
    rw [List.append_assoc]
    exact bind_eq_ok.2 ⟨type, b ++ rest, index_append _ _, bind_of_eq_ok helements⟩
termination_by structural a

theorem AnnotationInfo.recoversElements (es : List (Index × ElementValue))
    (hes : AnnotationInfo.ElementsWellFormed es) (depth : Nat) :
    ∀ e ∈ es, Recovers depth (do return (← index, ← ElementValue.read depth))
      AnnotationInfo.writeElement e := by
  cases es with
  | nil => exact List.forall_mem_nil _
  | cons e es =>
    cases e with
    | mk name v =>
      rw [AnnotationInfo.ElementsWellFormed] at hes
      refine List.forall_mem_cons.2 ⟨?_, AnnotationInfo.recoversElements es hes.2 depth⟩
      intro bytes h hlen rest
      obtain ⟨b, hb, h⟩ := Writer.bind_eq_ok h
      cases h
      rw [List.length_append] at hlen
      have hv := ElementValue.recovers v hes.1 depth hb (by omega) rest
      rw [List.append_assoc]
      exact bind_eq_ok.2 ⟨name, b ++ rest, index_append _ _, bind_of_eq_ok hv⟩
termination_by structural es

end

/-! ## Annotations on types -/

theorem LocalVarTarget.recovers {n : Nat} (t : LocalVarTarget) :
    Recovers n LocalVarTarget.read LocalVarTarget.write t := by
  intro bytes h _ rest
  cases h
  rw [List.append_assoc, List.append_assoc, LocalVarTarget.read, bind_of_eq_ok (u16_append _ _),
    bind_of_eq_ok (u16_append _ _), bind_of_eq_ok (u16_append _ _), pure_apply]

theorem PathStep.recovers {n : Nat} (s : PathStep) :
    Recovers n PathStep.read PathStep.write s := by
  intro bytes h _ rest
  cases h
  rfl

theorem Target.recovers {n : Nat} {type : UInt8} {t : Target} (ht : t.Fits type) :
    Recovers n (Target.read type) Target.write t := by
  intro bytes h hlen rest
  cases t with
  | typeParameter index =>
    cases h
    rw [Target.Fits] at ht
    rw [Target.read, if_pos ht]
    rfl
  | supertype index =>
    cases h
    cases ht
    exact bind_of_eq_ok (u16_append rest index)
  | typeParameterBound parameter bound =>
    cases h
    rcases ht with rfl | rfl <;> rfl
  | empty =>
    cases h
    rw [Target.Fits] at ht
    rw [Target.read, if_neg (by grind), if_neg (by grind), if_neg (by grind), if_pos ht]
    rfl
  | formalParameter index =>
    cases h
    cases ht
    rfl
  | thrown index =>
    cases h
    cases ht
    exact bind_of_eq_ok (u16_append rest index)
  | localVar ranges =>
    have hranges := Recovers.list16 (fun r _ => LocalVarTarget.recovers r) h hlen rest
    rcases ht with rfl | rfl <;> exact bind_of_eq_ok hranges
  | caught handler =>
    cases h
    cases ht
    exact bind_of_eq_ok (u16_append rest handler)
  | offset offset =>
    cases h
    rw [Target.Fits] at ht
    rw [Target.read, if_neg (by grind), if_neg (by grind), if_neg (by grind), if_neg (by grind),
      if_neg (by grind), if_neg (by grind), if_neg (by grind), if_neg (by grind), if_pos ht]
    exact bind_of_eq_ok (u16_append rest offset)
  | typeArgument offset index =>
    cases h
    rw [Target.Fits] at ht
    rw [Target.read, if_neg (by grind), if_neg (by grind), if_neg (by grind), if_neg (by grind),
      if_neg (by grind), if_neg (by grind), if_neg (by grind), if_neg (by grind),
      if_neg (by grind), if_pos ht, List.append_assoc, bind_of_eq_ok (u16_append _ _)]
    rfl

theorem TypeAnnotationInfo.recovers {a : TypeAnnotationInfo} (ha : a.WellFormed) (depth : Nat) :
    Recovers depth (TypeAnnotationInfo.read depth) TypeAnnotationInfo.write a := by
  intro bytes h hlen rest
  obtain ⟨target, ht, h⟩ := Writer.bind_eq_ok h
  obtain ⟨path, hp, h⟩ := Writer.bind_eq_ok h
  obtain ⟨info, hi, h⟩ := Writer.bind_eq_ok h
  cases h
  simp only [List.length_append, List.length_cons] at hlen
  have htarget := Target.recovers ha.1 ht (Nat.le_refl _) (path ++ (info ++ rest))
  have hpath := Recovers.list8 (fun s _ => PathStep.recovers s) hp (Nat.le_refl _) (info ++ rest)
  have hinfo := AnnotationInfo.recovers a.info ha.2 depth hi (by omega) rest
  refine bind_eq_ok.2 ⟨a.targetType, target ++ (path ++ (info ++ rest)), by simp [u8], ?_⟩
  rw [bind_of_eq_ok htarget, bind_of_eq_ok hpath, bind_of_eq_ok hinfo, pure_apply]

/-! ## Attributes -/

theorem Handler.recovers {n : Nat} {h : Handler} (hh : h.WellFormed) :
    Recovers n Handler.read Handler.write h := by
  intro bytes hw _ rest
  cases hw
  simp only [List.append_assoc]
  rw [Handler.read, bind_of_eq_ok (u16_append _ _), bind_of_eq_ok (u16_append _ _),
    bind_of_eq_ok (u16_append _ _), bind_of_eq_ok (optionalIndex_append _ hh), pure_apply]

theorem InnerClass.recovers {n : Nat} {c : InnerClass} (hc : c.WellFormed) :
    Recovers n InnerClass.read InnerClass.write c := by
  intro bytes hw _ rest
  cases hw
  simp only [List.append_assoc]
  rw [InnerClass.read, bind_of_eq_ok (index_append _ _),
    bind_of_eq_ok (optionalIndex_append _ hc.1), bind_of_eq_ok (optionalIndex_append _ hc.2),
    bind_of_eq_ok (u16_append _ _), pure_apply]

theorem LocalVariable.recovers {n : Nat} (v : LocalVariable) :
    Recovers n LocalVariable.read LocalVariable.write v := by
  intro bytes hw _ rest
  cases hw
  simp only [List.append_assoc]
  rw [LocalVariable.read, bind_of_eq_ok (u16_append _ _), bind_of_eq_ok (u16_append _ _),
    bind_of_eq_ok (index_append _ _), bind_of_eq_ok (index_append _ _),
    bind_of_eq_ok (u16_append _ _), pure_apply]

/-- A name that is not known leads to the bytes as they are. -/
theorem AttributeBody.readWith_of_not_mem {inner : Reader Attribute} {depth : Nat} {name : String}
    (h : name ∉ labels) : readWith inner depth name = fun bytes => .ok (.other bytes, []) := by
  unfold readWith
  split <;> first | rfl | exact absurd (by decide) h

theorem Code.recovers_of_inner {inner : Reader Attribute} {depth : Nat} {c : Code}
    (hhandlers : ∀ h ∈ c.handlers, h.WellFormed)
    (hinner : ∀ a ∈ c.attributes, Recovers depth inner Attribute.write a) :
    Recovers depth (Code.readWith inner) Code.write c := by
  intro bytes h hlen rest
  obtain ⟨maxStack, maxLocals, instructions, hs, as⟩ := c
  rw [Code.write_eq] at h
  obtain ⟨length, hl, h⟩ := Writer.bind_eq_ok h
  obtain ⟨handlers, hh, h⟩ := Writer.bind_eq_ok h
  obtain ⟨attributes, ha, h⟩ := Writer.bind_eq_ok h
  cases h
  simp only [List.length_append] at hlen
  have hhandlers := Recovers.list16 (fun h hh => Handler.recovers (hhandlers h hh)) hh
    (Nat.le_refl _) (attributes ++ rest)
  have hattributes := Recovers.list16 hinner ha (by omega) rest
  simp only [List.append_assoc]
  rw [Code.readWith, bind_of_eq_ok (u16_append _ _), bind_of_eq_ok (u16_append _ _),
    bind_of_eq_ok (u32_append _ _), Writer.toNat_of_length32 hl,
    bind_of_eq_ok (blob_append _ _), bind_of_eq_ok hhandlers,
    bind_of_eq_ok hattributes, pure_apply]

mutual

theorem Attribute.recovers (p : Pool) (a : Attribute) (ha : a.WellFormed p) (depth : Nat) :
    Recovers depth (Attribute.read p depth) Attribute.write a := by
  cases a with
  | mk name body =>
    intro bytes h hlen rest
    rw [Attribute.write] at h
    obtain ⟨b, hb, h⟩ := Writer.bind_eq_ok h
    obtain ⟨length, hl, h⟩ := Writer.bind_eq_ok h
    cases h
    simp only [List.length_append] at hlen
    have hlength := Writer.toNat_of_length32 hl
    have hhead : (Bytes.ofWord16 name).length = 2 := rfl
    obtain ⟨depth, rfl⟩ : ∃ k, depth = k + 1 := Nat.exists_eq_succ_of_ne_zero (by omega)
    rw [Attribute.WellFormed] at ha
    obtain ⟨⟨text, hname, hfits⟩, hbody⟩ := ha
    have hread := AttributeBody.recovers p body hbody depth hb (by omega) hfits
    have hblob := blob_append rest b
    rw [← hlength] at hread hblob
    rw [Attribute.read]
    simp only [List.append_assoc]
    rw [bind_of_eq_ok (index_append _ _), bind_of_eq_ok (u32_append _ _), bind_of_eq_ok hblob,
      bind_of_eq_ok (lift_eq_ok.2 ⟨Pool.utf8_eq_ok.2 hname, rfl⟩),
      bind_of_eq_ok (lift_eq_ok.2 ⟨hread, rfl⟩)]
    rfl
termination_by structural a

theorem AttributeBody.recovers (p : Pool) (body : AttributeBody) (hbody : body.WellFormed p)
    (depth : Nat) {bytes : Bytes} (h : body.write = .ok bytes) (hlen : bytes.length ≤ depth)
    {name : String} (hname : body.Fits name) :
    AttributeBody.readWith (Attribute.read p depth) bytes.length name bytes = .ok (body, []) := by
  cases body with
  | constantValue i =>
    cases hname
    rw [AttributeBody.write] at h
    exact bind_of_eq_ok ((index_recovers i).whole h hlen)
  | code c =>
    cases hname
    rw [AttributeBody.write] at h
    rw [AttributeBody.WellFormed] at hbody
    exact bind_of_eq_ok ((Code.recovers p c hbody depth).whole h hlen)
  | stackMapTable frames =>
    cases hname
    rw [AttributeBody.write] at h
    rw [AttributeBody.WellFormed] at hbody
    exact bind_of_eq_ok ((Recovers.list16 fun f hf => Frame.recovers (hbody f hf)).whole h hlen)
  | exceptions classes =>
    cases hname
    rw [AttributeBody.write] at h
    exact bind_of_eq_ok ((Recovers.list16 fun i _ => index_recovers i).whole h hlen)
  | innerClasses classes =>
    cases hname
    rw [AttributeBody.write] at h
    rw [AttributeBody.WellFormed] at hbody
    exact bind_of_eq_ok ((Recovers.list16 fun c hc => InnerClass.recovers (hbody c hc)).whole h hlen)
  | enclosingMethod owner method =>
    cases hname
    rw [AttributeBody.write] at h
    rw [AttributeBody.WellFormed] at hbody
    cases h
    have hmethod := optionalIndex_append [] hbody
    rw [List.append_nil] at hmethod
    exact bind_eq_ok.2 ⟨owner, _, index_append _ _, bind_of_eq_ok hmethod⟩
  | signature text =>
    cases hname
    rw [AttributeBody.write] at h
    exact bind_of_eq_ok ((index_recovers text).whole h hlen)
  | localVariableTable vars =>
    cases hname
    rw [AttributeBody.write] at h
    exact bind_of_eq_ok ((Recovers.list16 fun v _ => LocalVariable.recovers v).whole h hlen)
  | localVariableTypeTable vars =>
    cases hname
    rw [AttributeBody.write] at h
    exact bind_of_eq_ok ((Recovers.list16 fun v _ => LocalVariable.recovers v).whole h hlen)
  | annotations retention as =>
    rw [AttributeBody.write] at h
    rw [AttributeBody.WellFormed] at hbody
    have has := Recovers.list16 fun a ha => AnnotationInfo.recovers a (hbody a ha) bytes.length
    cases retention <;> cases hname <;> exact bind_of_eq_ok (has.whole h (Nat.le_refl _))
  | parameterAnnotations retention ps =>
    rw [AttributeBody.write] at h
    rw [AttributeBody.WellFormed] at hbody
    have hps := Recovers.list8 fun as has => Recovers.list16 fun a ha =>
      AnnotationInfo.recovers a (hbody as has a ha) bytes.length
    cases retention <;> cases hname <;> exact bind_of_eq_ok (hps.whole h (Nat.le_refl _))
  | typeAnnotations retention as =>
    rw [AttributeBody.write] at h
    rw [AttributeBody.WellFormed] at hbody
    have has := Recovers.list16 fun a ha => TypeAnnotationInfo.recovers (hbody a ha) bytes.length
    cases retention <;> cases hname <;> exact bind_of_eq_ok (has.whole h (Nat.le_refl _))
  | annotationDefault value =>
    cases hname
    rw [AttributeBody.write] at h
    rw [AttributeBody.WellFormed] at hbody
    have hvalue := ElementValue.recovers value hbody bytes.length
    exact bind_of_eq_ok (hvalue.whole h (Nat.le_refl _))
  | nestHost host =>
    cases hname
    rw [AttributeBody.write] at h
    exact bind_of_eq_ok ((index_recovers host).whole h hlen)
  | nestMembers classes =>
    cases hname
    rw [AttributeBody.write] at h
    exact bind_of_eq_ok ((Recovers.list16 fun i _ => index_recovers i).whole h hlen)
  | other kept =>
    rw [AttributeBody.write] at h
    cases h
    rw [AttributeBody.readWith_of_not_mem hname]
termination_by structural body

theorem Code.recovers (p : Pool) (c : Code) (hc : c.WellFormed p) (depth : Nat) :
    Recovers depth (Code.read p depth) Code.write c := by
  cases c with
  | mk maxStack maxLocals instructions handlers attributes =>
    rw [Code.WellFormed] at hc
    exact Code.recovers_of_inner hc.1 (Attribute.recoversAll p attributes hc.2 depth)
termination_by structural c

theorem Attribute.recoversAll (p : Pool) (as : List Attribute)
    (has : Attribute.AllWellFormed p as) (depth : Nat) :
    ∀ a ∈ as, Recovers depth (Attribute.read p depth) Attribute.write a := by
  cases as with
  | nil => exact List.forall_mem_nil _
  | cons a as =>
    rw [Attribute.AllWellFormed] at has
    exact List.forall_mem_cons.2
      ⟨Attribute.recovers p a has.1 depth, Attribute.recoversAll p as has.2 depth⟩
termination_by structural as

end

end Repackage
