import Repackage.ClassFile.Basic
import Repackage.Proofs.Encoding.Attributes
import Repackage.Proofs.Encoding.Constants

/-!
# The skeleton of a class file

The skeleton of a part of a class file is the part without the texts that renaming may exchange:
texts of the pool are empty and the indices of texts that name types are zero. All else is kept,
so two parts with one skeleton differ in those texts and indices only.

An index takes two bytes whatever it is. Hence parts with one skeleton have the same length, and
the bytes tell them apart (`Writer.Alike`).
-/

namespace Repackage

/-! ## Skeletons -/

mutual

def ElementValue.skeleton : ElementValue → ElementValue
  | .const tag value => .const tag value
  | .enumConst _ name => .enumConst 0 name
  | .classLiteral _ => .classLiteral 0
  | .nested a => .nested a.skeleton
  | .array values => .array (ElementValue.skeletons values)

def ElementValue.skeletons : List ElementValue → List ElementValue
  | [] => []
  | v :: vs => v.skeleton :: ElementValue.skeletons vs

def AnnotationInfo.skeleton : AnnotationInfo → AnnotationInfo
  | ⟨_, elements⟩ => ⟨0, AnnotationInfo.elementSkeletons elements⟩

def AnnotationInfo.elementSkeletons : List (Index × ElementValue) → List (Index × ElementValue)
  | [] => []
  | (name, v) :: rest => (name, v.skeleton) :: AnnotationInfo.elementSkeletons rest

end

def TypeAnnotationInfo.skeleton (a : TypeAnnotationInfo) : TypeAnnotationInfo :=
  { a with info := a.info.skeleton }

def LocalVariable.skeleton (v : LocalVariable) : LocalVariable := { v with type := 0 }

mutual

def Attribute.skeleton : Attribute → Attribute
  | ⟨name, body⟩ => ⟨name, body.skeleton⟩

def AttributeBody.skeleton : AttributeBody → AttributeBody
  | .code c => .code c.skeleton
  | .signature _ => .signature 0
  | .localVariableTable vars => .localVariableTable (vars.map LocalVariable.skeleton)
  | .localVariableTypeTable vars => .localVariableTypeTable (vars.map LocalVariable.skeleton)
  | .annotations retention as => .annotations retention (as.map AnnotationInfo.skeleton)
  | .parameterAnnotations retention ps =>
    .parameterAnnotations retention (ps.map (·.map AnnotationInfo.skeleton))
  | .typeAnnotations retention as =>
    .typeAnnotations retention (as.map TypeAnnotationInfo.skeleton)
  | .annotationDefault value => .annotationDefault value.skeleton
  | body => body

def Code.skeleton : Code → Code
  | ⟨maxStack, maxLocals, instructions, handlers, attributes⟩ =>
    ⟨maxStack, maxLocals, instructions, handlers, Attribute.skeletons attributes⟩

def Attribute.skeletons : List Attribute → List Attribute
  | [] => []
  | a :: rest => a.skeleton :: Attribute.skeletons rest

end

def Member.skeleton (m : Member) : Member :=
  { m with descriptor := 0, attributes := Attribute.skeletons m.attributes }

def Constant.skeleton : Constant → Constant
  | .utf8 _ => .utf8 ""
  | .classInfo _ => .classInfo 0
  | .string _ => .string 0
  | .methodType _ => .methodType 0
  | .nameAndType name _ => .nameAndType name 0
  | c => c

theorem Constant.width_skeleton (c : Constant) : c.skeleton.width = c.width := by
  cases c <;> rfl

/-- The memory of texts is no part of what is written. -/
def Pool.skeleton (p : Pool) : Pool := ⟨p.table.map Constant.skeleton Constant.width_skeleton, ∅⟩

def ClassFile.skeleton (c : ClassFile) : ClassFile :=
  { c with
    constants := c.constants.skeleton
    fields := c.fields.map Member.skeleton
    methods := c.methods.map Member.skeleton
    attributes := Attribute.skeletons c.attributes }

/-! ## Pieces -/

namespace Writer

variable {α β γ : Type} {w : α → Written} {v : β → Written} {u : γ → Written} {x x' : α}
  {y y' : β} {z z' : γ}

/-- The bytes of two values are equally many, and if they are the same so are the values. -/
def Alike (w : α → Written) (x y : α) : Prop :=
  ∀ ⦃a b⦄, w x = .ok a → w y = .ok b → a.length = b.length ∧ (a = b → x = y)

theorem Alike.refl (w : α → Written) (x : α) : Alike w x x := by
  intro a b ha hb
  cases ha.symm.trans hb
  exact ⟨rfl, fun _ => rfl⟩

theorem Alike.map {f : α → γ} (h : Alike w x x') (hu : ∀ x, u (f x) = w x) :
    Alike u (f x) (f x') := by
  intro a b ha hb
  obtain ⟨hlen, heq⟩ := h ((hu x).symm.trans ha) ((hu x').symm.trans hb)
  exact ⟨hlen, fun e => congrArg f (heq e)⟩

/-- Two things written one after the other. -/
theorem Alike.append (hx : Alike w x x') (hy : Alike v y y')
    (hz : u z = (do let a ← w x; let b ← v y; return a ++ b))
    (hz' : u z' = (do let a ← w x'; let b ← v y'; return a ++ b))
    (hinj : x = x' → y = y' → z = z') : Alike u z z' := by
  intro a b ha hb
  obtain ⟨a₁, ha₁, ha⟩ := bind_eq_ok (hz.symm.trans ha)
  obtain ⟨a₂, ha₂, ha⟩ := bind_eq_ok ha
  obtain ⟨b₁, hb₁, hb⟩ := bind_eq_ok (hz'.symm.trans hb)
  obtain ⟨b₂, hb₂, hb⟩ := bind_eq_ok hb
  cases ha
  cases hb
  obtain ⟨hlen₁, heq₁⟩ := hx ha₁ hb₁
  obtain ⟨hlen₂, heq₂⟩ := hy ha₂ hb₂
  refine ⟨by rw [List.length_append, List.length_append, hlen₁, hlen₂], fun e => ?_⟩
  obtain ⟨e₁, e₂⟩ := List.append_inj e hlen₁
  exact hinj (heq₁ e₁) (heq₂ e₂)

/-- Something written after bytes that are the same. -/
theorem Alike.after {p : Written} (hy : Alike v y y')
    (hz : u z = (do let a ← p; let b ← v y; return a ++ b))
    (hz' : u z' = (do let a ← p; let b ← v y'; return a ++ b))
    (hinj : y = y' → z = z') : Alike u z z' :=
  (Alike.refl (fun _ : Unit => p) ()).append hy hz hz' fun _ => hinj

theorem alike_word16 (i j : UInt16) : Alike (fun i => .ok (Bytes.ofWord16 i)) i j := by
  intro a b ha hb
  cases ha
  cases hb
  exact ⟨rfl, Bytes.ofWord16_inj⟩

/-- Bytes that differ in one index. -/
theorem Alike.ofIndex {p q : Bytes} {i j : Index}
    (hz : u z = .ok (p ++ Bytes.ofWord16 i ++ q))
    (hz' : u z' = .ok (p ++ Bytes.ofWord16 j ++ q)) (hinj : i = j → z = z') :
    Alike u z z' := by
  intro a b ha hb
  cases hz.symm.trans ha
  cases hz'.symm.trans hb
  refine ⟨by simp [Bytes.ofWord16], fun e => hinj (Bytes.ofWord16_inj ?_)⟩
  exact List.append_cancel_left (List.append_cancel_right e)

theorem Alike.items {k : α → β} {xs ys : List α}
    (h : ∀ x ∈ xs, ∀ y, k x = k y → Alike w x y) (hk : xs.map k = ys.map k) :
    Alike (Writer.items w) xs ys := by
  induction xs generalizing ys with
  | nil =>
    cases ys with
    | nil => exact .refl _ _
    | cons y ys => cases hk
  | cons x xs ih =>
    cases ys with
    | nil => cases hk
    | cons y ys =>
      obtain ⟨hx, hxs⟩ := List.cons.inj hk
      refine (h x List.mem_cons_self y hx).append
        (ih (fun x hx => h x (List.mem_cons_of_mem _ hx)) hxs) (items_cons x xs)
        (items_cons y ys) ?_
      rintro rfl rfl
      rfl

variable {xs ys : List α}

theorem Alike.list16 (h : Alike (Writer.items w) xs ys) (hlen : xs.length = ys.length) :
    Alike (Writer.list16 w) xs ys := by
  refine h.after (p := do return Bytes.ofWord16 (← length16 xs.length)) ?_ ?_ id
  · simp [Writer.list16]
  · simp [Writer.list16, hlen]

theorem Alike.list8 (h : Alike (Writer.items w) xs ys) (hlen : xs.length = ys.length) :
    Alike (Writer.list8 w) xs ys := by
  refine h.after (p := do return [← length8 xs.length]) ?_ ?_ id
  · simp [Writer.list8]
  · simp [Writer.list8, hlen]

theorem length_eq_of_map_eq {k : α → β} (h : xs.map k = ys.map k) : xs.length = ys.length := by
  simpa using congrArg List.length h

theorem Alike.mapped16 {k : α → β} (h : ∀ x ∈ xs, ∀ y, k x = k y → Alike w x y)
    (hk : xs.map k = ys.map k) : Alike (Writer.list16 w) xs ys :=
  (Alike.items h hk).list16 (length_eq_of_map_eq hk)

end Writer

/-! ## Annotations -/

open Writer (Alike)

theorem ElementValue.skeletons_eq_map (vs : List ElementValue) :
    ElementValue.skeletons vs = vs.map ElementValue.skeleton := by
  induction vs with
  | nil => rfl
  | cons v vs ih => rw [ElementValue.skeletons, List.map_cons, ih]

theorem AnnotationInfo.elementSkeletons_eq_map (es : List (Index × ElementValue)) :
    AnnotationInfo.elementSkeletons es = es.map fun e => (e.1, e.2.skeleton) := by
  induction es with
  | nil => rfl
  | cons e es ih => rw [AnnotationInfo.elementSkeletons, List.map_cons, ih]

mutual

theorem ElementValue.alike (v v' : ElementValue) (h : v.skeleton = v'.skeleton) :
    Alike ElementValue.write v v' := by
  cases v with
  | const tag value =>
    cases v' <;> cases h
    exact .refl _ _
  | enumConst type name =>
    cases v' <;> cases h
    exact .ofIndex (p := [ElementValue.enumTag]) (q := Bytes.ofWord16 name)
      (by rw [ElementValue.write]; rfl) (by rw [ElementValue.write]; rfl) (by rintro rfl; rfl)
  | classLiteral descriptor =>
    cases v' <;> cases h
    exact .ofIndex (p := [ElementValue.classTag]) (q := [])
      (by rw [ElementValue.write]; rfl) (by rw [ElementValue.write]; rfl) (by rintro rfl; rfl)
  | nested a =>
    cases v' with
    | nested a' =>
      simp only [ElementValue.skeleton, ElementValue.nested.injEq] at h
      exact (AnnotationInfo.alike a a' h).after (p := .ok [ElementValue.annotationTag])
        (by rw [ElementValue.write]; rfl) (by rw [ElementValue.write]; rfl) (congrArg _)
    | _ => cases h
  | array vs =>
    cases v' with
    | array vs' =>
      simp only [ElementValue.skeleton, ElementValue.array.injEq] at h
      have hlen : vs.length = vs'.length := Writer.length_eq_of_map_eq (by
        simpa only [ElementValue.skeletons_eq_map] using h)
      exact ((ElementValue.alikeAll vs vs' h).list16 hlen).after
        (p := .ok [ElementValue.arrayTag]) (ElementValue.write_array vs)
        (ElementValue.write_array vs') (congrArg _)
    | _ => cases h
termination_by structural v

theorem ElementValue.alikeAll (vs vs' : List ElementValue)
    (h : ElementValue.skeletons vs = ElementValue.skeletons vs') :
    Alike (Writer.items ElementValue.write) vs vs' := by
  cases vs with
  | nil =>
    cases vs' <;> cases h
    exact .refl _ _
  | cons v vs =>
    cases vs' with
    | nil => cases h
    | cons v' vs' =>
      simp only [ElementValue.skeletons, List.cons.injEq] at h
      exact (ElementValue.alike v v' h.1).append (ElementValue.alikeAll vs vs' h.2)
        (Writer.items_cons v vs) (Writer.items_cons v' vs') (by rintro rfl rfl; rfl)
termination_by structural vs

theorem AnnotationInfo.alike (a a' : AnnotationInfo) (h : a.skeleton = a'.skeleton) :
    Alike AnnotationInfo.write a a' := by
  cases a with
  | mk type elements =>
    obtain ⟨type', elements'⟩ := a'
    simp only [AnnotationInfo.skeleton, AnnotationInfo.mk.injEq, true_and] at h
    have hlen : elements.length = elements'.length := Writer.length_eq_of_map_eq (by
      simpa only [AnnotationInfo.elementSkeletons_eq_map] using h)
    exact (Writer.alike_word16 type type').append
      ((AnnotationInfo.alikeElements elements elements' h).list16 hlen)
      (AnnotationInfo.write_eq ⟨type, elements⟩) (AnnotationInfo.write_eq ⟨type', elements'⟩)
      (by rintro rfl rfl; rfl)
termination_by structural a

theorem AnnotationInfo.alikeElements (es es' : List (Index × ElementValue))
    (h : AnnotationInfo.elementSkeletons es = AnnotationInfo.elementSkeletons es') :
    Alike (Writer.items AnnotationInfo.writeElement) es es' := by
  cases es with
  | nil =>
    cases es' <;> cases h
    exact .refl _ _
  | cons e es =>
    cases es' with
    | nil => cases h
    | cons e' es' =>
      obtain ⟨name, v⟩ := e
      obtain ⟨name', v'⟩ := e'
      simp only [AnnotationInfo.elementSkeletons, List.cons.injEq, Prod.mk.injEq] at h
      obtain ⟨⟨rfl, hv⟩, hes⟩ := h
      have he : Alike AnnotationInfo.writeElement (name, v) (name, v') :=
        (ElementValue.alike v v' hv).after (p := .ok (Bytes.ofWord16 name)) rfl rfl
          (congrArg _)
      exact he.append (AnnotationInfo.alikeElements es es' hes) (Writer.items_cons _ es)
        (Writer.items_cons _ es') (by rintro h rfl; cases h; rfl)
termination_by structural es

end

theorem TypeAnnotationInfo.alike {a a' : TypeAnnotationInfo} (h : a.skeleton = a'.skeleton) :
    Alike TypeAnnotationInfo.write a a' := by
  obtain ⟨targetType, target, path, info⟩ := a
  obtain ⟨targetType', target', path', info'⟩ := a'
  simp only [TypeAnnotationInfo.skeleton, TypeAnnotationInfo.mk.injEq] at h
  obtain ⟨rfl, rfl, rfl, hinfo⟩ := h
  refine (AnnotationInfo.alike info info' hinfo).after (p := do
    let target ← target.write
    let path ← Writer.list8 PathStep.write path
    return targetType :: target ++ path) ?_ ?_ (by rintro rfl; rfl)
  · simp [TypeAnnotationInfo.write]
  · simp [TypeAnnotationInfo.write]

theorem LocalVariable.alike {v v' : LocalVariable} (h : v.skeleton = v'.skeleton) :
    Alike LocalVariable.write v v' := by
  obtain ⟨start, length, name, type, index⟩ := v
  obtain ⟨start', length', name', type', index'⟩ := v'
  simp only [LocalVariable.skeleton, LocalVariable.mk.injEq, true_and] at h
  obtain ⟨rfl, rfl, rfl, rfl⟩ := h
  exact .ofIndex (p := Bytes.ofWord16 start ++ Bytes.ofWord16 length ++ Bytes.ofWord16 name)
    (q := Bytes.ofWord16 index) rfl rfl (by rintro rfl; rfl)

/-! ## Attributes -/

theorem Attribute.skeletons_eq_map (as : List Attribute) :
    Attribute.skeletons as = as.map Attribute.skeleton := by
  induction as with
  | nil => rfl
  | cons a as ih => rw [Attribute.skeletons, List.map_cons, ih]

theorem Attribute.write_eq_ok {a : Attribute} {bytes : Bytes} (h : a.write = .ok bytes) :
    ∃ length body, a.body.write = .ok body ∧
      bytes = Bytes.ofWord16 a.name ++ Bytes.ofWord32 length ++ body := by
  obtain ⟨name, body⟩ := a
  rw [Attribute.write] at h
  obtain ⟨b, hb, h⟩ := Writer.bind_eq_ok h
  obtain ⟨length, -, h⟩ := Writer.bind_eq_ok h
  cases h
  exact ⟨length, b, hb, rfl⟩

mutual

theorem Attribute.alike (a a' : Attribute) (h : a.skeleton = a'.skeleton) :
    Alike Attribute.write a a' := by
  cases a with
  | mk name body =>
    obtain ⟨name', body'⟩ := a'
    simp only [Attribute.skeleton, Attribute.mk.injEq] at h
    obtain ⟨rfl, hbody⟩ := h
    intro x y hx hy
    obtain ⟨m, b, hb, rfl⟩ := Attribute.write_eq_ok hx
    obtain ⟨n, b', hb', rfl⟩ := Attribute.write_eq_ok hy
    obtain ⟨hlen, heq⟩ := AttributeBody.alike body body' hbody hb hb'
    refine ⟨by simp [Bytes.ofWord32, Bytes.ofWord16, hlen], fun e => ?_⟩
    rw [heq (List.append_inj e (by simp [Bytes.ofWord32, Bytes.ofWord16])).2]
termination_by structural a

theorem AttributeBody.alike (b b' : AttributeBody) (h : b.skeleton = b'.skeleton) :
    Alike AttributeBody.write b b' := by
  cases b with
  | code c =>
    cases b' with
    | code c' =>
      simp only [AttributeBody.skeleton, AttributeBody.code.injEq] at h
      exact (Code.alike c c' h).map fun c => by rw [AttributeBody.write]
    | _ => cases h
  | signature text =>
    cases b' with
    | signature text' =>
      exact (Writer.alike_word16 text text').map fun _ => by rw [AttributeBody.write]
    | _ => cases h
  | localVariableTable vars =>
    cases b' with
    | localVariableTable vars' =>
      simp only [AttributeBody.skeleton, AttributeBody.localVariableTable.injEq] at h
      exact (Alike.mapped16 (fun _ _ _ => LocalVariable.alike) h).map fun _ => by
        rw [AttributeBody.write]
    | _ => cases h
  | localVariableTypeTable vars =>
    cases b' with
    | localVariableTypeTable vars' =>
      simp only [AttributeBody.skeleton, AttributeBody.localVariableTypeTable.injEq] at h
      exact (Alike.mapped16 (fun _ _ _ => LocalVariable.alike) h).map fun _ => by
        rw [AttributeBody.write]
    | _ => cases h
  | annotations retention as =>
    cases b' with
    | annotations retention' as' =>
      simp only [AttributeBody.skeleton, AttributeBody.annotations.injEq] at h
      obtain ⟨rfl, h⟩ := h
      exact (Alike.mapped16 (fun a _ => AnnotationInfo.alike a) h).map fun _ => by
        rw [AttributeBody.write]
    | _ => cases h
  | parameterAnnotations retention ps =>
    cases b' with
    | parameterAnnotations retention' ps' =>
      simp only [AttributeBody.skeleton, AttributeBody.parameterAnnotations.injEq] at h
      obtain ⟨rfl, h⟩ := h
      have hitems := Alike.items
        (fun _ _ _ => Alike.mapped16 (fun a _ => AnnotationInfo.alike a)) h
      exact (hitems.list8 (Writer.length_eq_of_map_eq h)).map fun _ => by
        rw [AttributeBody.write, ParameterAnnotations.write]
    | _ => cases h
  | typeAnnotations retention as =>
    cases b' with
    | typeAnnotations retention' as' =>
      simp only [AttributeBody.skeleton, AttributeBody.typeAnnotations.injEq] at h
      obtain ⟨rfl, h⟩ := h
      exact (Alike.mapped16 (fun _ _ _ => TypeAnnotationInfo.alike) h).map fun _ => by
        rw [AttributeBody.write]
    | _ => cases h
  | annotationDefault value =>
    cases b' with
    | annotationDefault value' =>
      simp only [AttributeBody.skeleton, AttributeBody.annotationDefault.injEq] at h
      exact (ElementValue.alike value value' h).map fun _ => by rw [AttributeBody.write]
    | _ => cases h
  | _ => cases b' <;> cases h <;> exact .refl _ _
termination_by structural b

theorem Code.alike (c c' : Code) (h : c.skeleton = c'.skeleton) : Alike Code.write c c' := by
  cases c with
  | mk maxStack maxLocals instructions handlers attributes =>
    obtain ⟨maxStack', maxLocals', instructions', handlers', attributes'⟩ := c'
    simp only [Code.skeleton, Code.mk.injEq] at h
    obtain ⟨rfl, rfl, rfl, rfl, h⟩ := h
    have hlen : attributes.length = attributes'.length := Writer.length_eq_of_map_eq (by
      simpa only [Attribute.skeletons_eq_map] using h)
    refine ((Attribute.alikeAll attributes attributes' h).list16 hlen).after (p := do
      let length ← Writer.length32 instructions.length
      let handlers ← Writer.list16 Handler.write handlers
      return Bytes.ofWord16 maxStack ++ Bytes.ofWord16 maxLocals ++ Bytes.ofWord32 length
        ++ instructions ++ handlers) ?_ ?_ (by rintro rfl; rfl)
    · simp only [Code.write_eq, bind_assoc, pure_bind]
    · simp only [Code.write_eq, bind_assoc, pure_bind]
termination_by structural c

theorem Attribute.alikeAll (as as' : List Attribute)
    (h : Attribute.skeletons as = Attribute.skeletons as') :
    Alike (Writer.items Attribute.write) as as' := by
  cases as with
  | nil =>
    cases as' <;> cases h
    exact .refl _ _
  | cons a as =>
    cases as' with
    | nil => cases h
    | cons a' as' =>
      simp only [Attribute.skeletons, List.cons.injEq] at h
      exact (Attribute.alike a a' h.1).append (Attribute.alikeAll as as' h.2)
        (Writer.items_cons a as) (Writer.items_cons a' as') (by rintro rfl rfl; rfl)
termination_by structural as

end

theorem Attribute.alike_list16 {as as' : List Attribute}
    (h : Attribute.skeletons as = Attribute.skeletons as') :
    Alike (Writer.list16 Attribute.write) as as' :=
  (Attribute.alikeAll as as' h).list16 (Writer.length_eq_of_map_eq (by
    simpa only [Attribute.skeletons_eq_map] using h))

theorem Member.alike {m m' : Member} (h : m.skeleton = m'.skeleton) :
    Alike Member.write m m' := by
  obtain ⟨access, name, descriptor, attributes⟩ := m
  obtain ⟨access', name', descriptor', attributes'⟩ := m'
  simp only [Member.skeleton, Member.mk.injEq, true_and] at h
  obtain ⟨rfl, rfl, h⟩ := h
  refine ((Writer.alike_word16 descriptor descriptor').after
    (u := fun i => .ok (Bytes.ofWord16 access ++ Bytes.ofWord16 name ++ Bytes.ofWord16 i))
    (p := .ok (Bytes.ofWord16 access ++ Bytes.ofWord16 name)) rfl rfl id).append
    (Attribute.alike_list16 h) ?_ ?_ (by rintro rfl rfl; rfl)
  · rfl
  · rfl

end Repackage
