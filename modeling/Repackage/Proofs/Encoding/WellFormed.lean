import Repackage.Proofs.Encoding.ClassFile
import Repackage.Proofs.Pool.Layout

/-!
# Well-formed class files

Some models are not the reading of any bytes: a frame with an offset that its short form has no
room for, a target of another shape than its type says, an attribute under a name that is read in
another way. `ClassFile.WellFormed` leaves these out, and no others: all that is read is
well-formed (`ClassFile.wellFormed_of_read`).
-/

namespace Repackage

open Reader

/-! ## Well-formed parts -/

/-- The short frames have no room for larger offsets and counts. -/
def Frame.WellFormed : Frame → Prop
  | .same delta | .sameLocalsOneStack delta _ => delta ≤ 63
  | .chop _ chopped => 1 ≤ chopped ∧ chopped ≤ 3
  | .append _ locals => 1 ≤ locals.length ∧ locals.length ≤ 3
  | .sameLocalsOneStackExtended _ _ | .sameExtended _ | .full _ _ _ => True

mutual

def ElementValue.WellFormed : ElementValue → Prop
  | .const tag _ => ElementValue.isConstTag tag = true
  | .enumConst _ _ | .classLiteral _ => True
  | .nested a => a.WellFormed
  | .array values => ElementValue.AllWellFormed values

def ElementValue.AllWellFormed : List ElementValue → Prop
  | [] => True
  | v :: vs => v.WellFormed ∧ ElementValue.AllWellFormed vs

def AnnotationInfo.WellFormed : AnnotationInfo → Prop
  | ⟨_, elements⟩ => AnnotationInfo.ElementsWellFormed elements

def AnnotationInfo.ElementsWellFormed : List (Index × ElementValue) → Prop
  | [] => True
  | (_, v) :: rest => v.WellFormed ∧ AnnotationInfo.ElementsWellFormed rest

end

/-- The shape of a target is the one that its type calls for. -/
def Target.Fits (type : UInt8) : Target → Prop
  | .typeParameter _ => type ≤ 0x01
  | .supertype _ => type = 0x10
  | .typeParameterBound _ _ => type = 0x11 ∨ type = 0x12
  | .empty => 0x13 ≤ type ∧ type ≤ 0x15
  | .formalParameter _ => type = 0x16
  | .thrown _ => type = 0x17
  | .localVar _ => type = 0x40 ∨ type = 0x41
  | .caught _ => type = 0x42
  | .offset _ => 0x43 ≤ type ∧ type ≤ 0x46
  | .typeArgument _ _ => 0x47 ≤ type ∧ type ≤ 0x4B

def TypeAnnotationInfo.WellFormed (a : TypeAnnotationInfo) : Prop :=
  a.target.Fits a.targetType ∧ a.info.WellFormed

/-- An index that is there is not the one that stands for its absence. -/
def Handler.WellFormed (h : Handler) : Prop := h.catchType ≠ some 0

def InnerClass.WellFormed (c : InnerClass) : Prop := c.outer ≠ some 0 ∧ c.name ≠ some 0

namespace AttributeBody

/-- The name under which such a body is read, unless it is kept as bytes. -/
def label? : AttributeBody → Option String
  | .constantValue _ => some "ConstantValue"
  | .code _ => some "Code"
  | .stackMapTable _ => some "StackMapTable"
  | .exceptions _ => some "Exceptions"
  | .innerClasses _ => some "InnerClasses"
  | .enclosingMethod _ _ => some "EnclosingMethod"
  | .signature _ => some "Signature"
  | .localVariableTable _ => some "LocalVariableTable"
  | .localVariableTypeTable _ => some "LocalVariableTypeTable"
  | .annotations .visible _ => some "RuntimeVisibleAnnotations"
  | .annotations .invisible _ => some "RuntimeInvisibleAnnotations"
  | .parameterAnnotations .visible _ => some "RuntimeVisibleParameterAnnotations"
  | .parameterAnnotations .invisible _ => some "RuntimeInvisibleParameterAnnotations"
  | .typeAnnotations .visible _ => some "RuntimeVisibleTypeAnnotations"
  | .typeAnnotations .invisible _ => some "RuntimeInvisibleTypeAnnotations"
  | .annotationDefault _ => some "AnnotationDefault"
  | .nestHost _ => some "NestHost"
  | .nestMembers _ => some "NestMembers"
  | .other _ => none

/-- The names that are known. -/
def labels : List String :=
  ["ConstantValue", "Code", "StackMapTable", "Exceptions", "InnerClasses", "EnclosingMethod",
    "Signature", "LocalVariableTable", "LocalVariableTypeTable", "RuntimeVisibleAnnotations",
    "RuntimeInvisibleAnnotations", "RuntimeVisibleParameterAnnotations",
    "RuntimeInvisibleParameterAnnotations", "RuntimeVisibleTypeAnnotations",
    "RuntimeInvisibleTypeAnnotations", "AnnotationDefault", "NestHost", "NestMembers"]

/-- A body goes with the name it is read under; bytes go with every name that is not known. -/
def Fits (name : String) (body : AttributeBody) : Prop :=
  match body.label? with
  | some label => name = label
  | none => name ∉ labels

end AttributeBody

mutual

def Attribute.WellFormed (p : Pool) : Attribute → Prop
  | ⟨name, body⟩ => (∃ text, p.get name = .ok (.utf8 text) ∧ body.Fits text) ∧ body.WellFormed p

def AttributeBody.WellFormed (p : Pool) : AttributeBody → Prop
  | .code c => c.WellFormed p
  | .stackMapTable frames => ∀ f ∈ frames, f.WellFormed
  | .innerClasses classes => ∀ c ∈ classes, c.WellFormed
  | .enclosingMethod _ method => method ≠ some 0
  | .annotations _ as => ∀ a ∈ as, a.WellFormed
  | .parameterAnnotations _ ps => ∀ as ∈ ps, ∀ a ∈ as, a.WellFormed
  | .typeAnnotations _ as => ∀ a ∈ as, a.WellFormed
  | .annotationDefault value => value.WellFormed
  | _ => True

def Code.WellFormed (p : Pool) : Code → Prop
  | ⟨_, _, _, handlers, attributes⟩ =>
    (∀ h ∈ handlers, h.WellFormed) ∧ Attribute.AllWellFormed p attributes

def Attribute.AllWellFormed (p : Pool) : List Attribute → Prop
  | [] => True
  | a :: rest => a.WellFormed p ∧ Attribute.AllWellFormed p rest

end

/-- A text that is kept as bytes is not encoded as it should be. -/
def Constant.WellFormed : Constant → Prop
  | .rawUtf8 bytes => ModifiedUtf8.decode? bytes = none
  | _ => True

def Pool.WellFormed (p : Pool) : Prop := ∀ c ∈ p.toList, c.WellFormed

def Member.WellFormed (p : Pool) (m : Member) : Prop := Attribute.AllWellFormed p m.attributes

structure ClassFile.WellFormed (c : ClassFile) : Prop where
  constants : c.constants.WellFormed
  superClass : c.superClass ≠ some 0
  fields : ∀ f ∈ c.fields, f.WellFormed c.constants
  methods : ∀ m ∈ c.methods, m.WellFormed c.constants
  attributes : Attribute.AllWellFormed c.constants c.attributes

theorem ElementValue.allWellFormed_iff {vs : List ElementValue} :
    AllWellFormed vs ↔ ∀ v ∈ vs, v.WellFormed := by
  induction vs with
  | nil => simp [AllWellFormed]
  | cons v vs ih => rw [AllWellFormed, ih, List.forall_mem_cons]

theorem AnnotationInfo.elementsWellFormed_iff {es : List (Index × ElementValue)} :
    ElementsWellFormed es ↔ ∀ e ∈ es, e.2.WellFormed := by
  induction es with
  | nil => simp [ElementsWellFormed]
  | cons e es ih => rw [ElementsWellFormed, ih, List.forall_mem_cons]

theorem Attribute.allWellFormed_iff {p : Pool} {as : List Attribute} :
    AllWellFormed p as ↔ ∀ a ∈ as, a.WellFormed p := by
  induction as with
  | nil => simp [AllWellFormed]
  | cons a as ih => rw [AllWellFormed, ih, List.forall_mem_cons]

/-! ## What is read is well-formed -/

namespace Reader

variable {α β : Type} {r : Reader α} {good : α → Prop}

/-- Whatever is read is good. -/
def Yields (r : Reader α) (good : α → Prop) : Prop :=
  ∀ ⦃bytes x rest⦄, r bytes = .ok (x, rest) → good x

theorem Yields.times (hr : r.Yields good) (n : Nat) :
    (r.times n).Yields fun xs => ∀ x ∈ xs, good x := by
  induction n with
  | zero =>
    intro bytes xs rest h
    obtain ⟨rfl, rfl⟩ := pure_eq_ok.1 h
    exact List.forall_mem_nil _
  | succ n ih =>
    intro bytes xs rest h
    obtain ⟨x, left, hx, h⟩ := bind_eq_ok.1 h
    obtain ⟨xs', left', hxs, h⟩ := bind_eq_ok.1 h
    obtain ⟨rfl, rfl⟩ := pure_eq_ok.1 h
    exact List.forall_mem_cons.2 ⟨hr hx, ih hxs⟩

theorem Yields.list8 (hr : r.Yields good) : (Reader.list8 r).Yields fun xs => ∀ x ∈ xs, good x := by
  intro bytes xs rest h
  obtain ⟨n, left, hn, h⟩ := bind_eq_ok.1 h
  exact hr.times _ h

theorem Yields.list16 (hr : r.Yields good) :
    (Reader.list16 r).Yields fun xs => ∀ x ∈ xs, good x := by
  intro bytes xs rest h
  obtain ⟨n, left, hn, h⟩ := bind_eq_ok.1 h
  exact hr.times _ h

/-- A value that is made from one thing read. -/
theorem Yields.map {f : α → β} {bytes rest : Bytes} {y : β} (hr : r.Yields good)
    (h : (do return f (← r) : Reader β) bytes = .ok (y, rest)) : ∃ x, good x ∧ y = f x := by
  obtain ⟨x, left, hx, h⟩ := bind_eq_ok.1 h
  obtain ⟨rfl, rfl⟩ := pure_eq_ok.1 h
  exact ⟨x, hr hx, rfl⟩

theorem Yields.trivial (r : Reader α) : r.Yields fun _ => True := fun _ _ _ _ => True.intro

theorem optionalIndex_yields : optionalIndex.Yields fun i => i ≠ some 0 := by
  intro bytes i rest h
  obtain ⟨n, left, hn, h⟩ := bind_eq_ok.1 h
  obtain ⟨rfl, rfl⟩ := pure_eq_ok.1 h
  split
  · nofun
  · rename_i h0
    exact fun e => h0 (Option.some.inj e)

end Reader

theorem Frame.read_yields : Frame.read.Yields Frame.WellFormed := by
  intro bytes f rest h
  obtain ⟨tag, left, ht, h⟩ := bind_eq_ok.1 h
  split at h
  · obtain ⟨rfl, rfl⟩ := pure_eq_ok.1 h
    rw [Frame.WellFormed]
    grind
  split at h
  · obtain ⟨t, left', hs, h⟩ := bind_eq_ok.1 h
    obtain ⟨rfl, rfl⟩ := pure_eq_ok.1 h
    rw [Frame.WellFormed]
    grind
  split at h
  · cases h
  split at h
  · obtain ⟨n, left', hn, h⟩ := bind_eq_ok.1 h
    obtain ⟨t, left'', hs, h⟩ := bind_eq_ok.1 h
    obtain ⟨rfl, rfl⟩ := pure_eq_ok.1 h
    exact True.intro
  split at h
  · obtain ⟨n, left', hn, h⟩ := bind_eq_ok.1 h
    obtain ⟨rfl, rfl⟩ := pure_eq_ok.1 h
    rw [Frame.WellFormed]
    grind
  split at h
  · obtain ⟨n, left', hn, h⟩ := bind_eq_ok.1 h
    obtain ⟨rfl, rfl⟩ := pure_eq_ok.1 h
    exact True.intro
  split at h
  · obtain ⟨n, left', hn, h⟩ := bind_eq_ok.1 h
    obtain ⟨ts, left'', hts, h⟩ := bind_eq_ok.1 h
    obtain ⟨rfl, rfl⟩ := pure_eq_ok.1 h
    obtain ⟨hlen, -⟩ := VerificationType.read_mirrors.times hts
    have hle : 252 ≤ tag ∧ tag ≤ 254 := by grind
    rw [Frame.WellFormed, hlen, UInt8.toNat_sub_of_le _ _ (by grind)]
    simp only [UInt8.le_iff_toNat_le] at hle
    exact ⟨Nat.le_sub_of_add_le hle.1, Nat.sub_le_of_le_add hle.2⟩
  · obtain ⟨n, left', hn, h⟩ := bind_eq_ok.1 h
    obtain ⟨ls, left'', hls, h⟩ := bind_eq_ok.1 h
    obtain ⟨ss, left''', hss, h⟩ := bind_eq_ok.1 h
    obtain ⟨rfl, rfl⟩ := pure_eq_ok.1 h
    exact True.intro

namespace ElementValue

theorem readAnnotationInfo_yields {value : Reader ElementValue}
    (hv : value.Yields ElementValue.WellFormed) :
    (readAnnotationInfo value).Yields AnnotationInfo.WellFormed := by
  intro bytes a rest h
  obtain ⟨type, left, ht, h⟩ := bind_eq_ok.1 h
  obtain ⟨elements, left', he, h⟩ := bind_eq_ok.1 h
  obtain ⟨rfl, rfl⟩ := pure_eq_ok.1 h
  rw [AnnotationInfo.WellFormed, AnnotationInfo.elementsWellFormed_iff]
  refine @Yields.list16 _ _ (fun e => e.2.WellFormed) ?_ _ _ _ he
  intro bytes e rest h
  obtain ⟨i, left, hi, h⟩ := bind_eq_ok.1 h
  obtain ⟨v, hv, rfl⟩ := hv.map h
  exact hv

theorem read_yields (depth : Nat) : (ElementValue.read depth).Yields ElementValue.WellFormed := by
  induction depth with
  | zero => intro bytes v rest h; cases h
  | succ depth ih =>
    intro bytes v rest h
    obtain ⟨tag, left, ht, h⟩ := bind_eq_ok.1 h
    split at h
    · rename_i htag
      obtain ⟨i, -, rfl⟩ := (Yields.trivial index).map h
      rwa [ElementValue.WellFormed]
    split at h
    · obtain ⟨i, left', hi, h⟩ := bind_eq_ok.1 h
      obtain ⟨j, -, rfl⟩ := (Yields.trivial index).map h
      simp only [ElementValue.WellFormed]
    split at h
    · obtain ⟨i, -, rfl⟩ := (Yields.trivial index).map h
      simp only [ElementValue.WellFormed]
    split at h
    · obtain ⟨a, ha, rfl⟩ := (readAnnotationInfo_yields ih).map h
      rwa [ElementValue.WellFormed]
    split at h
    · obtain ⟨vs, hvs, rfl⟩ := ih.list16.map h
      rwa [ElementValue.WellFormed, allWellFormed_iff]
    · cases h

end ElementValue

theorem AnnotationInfo.read_yields (depth : Nat) :
    (AnnotationInfo.read depth).Yields AnnotationInfo.WellFormed :=
  ElementValue.readAnnotationInfo_yields (ElementValue.read_yields depth)

theorem Target.read_yields (type : UInt8) : (Target.read type).Yields (Target.Fits type) := by
  intro bytes t rest h
  unfold Target.read at h
  split at h
  · obtain ⟨n, -, rfl⟩ := (Yields.trivial u8).map h
    assumption
  split at h
  · obtain ⟨n, -, rfl⟩ := (Yields.trivial u16).map h
    assumption
  split at h
  · obtain ⟨a, left, ha, h⟩ := bind_eq_ok.1 h
    obtain ⟨n, -, rfl⟩ := (Yields.trivial u8).map h
    assumption
  split at h
  · obtain ⟨rfl, rfl⟩ := pure_eq_ok.1 h
    assumption
  split at h
  · obtain ⟨n, -, rfl⟩ := (Yields.trivial u8).map h
    assumption
  split at h
  · obtain ⟨n, -, rfl⟩ := (Yields.trivial u16).map h
    assumption
  split at h
  · obtain ⟨n, -, rfl⟩ := (Yields.trivial _).map h
    assumption
  split at h
  · obtain ⟨n, -, rfl⟩ := (Yields.trivial u16).map h
    assumption
  split at h
  · obtain ⟨n, -, rfl⟩ := (Yields.trivial u16).map h
    assumption
  split at h
  · obtain ⟨n, left, hn, h⟩ := bind_eq_ok.1 h
    obtain ⟨n, -, rfl⟩ := (Yields.trivial u8).map h
    assumption
  · cases h

theorem TypeAnnotationInfo.read_yields (depth : Nat) :
    (TypeAnnotationInfo.read depth).Yields TypeAnnotationInfo.WellFormed := by
  intro bytes a rest h
  obtain ⟨type, left, ht, h⟩ := bind_eq_ok.1 h
  obtain ⟨target, left', htarget, h⟩ := bind_eq_ok.1 h
  obtain ⟨path, left'', hp, h⟩ := bind_eq_ok.1 h
  obtain ⟨info, hinfo, rfl⟩ := (AnnotationInfo.read_yields depth).map h
  exact ⟨Target.read_yields type htarget, hinfo⟩

theorem Handler.read_yields : Handler.read.Yields Handler.WellFormed := by
  intro bytes x rest h
  obtain ⟨a, left, ha, h⟩ := bind_eq_ok.1 h
  obtain ⟨b, left', hb, h⟩ := bind_eq_ok.1 h
  obtain ⟨c, left'', hc, h⟩ := bind_eq_ok.1 h
  obtain ⟨i, hi, rfl⟩ := optionalIndex_yields.map h
  exact hi

theorem InnerClass.read_yields : InnerClass.read.Yields InnerClass.WellFormed := by
  intro bytes x rest h
  obtain ⟨i, left, hi, h⟩ := bind_eq_ok.1 h
  obtain ⟨o, left', ho, h⟩ := bind_eq_ok.1 h
  obtain ⟨n, left'', hn, h⟩ := bind_eq_ok.1 h
  obtain ⟨a, -, rfl⟩ := (Yields.trivial u16).map h
  exact ⟨optionalIndex_yields ho, optionalIndex_yields hn⟩

section

variable {p : Pool} {inner : Reader Attribute} (hinner : inner.Yields (Attribute.WellFormed p))

include hinner

theorem Code.readWith_yields : (Code.readWith inner).Yields (Code.WellFormed p) := by
  intro bytes c rest h
  obtain ⟨stack, left₁, hs, h⟩ := bind_eq_ok.1 h
  obtain ⟨locals, left₂, hl, h⟩ := bind_eq_ok.1 h
  obtain ⟨length, left₃, hn, h⟩ := bind_eq_ok.1 h
  obtain ⟨instructions, left₄, hi, h⟩ := bind_eq_ok.1 h
  obtain ⟨handlers, left₅, hh, h⟩ := bind_eq_ok.1 h
  obtain ⟨attributes, left₆, ha, h⟩ := bind_eq_ok.1 h
  obtain ⟨rfl, rfl⟩ := pure_eq_ok.1 h
  rw [Code.WellFormed, Attribute.allWellFormed_iff]
  exact ⟨Handler.read_yields.list16 hh, hinner.list16 ha⟩

theorem AttributeBody.readWith_yields (depth : Nat) (name : String) :
    (AttributeBody.readWith inner depth name).Yields fun body =>
      body.Fits name ∧ body.WellFormed p := by
  intro bytes body rest h
  have hannotations := (AnnotationInfo.read_yields depth).list16
  have htypes := (TypeAnnotationInfo.read_yields depth).list16
  unfold AttributeBody.readWith at h
  split at h
  · obtain ⟨x, -, rfl⟩ := (Yields.trivial index).map h
    exact ⟨rfl, by simp only [WellFormed]⟩
  · obtain ⟨x, hx, rfl⟩ := (Code.readWith_yields hinner).map h
    exact ⟨rfl, by rwa [WellFormed]⟩
  · obtain ⟨x, hx, rfl⟩ := Frame.read_yields.list16.map h
    exact ⟨rfl, by rwa [WellFormed]⟩
  · obtain ⟨x, -, rfl⟩ := (Yields.trivial _).map h
    exact ⟨rfl, by simp only [WellFormed]⟩
  · obtain ⟨x, hx, rfl⟩ := InnerClass.read_yields.list16.map h
    exact ⟨rfl, by rwa [WellFormed]⟩
  · obtain ⟨owner, left, ho, h⟩ := bind_eq_ok.1 h
    obtain ⟨x, hx, rfl⟩ := optionalIndex_yields.map h
    exact ⟨rfl, by rwa [WellFormed]⟩
  · obtain ⟨x, -, rfl⟩ := (Yields.trivial index).map h
    exact ⟨rfl, by simp only [WellFormed]⟩
  · obtain ⟨x, -, rfl⟩ := (Yields.trivial _).map h
    exact ⟨rfl, by simp only [WellFormed]⟩
  · obtain ⟨x, -, rfl⟩ := (Yields.trivial _).map h
    exact ⟨rfl, by simp only [WellFormed]⟩
  · obtain ⟨x, hx, rfl⟩ := hannotations.map h
    exact ⟨rfl, by rwa [WellFormed]⟩
  · obtain ⟨x, hx, rfl⟩ := hannotations.map h
    exact ⟨rfl, by rwa [WellFormed]⟩
  · obtain ⟨x, hx, rfl⟩ := hannotations.list8.map h
    exact ⟨rfl, by rwa [WellFormed]⟩
  · obtain ⟨x, hx, rfl⟩ := hannotations.list8.map h
    exact ⟨rfl, by rwa [WellFormed]⟩
  · obtain ⟨x, hx, rfl⟩ := htypes.map h
    exact ⟨rfl, by rwa [WellFormed]⟩
  · obtain ⟨x, hx, rfl⟩ := htypes.map h
    exact ⟨rfl, by rwa [WellFormed]⟩
  · obtain ⟨x, hx, rfl⟩ := (ElementValue.read_yields depth).map h
    exact ⟨rfl, by rwa [WellFormed]⟩
  · obtain ⟨x, -, rfl⟩ := (Yields.trivial index).map h
    exact ⟨rfl, by simp only [WellFormed]⟩
  · obtain ⟨x, -, rfl⟩ := (Yields.trivial _).map h
    exact ⟨rfl, by simp only [WellFormed]⟩
  · cases h
    refine ⟨?_, by simp only [WellFormed]⟩
    simp_all [Fits, label?, labels]

end

theorem Attribute.read_yields (p : Pool) (depth : Nat) :
    (Attribute.read p depth).Yields (Attribute.WellFormed p) := by
  induction depth with
  | zero => intro bytes a rest h; cases h
  | succ depth ih =>
    intro bytes a rest h
    obtain ⟨index, left₁, hi, h⟩ := bind_eq_ok.1 h
    obtain ⟨length, left₂, hl, h⟩ := bind_eq_ok.1 h
    obtain ⟨taken, left₃, ht, h⟩ := bind_eq_ok.1 h
    obtain ⟨name, left₄, hn, h⟩ := bind_eq_ok.1 h
    obtain ⟨⟨body, left⟩, left₅, hb, h⟩ := bind_eq_ok.1 h
    obtain ⟨hname, rfl⟩ := lift_eq_ok.1 hn
    obtain ⟨hbody, rfl⟩ := lift_eq_ok.1 hb
    obtain ⟨hfits, hgood⟩ := AttributeBody.readWith_yields ih _ _ hbody
    simp only at h
    split at h
    · cases h
    · obtain ⟨rfl, rfl⟩ := pure_eq_ok.1 h
      rw [Attribute.WellFormed]
      exact ⟨⟨name, Pool.utf8_eq_ok.1 hname, hfits⟩, hgood⟩

theorem Member.read_yields (p : Pool) (depth : Nat) :
    (Member.read p depth).Yields (Member.WellFormed p) := by
  intro bytes m rest h
  obtain ⟨access, left₁, ha, h⟩ := bind_eq_ok.1 h
  obtain ⟨name, left₂, hn, h⟩ := bind_eq_ok.1 h
  obtain ⟨descriptor, left₃, hd, h⟩ := bind_eq_ok.1 h
  obtain ⟨as, has, rfl⟩ := (Attribute.read_yields p depth).list16.map h
  exact Attribute.allWellFormed_iff.2 has

theorem Constant.wellFormed_ofText (bytes : Bytes) : (ofText bytes).WellFormed := by
  unfold ofText
  split
  · exact True.intro
  · assumption

theorem Constant.read_yields (i : Index) : (Constant.read i).Yields Constant.WellFormed := by
  intro bytes c rest h
  obtain ⟨tag, left, ht, h⟩ := bind_eq_ok.1 h
  cases c with
  | rawUtf8 raw =>
    -- only the tag of texts gives bytes
    obtain ⟨rfl, -⟩ := readBody_eq_ok h
    obtain ⟨taken, e, -⟩ := readText_eq_ok (i := i) h
    rw [e]
    exact wellFormed_ofText taken
  | _ => exact True.intro

namespace Pool

theorem readEntries_yields {count : UInt16} {slots : Nat} {p : Pool}
    (hp : p.WellFormed) : (readEntries count slots p).Yields Pool.WellFormed := by
  have hpush {p : Pool} {c : Constant} (hp : p.WellFormed) (hc : c.WellFormed) :
      (p.push c).WellFormed := by
    rw [Pool.WellFormed, toList_push]
    exact List.forall_mem_append.2 ⟨hp, List.forall_mem_singleton.2 hc⟩
  intro bytes p' rest h
  fun_induction readEntries count slots p generalizing bytes with
  | case1 p =>
    obtain ⟨rfl, rfl⟩ := pure_eq_ok.1 h
    exact hp
  | case2 slots p ihWide ih =>
    obtain ⟨c, left, hc, h⟩ := bind_eq_ok.1 h
    have hgood := hpush hp (Constant.read_yields _ hc)
    split at h
    · cases slots with
      | zero => cases h
      | succ slots => exact ihWide c hgood h
    · exact ih c hgood h

theorem read_yields : Pool.read.Yields Pool.WellFormed := by
  intro bytes p rest h
  obtain ⟨count, left, hc, h⟩ := bind_eq_ok.1 h
  split at h
  · cases h
  · exact readEntries_yields (fun _ hc => by cases hc) h

end Pool

/-- All class files that are read are well-formed. -/
theorem ClassFile.wellFormed_of_read (depth : Nat) :
    (ClassFile.read depth).Yields ClassFile.WellFormed := by
  intro bytes c rest h
  obtain ⟨start, left, hs, h⟩ := bind_eq_ok.1 h
  split at h
  · cases h
  · obtain ⟨version, left₁, hversion, h⟩ := bind_eq_ok.1 h
    obtain ⟨constants, left₂, hconstants, h⟩ := bind_eq_ok.1 h
    obtain ⟨access, left₃, haccess, h⟩ := bind_eq_ok.1 h
    obtain ⟨thisClass, left₄, hthis, h⟩ := bind_eq_ok.1 h
    obtain ⟨superClass, left₅, hsuper, h⟩ := bind_eq_ok.1 h
    obtain ⟨interfaces, left₆, hinterfaces, h⟩ := bind_eq_ok.1 h
    obtain ⟨fields, left₇, hfields, h⟩ := bind_eq_ok.1 h
    obtain ⟨methods, left₈, hmethods, h⟩ := bind_eq_ok.1 h
    obtain ⟨attributes, left₉, hattributes, h⟩ := bind_eq_ok.1 h
    obtain ⟨rfl, rfl⟩ := pure_eq_ok.1 h
    exact {
      constants := Pool.read_yields hconstants
      superClass := optionalIndex_yields hsuper
      fields := (Member.read_yields constants depth).list16 hfields
      methods := (Member.read_yields constants depth).list16 hmethods
      attributes := Attribute.allWellFormed_iff.2
        ((Attribute.read_yields constants depth).list16 hattributes) }

theorem ClassFile.wellFormed_of_parse {bytes : Bytes} {c : ClassFile}
    (h : ClassFile.parse bytes = .ok c) : c.WellFormed :=
  wellFormed_of_read _ (parse_eq_ok h)

end Repackage
