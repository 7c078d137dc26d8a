import Repackage.Proofs.Renaming.Steps
import Repackage.Renaming.ClassFile

/-!
# Renaming all of a class

The texts of the pool that the parts of a class use, each with what it is used as, and that
the renaming of every part walks: the constants that it refers to are renamed as such, and of
other texts only those that it uses.
-/

namespace Repackage

/-! ## The texts that are used -/

mutual

def ElementValue.texts : ElementValue → List (Role × Index)
  | .const _ _ => []
  | .enumConst type _ => [(.descriptor, type)]
  | .classLiteral descriptor => [(.classLiteral, descriptor)]
  | .nested a => a.texts
  | .array values => ElementValue.textsOfAll values

def ElementValue.textsOfAll : List ElementValue → List (Role × Index)
  | [] => []
  | v :: vs => v.texts ++ ElementValue.textsOfAll vs

def AnnotationInfo.texts : AnnotationInfo → List (Role × Index)
  | ⟨type, elements⟩ => (.descriptor, type) :: AnnotationInfo.textsOfElements elements

def AnnotationInfo.textsOfElements : List (Index × ElementValue) → List (Role × Index)
  | [] => []
  | (_, v) :: rest => v.texts ++ AnnotationInfo.textsOfElements rest

end

mutual

def Attribute.texts (kind : SignatureKind) : Attribute → List (Role × Index)
  | ⟨_, body⟩ => body.texts kind

def AttributeBody.texts (kind : SignatureKind) : AttributeBody → List (Role × Index)
  | .code c => c.texts
  | .signature text => [(.signature kind, text)]
  | .localVariableTable vars => vars.map (.descriptor, ·.type)
  | .localVariableTypeTable vars => vars.map (.signature .ofField, ·.type)
  | .annotations _ as => as.flatMap AnnotationInfo.texts
  | .parameterAnnotations _ ps => ps.flatMap (·.flatMap AnnotationInfo.texts)
  | .typeAnnotations _ as => as.flatMap (·.info.texts)
  | .annotationDefault value => value.texts
  | _ => []

def Code.texts : Code → List (Role × Index)
  | ⟨_, _, _, _, attributes⟩ => Attribute.textsOfAll .ofMethod attributes

def Attribute.textsOfAll (kind : SignatureKind) : List Attribute → List (Role × Index)
  | [] => []
  | a :: rest => a.texts kind ++ Attribute.textsOfAll kind rest

end

def Member.texts (kind : SignatureKind) (m : Member) : List (Role × Index) :=
  (.descriptor, m.descriptor) :: Attribute.textsOfAll kind m.attributes

/-- The texts that a class uses other than through its constants. -/
def ClassFile.texts (c : ClassFile) : List (Role × Index) :=
  c.fields.flatMap (Member.texts .ofField) ++ c.methods.flatMap (Member.texts .ofMethod) ++
    Attribute.textsOfAll .ofClass c.attributes

def ClassFile.UsesText (c : ClassFile) (role : Role) (i : Index) : Prop := (role, i) ∈ c.texts

namespace Rewrite

variable {α : Type} {U : Role → Index → Prop}

/-- All uses in a list are among those of `U`. -/
def Covers (U : Role → Index → Prop) (uses : List (Role × Index)) : Prop :=
  ∀ use ∈ uses, U use.1 use.2

variable {xs ys : List (Role × Index)} {x : Role × Index}

theorem Covers.head (h : Covers U (x :: xs)) : U x.1 x.2 := h x List.mem_cons_self

theorem Covers.tail (h : Covers U (x :: xs)) : Covers U xs :=
  fun y hy => h y (List.mem_cons_of_mem x hy)

theorem Covers.left (h : Covers U (xs ++ ys)) : Covers U xs :=
  fun y hy => h y (List.mem_append_left ys hy)

theorem Covers.right (h : Covers U (xs ++ ys)) : Covers U ys :=
  fun y hy => h y (List.mem_append_right xs hy)

theorem Covers.member {f : α → List (Role × Index)} {as : List α} {a : α}
    (h : Covers U (as.flatMap f)) (ha : a ∈ as) : Covers U (f a) :=
  fun y hy => h y (List.mem_flatMap.2 ⟨a, ha, hy⟩)

theorem Covers.attribute {kind : SignatureKind} {as : List Attribute} {a : Attribute}
    (h : Covers U (Attribute.textsOfAll kind as)) (ha : a ∈ as) : Covers U (a.texts kind) := by
  induction as with
  | nil => cases ha
  | cons b as ih =>
    rcases List.mem_cons.1 ha with rfl | ha
    · exact h.left
    · exact ih h.right ha

theorem Walks.rewriteEach {f : α → Rewrite (Option α)} {as : List α}
    (h : ∀ a ∈ as, Walks U (f a)) : Walks U (rewriteEach f as) := by
  induction as with
  | nil => exact .pure none
  | cons a as ih =>
    refine .bind (h a List.mem_cons_self) fun a' => ?_
    exact .bind (ih fun b hb => h b (List.mem_cons_of_mem a hb)) fun as' => .pure _

theorem Walks.rewriteClass (i : Index) : Walks U (rewriteClass i) :=
  .bind (.renameClass i) fun _ => .pure _

/-! ## Annotations -/

mutual

theorem Walks.rewriteValue :
    (v : ElementValue) → Covers U v.texts → Walks U (rewriteValue v)
  | .const _ _, _ => .pure none
  | .enumConst _ _, h => .bind (.renameUtf8 h.head) fun _ => .pure _
  | .classLiteral _, h => .bind (.renameUtf8 h.head) fun _ => .pure _
  | .nested a, h => .bind (Walks.rewriteAnnotationInfo a h) fun _ => .pure _
  | .array vs, h => .bind (Walks.rewriteValues vs h) fun _ => .pure _

theorem Walks.rewriteValues :
    (vs : List ElementValue) → Covers U (ElementValue.textsOfAll vs) → Walks U (rewriteValues vs)
  | [], _ => .pure none
  | v :: vs, h =>
    .bind (Walks.rewriteValue v h.left) fun _ =>
      .bind (Walks.rewriteValues vs h.right) fun _ => .pure _

theorem Walks.rewriteAnnotationInfo :
    (a : AnnotationInfo) → Covers U a.texts → Walks U (rewriteAnnotationInfo a)
  | ⟨_, elements⟩, h =>
    .bind (.renameUtf8 h.head) fun _ =>
      .bind (Walks.rewriteElements elements h.tail) fun _ => .ite (.pure none) (.pure _)

theorem Walks.rewriteElements :
    (es : List (Index × ElementValue)) → Covers U (AnnotationInfo.textsOfElements es) →
      Walks U (rewriteElements es)
  | [], _ => .pure none
  | (_, v) :: rest, h =>
    .bind (Walks.rewriteValue v h.left) fun _ =>
      .bind (Walks.rewriteElements rest h.right) fun _ => .pure _

end

theorem Walks.rewriteTypeAnnotationInfo (a : TypeAnnotationInfo) (h : Covers U a.info.texts) :
    Walks U (rewriteTypeAnnotationInfo a) :=
  .bind (Walks.rewriteAnnotationInfo a.info h) fun _ => .pure _

/-! ## Other parts -/

theorem Walks.rewriteVerificationType (t : VerificationType) :
    Walks U (rewriteVerificationType t) := by
  cases t with
  | object i => exact .bind (.rewriteClass i) fun _ => .pure _
  | _ => exact .pure none

theorem Walks.rewriteFrame (f : Frame) : Walks U (rewriteFrame f) := by
  have each (ts : List VerificationType) :
      Walks U (Repackage.rewriteEach Rewrite.rewriteVerificationType ts) :=
    .rewriteEach fun t _ => .rewriteVerificationType t
  cases f with
  | sameLocalsOneStack delta stack =>
    exact .bind (.rewriteVerificationType stack) fun _ => .pure _
  | sameLocalsOneStackExtended delta stack =>
    exact .bind (.rewriteVerificationType stack) fun _ => .pure _
  | append delta locals => exact .bind (each locals) fun _ => .pure _
  | full delta locals stack =>
    refine .bind (each locals) fun locals' => .bind (each stack) fun stack' => ?_
    exact .ite (.pure none) (.pure _)
  | _ => exact .pure none

theorem Walks.rewriteHandler (h : Handler) : Walks U (rewriteHandler h) := by
  unfold Rewrite.rewriteHandler
  cases h.catchType with
  | none => exact .pure none
  | some i => exact .bind (.renameClass i) fun _ => .pure _

theorem Walks.rewriteInnerClass (c : InnerClass) : Walks U (rewriteInnerClass c) := by
  refine .bind (.renameClass c.inner) fun inner => ?_
  cases c.outer with
  | none => exact .bind (.pure false) fun _ => .pure _
  | some i => exact .bind (.renameClass i) fun _ => .pure _

theorem Walks.rewriteVariable {role : Role} {v : LocalVariable} (h : U role v.type) :
    Walks U (rewriteVariable role v) :=
  .bind (.renameUtf8 h) fun _ => .pure _

theorem Walks.renameConstantValue (i : Index) : Walks U (renameConstantValue i) := by
  refine .bind (.constant i) fun c => ?_
  cases c with
  | string text => exact .renameStringConstant i
  | _ => exact .pure false

/-! ## Attributes -/

mutual

theorem Walks.rewriteAttribute (kind : SignatureKind) :
    (a : Attribute) → Covers U (a.texts kind) → Walks U (rewriteAttribute kind a)
  | ⟨name, body⟩, h => .bind (Walks.rewriteBody kind name body h) fun _ => .pure _

theorem Walks.rewriteBody (kind : SignatureKind) (name : Index) :
    (body : AttributeBody) → Covers U (body.texts kind) → Walks U (rewriteBody kind name body)
  | .constantValue i, _ => .bind (.renameConstantValue i) fun _ => .pure _
  | .code c, h => .bind (Walks.rewriteCode c h) fun _ => .pure _
  | .stackMapTable _, _ => .bind (.rewriteEach fun f _ => .rewriteFrame f) fun _ => .pure _
  | .exceptions _, _ => .bind (.rewriteEach fun i _ => .rewriteClass i) fun _ => .pure _
  | .innerClasses _, _ => .bind (.rewriteEach fun c _ => .rewriteInnerClass c) fun _ => .pure _
  | .enclosingMethod owner none, _ =>
    .bind (.renameClass owner) fun _ => .bind (.pure false) fun _ => .pure _
  | .enclosingMethod owner (some i), _ =>
    .bind (.renameClass owner) fun _ => .bind (.renameNameAndType i) fun _ => .pure _
  | .signature _, h => .bind (.renameUtf8 h.head) fun _ => .pure _
  | .localVariableTable _, h =>
    .bind (.rewriteEach fun _ hv => .rewriteVariable (h _ (List.mem_map_of_mem hv))) fun _ => .pure _
  | .localVariableTypeTable _, h =>
    .bind (.rewriteEach fun _ hv => .rewriteVariable (h _ (List.mem_map_of_mem hv))) fun _ => .pure _
  | .annotations _ _, h =>
    .bind (.rewriteEach fun a ha => .rewriteAnnotationInfo a (h.member ha)) fun _ => .pure _
  | .parameterAnnotations _ _, h =>
    .bind (.rewriteEach fun _ has =>
      .rewriteEach fun a ha => .rewriteAnnotationInfo a ((h.member has).member ha)) fun _ => .pure _
  | .typeAnnotations _ _, h =>
    .bind (.rewriteEach fun a ha => .rewriteTypeAnnotationInfo a (h.member ha)) fun _ => .pure _
  | .annotationDefault value, h => .bind (.rewriteValue value h) fun _ => .pure _
  | .nestHost _, _ => .bind (.tell _) fun _ => .pure none
  | .nestMembers _, _ => .bind (.tell _) fun _ => .pure none
  | .other _, _ =>
    .bind .get fun _ => .bind (.lift _) fun _ =>
      .ite (.bind (.tell _) fun _ => .pure none) (.pure none)

theorem Walks.rewriteCode : (c : Code) → Covers U c.texts → Walks U (rewriteCode c)
  | ⟨_, _, _, _, attributes⟩, h =>
    .bind (.rewriteEach fun x _ => .rewriteHandler x) fun _ =>
      .bind (Walks.rewriteAttributes .ofMethod attributes h) fun _ => .ite (.pure none) (.pure _)

theorem Walks.rewriteAttributes (kind : SignatureKind) :
    (as : List Attribute) → Covers U (Attribute.textsOfAll kind as) →
      Walks U (rewriteAttributes kind as)
  | [], _ => .pure none
  | a :: rest, h =>
    .bind (Walks.rewriteAttribute kind a h.left) fun _ =>
      .bind (Walks.rewriteAttributes kind rest h.right) fun _ => .pure _

end

end Rewrite

end Repackage
