import Repackage.Proofs.Renaming.ClassFile

/-!
# Properties that pass from the parts to the whole

Every rewrite of a part of a class is put together in few ways: it does nothing, renames one text
or some constants, or rewrites the parts of the part. A property of rewrites that is kept by each
of these (`Hereditary`) holds of the rewrites of all attributes and members.

`U` says what the texts are used as.
-/

namespace Repackage

namespace Rewrite

open Rewriter

/-- Nothing happens but that something is told. -/
def OnlyTells {α : Type} (m : Rewrite (Option α)) : Prop :=
  ∀ s, ∃ r events, m.outcome s = (r, { s with events }) ∧ ∀ x', r = .ok x' → x' = none

/-- A property of the rewriting of parts, with one of the renaming of constants, that a rewrite has
if what it is put together from does. -/
structure Hereditary (U : Role → Index → Prop) (Flag : Rewrite Bool → Prop)
    (Part : {α : Type} → (α → Rewrite (Option α)) → α → Prop) : Prop where
  never : Flag (pure false)
  refers {role : Role} {m : Rewrite Bool} {i : Index} : (∀ s, Referring role m i s) → Flag m
  value (i : Index) : Flag (renameConstantValue i)
  text {role : Role} {i : Index} : U role i → Part (renameUtf8 role) i
  still {α : Type} {f : α → Rewrite (Option α)} {x : α} : OnlyTells (f x) → Part f x
  after {α : Type} {f h : α → Rewrite (Option α)} {x : α} {e : α → Event} : Part h x →
    (∀ y, f y = do tell (e y); h y) → Part f x
  flag {α : Type} {f : α → Rewrite (Option α)} {x : α} {m : Rewrite Bool} : Flag m →
    (f x = do return if ← m then some x else none) → Part f x
  flags {α : Type} {f : α → Rewrite (Option α)} {x : α} {m n : Rewrite Bool} : Flag m → Flag n →
    (f x = do
      let a ← m
      let b ← n
      return if a || b then some x else none) → Part f x
  map {α β : Type} {f : β → Rewrite (Option β)} {h : α → Rewrite (Option α)} {g : α → β} {x : α} :
    Part h x → (∀ y, f (g y) = do return (← h y).map g) → Part f (g x)
  both {α β γ : Type} {f : γ → Rewrite (Option γ)} {h : α → Rewrite (Option α)}
    {l : β → Rewrite (Option β)} {g : α → β → γ} {x : α} {y : β} : Part h x → Part l y →
    (∀ u v, f (g u v) = do
      let u' ← h u
      let v' ← l v
      if u'.isNone && v'.isNone then return none
      return some (g (u'.getD u) (v'.getD v))) → Part f (g x y)
  cons {α : Type} {f : List α → Rewrite (Option (List α))} {h : α → Rewrite (Option α)} {x : α}
    {xs : List α} : Part h x → Part f xs →
    (∀ y ys, f (y :: ys) = do
      let y' ← h y
      let ys' ← f ys
      return consChanged y ys y' ys') → Part f (x :: xs)

theorem OnlyTells.nothing {α : Type} : OnlyTells (pure none : Rewrite (Option α)) :=
  fun s => ⟨.ok none, s.events, rfl, fun _ h => (Except.ok.inj h).symm⟩

theorem OnlyTells.told {α : Type} (e : Event) :
    OnlyTells (do tell e; return none : Rewrite (Option α)) :=
  fun s => ⟨.ok none, s.events.push e, rfl, fun _ h => (Except.ok.inj h).symm⟩

/-- An attribute that is kept as bytes has its name looked up, which can fail. -/
theorem OnlyTells.other (kind : SignatureKind) (name : Index) (bytes : Bytes) :
    OnlyTells (rewriteBody kind name (.other bytes)) := by
  intro s
  rw [rewriteBody, outcome_bind, outcome_get]
  dsimp only
  rw [outcome_bind, outcome_lift]
  cases s.pool.utf8 name with
  | error e => exact ⟨.error e, s.events, rfl, nofun⟩
  | ok text =>
    by_cases h : moduleAttributes.contains text = true
    · exact ⟨.ok none, s.events.push (.moduleSkipped text), by simp only [if_pos h]; rfl,
        fun _ h => (Except.ok.inj h).symm⟩
    · exact ⟨.ok none, s.events, by simp only [if_neg h]; rfl, fun _ h => (Except.ok.inj h).symm⟩

namespace Hereditary

variable {U : Role → Index → Prop} {Flag : Rewrite Bool → Prop}
  {Part : {α : Type} → (α → Rewrite (Option α)) → α → Prop} (H : Hereditary U Flag Part)

include H

theorem renameClass (i : Index) : Flag (renameClass i) := H.refers (renameClass_referring i)

theorem rewriteClass (i : Index) : Part rewriteClass i := H.flag (H.renameClass i) rfl

theorem rewriteEach {α : Type} {f : α → Rewrite (Option α)} {xs : List α}
    (h : ∀ x ∈ xs, Part f x) : Part (rewriteEach f) xs := by
  induction xs with
  | nil => exact H.still .nothing
  | cons x xs ih =>
    exact H.cons (h x List.mem_cons_self) (ih fun y hy => h y (List.mem_cons_of_mem x hy))
      fun _ _ => rfl

/-! ## Annotations -/

mutual

theorem rewriteValue :
    (v : ElementValue) → Covers U v.texts → Part rewriteValue v
  | .const _ _, _ => H.still .nothing
  | .enumConst _ name, h => H.map (g := (ElementValue.enumConst · name)) (H.text h.head) fun _ => rfl
  | .classLiteral _, h => H.map (g := ElementValue.classLiteral) (H.text h.head) fun _ => rfl
  | .nested a, h => H.map (rewriteAnnotationInfo a h) fun _ => rfl
  | .array vs, h => H.map (rewriteValues vs h) fun _ => rfl

theorem rewriteValues :
    (vs : List ElementValue) → Covers U (ElementValue.textsOfAll vs) → Part rewriteValues vs
  | [], _ => H.still .nothing
  | v :: vs, h => H.cons (rewriteValue v h.left) (rewriteValues vs h.right) fun _ _ => rfl

theorem rewriteAnnotationInfo :
    (a : AnnotationInfo) → Covers U a.texts → Part rewriteAnnotationInfo a
  | ⟨_, elements⟩, h => H.both (H.text h.head) (rewriteElements elements h.tail) fun _ _ => rfl

theorem rewriteElements :
    (es : List (Index × ElementValue)) → Covers U (AnnotationInfo.textsOfElements es) →
      Part rewriteElements es
  | [], _ => H.still .nothing
  | (name, v) :: rest, h => by
    refine H.cons (h := fun e => do return (← Rewrite.rewriteValue e.2).map (e.1, ·))
      (H.map (rewriteValue v h.left) fun _ => rfl) (rewriteElements rest h.right) fun e es => ?_
    simp only [bind_assoc, pure_bind, Rewrite.rewriteElements]

end

theorem rewriteTypeAnnotationInfo (a : TypeAnnotationInfo) (h : Covers U a.info.texts) :
    Part rewriteTypeAnnotationInfo a :=
  H.map (g := fun info => { a with info }) (H.rewriteAnnotationInfo a.info h) fun _ => rfl

/-! ## Other parts -/

theorem rewriteVerificationType (t : VerificationType) : Part rewriteVerificationType t := by
  cases t with
  | object i => exact H.map (H.rewriteClass i) fun _ => rfl
  | _ => exact H.still .nothing

theorem rewriteFrame (f : Frame) : Part rewriteFrame f := by
  have each (ts : List VerificationType) :
      Part (Repackage.rewriteEach Rewrite.rewriteVerificationType) ts :=
    H.rewriteEach fun t _ => H.rewriteVerificationType t
  cases f with
  | sameLocalsOneStack delta stack => exact H.map (H.rewriteVerificationType stack) fun _ => rfl
  | sameLocalsOneStackExtended delta stack =>
    exact H.map (H.rewriteVerificationType stack) fun _ => rfl
  | append delta locals => exact H.map (each locals) fun _ => rfl
  | full delta locals stack => exact H.both (each locals) (each stack) fun _ _ => rfl
  | _ => exact H.still .nothing

theorem rewriteHandler (h : Handler) : Part rewriteHandler h := by
  obtain ⟨start, stop, target, catchType⟩ := h
  cases catchType with
  | none => exact H.still .nothing
  | some i => exact H.flag (H.renameClass i) rfl

theorem rewriteInnerClass (c : InnerClass) : Part rewriteInnerClass c := by
  obtain ⟨inner, outer, name, access⟩ := c
  cases outer with
  | none => exact H.flags (H.renameClass inner) H.never rfl
  | some i => exact H.flags (H.renameClass inner) (H.renameClass i) rfl

theorem rewriteVariable {role : Role} {v : LocalVariable} (h : U role v.type) :
    Part (rewriteVariable role) v :=
  H.map (g := fun type => { v with type }) (H.text h) fun _ => rfl

/-! ## Attributes -/

mutual

theorem rewriteAttribute (kind : SignatureKind) :
    (a : Attribute) → Covers U (a.texts kind) → Part (rewriteAttribute kind) a
  | ⟨name, body⟩, h => H.map (rewriteBody kind name body h) fun _ => rfl

theorem rewriteBody (kind : SignatureKind) (name : Index) :
    (body : AttributeBody) → Covers U (body.texts kind) → Part (rewriteBody kind name) body
  | .constantValue i, _ => H.flag (H.value i) rfl
  | .code c, h => H.map (rewriteCode c h) fun _ => rfl
  | .stackMapTable _, _ => H.map (H.rewriteEach fun f _ => H.rewriteFrame f) fun _ => rfl
  | .exceptions _, _ =>
    H.map (g := AttributeBody.exceptions) (H.rewriteEach fun i _ => H.rewriteClass i) fun _ => rfl
  | .innerClasses _, _ => H.map (H.rewriteEach fun c _ => H.rewriteInnerClass c) fun _ => rfl
  | .enclosingMethod owner none, _ => H.flags (H.renameClass owner) H.never rfl
  | .enclosingMethod owner (some i), _ =>
    H.flags (H.renameClass owner) (H.refers (renameNameAndType_referring i)) rfl
  | .signature _, h => H.map (g := AttributeBody.signature) (H.text h.head) fun _ => rfl
  | .localVariableTable _, h =>
    H.map (g := AttributeBody.localVariableTable)
      (H.rewriteEach fun _ hv => H.rewriteVariable (h _ (List.mem_map_of_mem hv))) fun _ => rfl
  | .localVariableTypeTable _, h =>
    H.map (g := AttributeBody.localVariableTypeTable)
      (H.rewriteEach fun _ hv => H.rewriteVariable (h _ (List.mem_map_of_mem hv))) fun _ => rfl
  | .annotations _ _, h =>
    H.map (H.rewriteEach fun a ha => H.rewriteAnnotationInfo a (h.member ha)) fun _ => rfl
  | .parameterAnnotations retention _, h =>
    H.map (g := AttributeBody.parameterAnnotations retention) (H.rewriteEach fun _ has =>
      H.rewriteEach fun a ha => H.rewriteAnnotationInfo a ((h.member has).member ha)) fun _ => rfl
  | .typeAnnotations _ _, h =>
    H.map (H.rewriteEach fun a ha => H.rewriteTypeAnnotationInfo a (h.member ha)) fun _ => rfl
  | .annotationDefault value, h => H.map (H.rewriteValue value h) fun _ => rfl
  | .nestHost _, _ => H.still (.told _)
  | .nestMembers _, _ => H.still (.told _)
  | .other bytes, _ => H.still (.other kind name bytes)

theorem rewriteCode : (c : Code) → Covers U c.texts → Part rewriteCode c
  | ⟨maxStack, maxLocals, instructions, _, attributes⟩, h =>
    H.both (g := Code.mk maxStack maxLocals instructions)
      (H.rewriteEach fun x _ => H.rewriteHandler x) (rewriteAttributes .ofMethod attributes h)
      fun _ _ => rfl

theorem rewriteAttributes (kind : SignatureKind) :
    (as : List Attribute) → Covers U (Attribute.textsOfAll kind as) →
      Part (rewriteAttributes kind) as
  | [], _ => H.still .nothing
  | a :: rest, h =>
    H.cons (rewriteAttribute kind a h.left) (rewriteAttributes kind rest h.right) fun _ _ => rfl

end

/-! ## Members -/

theorem rewriteMember {kind : SignatureKind} {m : Member} (h : Covers U (m.texts kind)) :
    Part (rewriteMember kind) m := by
  obtain ⟨access, name, descriptor, attributes⟩ := m
  exact H.both (g := Member.mk access name) (H.text h.head)
    (H.rewriteAttributes kind attributes h.tail) fun _ _ => rfl

theorem rewriteField {m : Member} (h : Covers U (m.texts .ofField)) : Part rewriteField m :=
  H.after (e := fun m => .fieldVisited m.name) (H.rewriteMember h) fun _ => rfl

theorem rewriteMethod {m : Member} (h : Covers U (m.texts .ofMethod)) : Part rewriteMethod m :=
  H.after (e := fun m => .methodVisited m.name) (H.rewriteMember h) fun _ => rfl

end Hereditary

end Rewrite

end Repackage
