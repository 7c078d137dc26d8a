import Repackage.Proofs.Renaming.Tracking
import Repackage.Proofs.Renaming.Traversal
import Repackage.Proofs.Rules.Table

/-!
# No reference is missed

What an attribute refers to in the pool, at any depth, is listed by `Attribute.references`. After
the attribute is rewritten, all that the result refers to is done with (`Reference.Done`): a
constant is settled, and a text is settled, or not well-formed, or one that does not change in its
role (`Rewrite.rewriteAttribute_settles`).

Once done with, a reference stays so, because the pool changes only in entries that are settled
(`Rewriter.Advances`). The rewrite of a part thus settles what its parts do (`Rewrite.Settles`).
-/

namespace Repackage

/-! ## References -/

/-- What a part of a class refers to in the pool. -/
inductive Reference where
  /-- A class, or a name with a type. -/
  | constant (i : Index)
  /-- What a field starts with, which is a constant of any kind. -/
  | value (i : Index)
  /-- A text, with what it is used as. -/
  | text (use : Role × Index)

def VerificationType.references : VerificationType → List Reference
  | .object i => [.constant i]
  | _ => []

def Frame.references : Frame → List Reference
  | .same _ | .chop _ _ | .sameExtended _ => []
  | .sameLocalsOneStack _ stack | .sameLocalsOneStackExtended _ stack => stack.references
  | .append _ locals => locals.flatMap VerificationType.references
  | .full _ locals stack =>
    locals.flatMap VerificationType.references ++ stack.flatMap VerificationType.references

def Handler.references (h : Handler) : List Reference := h.catchType.toList.map .constant

def InnerClass.references (c : InnerClass) : List Reference :=
  .constant c.inner :: c.outer.toList.map .constant

def AnnotationInfo.references (a : AnnotationInfo) : List Reference := a.texts.map .text

mutual

/-- All that an attribute refers to, save what is left to the pool. The kind says how a signature
is read. -/
def Attribute.references (kind : SignatureKind) : Attribute → List Reference
  | ⟨_, body⟩ => body.references kind

def AttributeBody.references (kind : SignatureKind) : AttributeBody → List Reference
  | .constantValue i => [.value i]
  | .code c => c.references
  | .stackMapTable frames => frames.flatMap Frame.references
  | .exceptions classes => classes.flatMap fun i => [.constant i]
  | .innerClasses classes => classes.flatMap InnerClass.references
  | .enclosingMethod owner method => .constant owner :: method.toList.map .constant
  | .signature text => [.text (.signature kind, text)]
  | .localVariableTable vars => vars.flatMap fun v => [.text (.descriptor, v.type)]
  | .localVariableTypeTable vars => vars.flatMap fun v => [.text (.signature .ofField, v.type)]
  | .annotations _ as => as.flatMap AnnotationInfo.references
  | .parameterAnnotations _ ps => ps.flatMap (·.flatMap AnnotationInfo.references)
  | .typeAnnotations _ as => as.flatMap (·.info.references)
  | .annotationDefault value => value.texts.map .text
  | .nestHost _ | .nestMembers _ | .other _ => []

def Code.references : Code → List Reference
  | ⟨_, _, _, handlers, attributes⟩ =>
    handlers.flatMap Handler.references ++ Attribute.referencesOfAll .ofMethod attributes

def Attribute.referencesOfAll (kind : SignatureKind) : List Attribute → List Reference
  | [] => []
  | a :: rest => a.references kind ++ Attribute.referencesOfAll kind rest

end

/-- Nothing is left to rename behind a reference. -/
def Reference.Done (s : Rewriter) : Reference → Prop
  | .constant i => i ∈ s.settled
  | .value i => ∀ text, s.pool.get i = .ok (.string text) → i ∈ s.settled
  | .text (role, i) => i ∈ s.settled ∨ (∃ bytes, s.pool.get i = .ok (.rawUtf8 bytes)) ∨
      ∃ old, s.pool.get i = .ok (.utf8 old) ∧ role.rename s.rules old = .ok none

/-! ## Advancing -/

namespace Rewriter

variable {s s₁ s₂ : Rewriter} {i : Index}

/-- Settled entries stay settled, and those that are not are as they were. -/
structure Advances (s s' : Rewriter) : Prop where
  rules : s'.rules = s.rules
  settled : ∀ i ∈ s.settled, i ∈ s'.settled
  kept : ∀ i, i ∉ s'.settled → s'.pool.get i = s.pool.get i

theorem Advances.refl (s : Rewriter) : Advances s s := ⟨rfl, fun _ h => h, fun _ _ => rfl⟩

theorem Advances.trans (h₁ : Advances s s₁) (h₂ : Advances s₁ s₂) : Advances s s₂ where
  rules := h₂.rules.trans h₁.rules
  settled i hi := h₂.settled i (h₁.settled i hi)
  kept i hi := (h₂.kept i hi).trans (h₁.kept i fun h => hi (h₂.settled i h))

theorem Advances.tell (s : Rewriter) (events : Array Event) : Advances s { s with events } :=
  ⟨rfl, fun _ h => h, fun _ _ => rfl⟩

theorem Advances.settle (s : Rewriter) (i : Index) :
    Advances s { s with settled := s.settled.insert i } :=
  ⟨rfl, fun _ h => mem_settle.2 (.inr h), fun _ _ => rfl⟩

/-- An entry is replaced and settled. -/
theorem Advances.replace {c d : Constant} {p : Pool} {settled : Std.TreeSet Index}
    {replaced : List Index} {events : Array Event} (hp : s.pool.replace i c = .ok (d, p))
    (hsettled : ∀ j ∈ s.settled, j ∈ settled) (hi : i ∈ settled) :
    Advances s { s with pool := p, settled, replaced, events } where
  rules := rfl
  settled := hsettled
  kept _ hj := Pool.get_replace_of_ne hp fun e => hj (e ▸ hi)

end Rewriter

/-- What is done with stays so. -/
theorem Reference.Done.mono {s s' : Rewriter} (h : s.Advances s') {r : Reference}
    (hr : r.Done s) : r.Done s' := by
  cases r with
  | constant i => exact h.settled i hr
  | value i =>
    intro text hget
    by_cases hi : i ∈ s'.settled
    · exact hi
    · exact h.settled i (hr text ((h.kept i hi).symm.trans hget))
  | text use =>
    obtain ⟨role, i⟩ := use
    by_cases hi : i ∈ s'.settled
    · exact .inl hi
    · rw [Reference.Done, h.kept i hi, h.rules]
      exact hr.imp_left (h.settled i)

namespace Rewrite

open Rewriter

variable {α β γ : Type} {s s' : Rewriter} {role : Role} {i : Index}

/-! ## Constants -/

/-- Once `m` has ended well, the references in `rs` are done with. -/
def Finishes (rs : List Reference) (m : Rewrite Bool) : Prop :=
  ∀ ⦃s changed s'⦄, m.outcome s = (.ok changed, s') → s.Advances s' ∧ ∀ r ∈ rs, r.Done s'

theorem Finishes.nothing : Finishes [] (pure false) := by
  intro s changed s' h
  cases h
  exact ⟨.refl s, fun r hr => absurd hr List.not_mem_nil⟩

theorem Repointing.advances {j : Index} {c : Constant} {changed : Bool}
    (h : Repointing role i j c s (.ok changed) s') (hi : i ∈ s.settled) : s.Advances s' := by
  cases h with
  | kept => exact .tell s _
  | shared _ _ _ _ _ hp => exact .replace hp (fun _ h => h) hi
  | overwritten _ _ _ hp =>
    exact .replace hp (fun _ h => mem_settle.2 (.inr h)) (mem_settle.2 (.inl rfl))

theorem Finishes.of_referring {m : Rewrite Bool} (h : ∀ s, Referring role m i s) :
    Finishes [.constant i] m := by
  intro s changed s' hm
  have hi : i ∈ s.settled.insert i := mem_settle.2 (.inl rfl)
  suffices hs : s.Advances s' ∧ (Reference.constant i).Done s' from
    ⟨hs.1, List.forall_mem_singleton.2 hs.2⟩
  cases h s with
  | settled _ hm' =>
    cases hm'.symm.trans hm
    exact ⟨.settle s i, hi⟩
  | failed hm' => cases hm'.symm.trans hm
  | refers _ _ _ hm' hrep =>
    cases hm'.symm.trans hm
    have hadvances := hrep.advances hi
    exact ⟨(Advances.settle s i).trans hadvances, hadvances.settled i hi⟩

theorem Finishes.renameClass (i : Index) : Finishes [.constant i] (renameClass i) :=
  .of_referring (renameClass_referring i)

theorem Finishes.renameConstantValue (i : Index) : Finishes [.value i] (renameConstantValue i) := by
  intro s changed s' h
  obtain ⟨c, s₁, hc, h⟩ := outcome_bind_eq_ok h
  rw [outcome_constant] at hc
  obtain ⟨hget, rfl⟩ := Prod.mk.inj hc
  suffices hs : s.Advances s' ∧ (Reference.value i).Done s' from
    ⟨hs.1, List.forall_mem_singleton.2 hs.2⟩
  cases c with
  | string text =>
    obtain ⟨hadvances, hdone⟩ := Finishes.of_referring (renameStringConstant_referring i) h
    exact ⟨hadvances, fun _ _ => hdone _ List.mem_cons_self⟩
  | _ =>
    cases h
    refine ⟨.refl s, fun text hstring => ?_⟩
    cases hget.symm.trans hstring

/-! ## Parts -/

/-- Once `m` has rewritten a part `x`, what `k` lists for it as it then is, is done with. -/
def Settles (k : α → List Reference) (x : α) (m : Rewrite (Option α)) : Prop :=
  ∀ ⦃s x' s'⦄, m.outcome s = (.ok x', s') → s.Advances s' ∧ ∀ r ∈ k (x'.getD x), r.Done s'

variable {k : α → List Reference} {x : α} {l : β → List Reference} {y : β}
  {m : Rewrite (Option α)} {n : Rewrite (Option β)}

theorem Settles.of_onlyTells (h : OnlyTells m) (hk : k x = []) : Settles k x m := by
  intro s x' s' hm
  obtain ⟨r, events, hr, hnone⟩ := h s
  cases hr.symm.trans hm
  cases hnone x' rfl
  rw [Option.getD_none, hk]
  exact ⟨.tell s events, fun r hr => absurd hr List.not_mem_nil⟩

theorem Settles.flag {m : Rewrite Bool} (h : Finishes (k x) m) :
    Settles k x (do return if ← m then some x else none) := by
  intro s x' s' hm
  obtain ⟨changed, s₁, hx, hm⟩ := outcome_bind_eq_ok hm
  cases hm
  have e : (if changed then some x else none).getD x = x := by cases changed <;> rfl
  rw [e]
  exact h hx

theorem Settles.flags {m n : Rewrite Bool} {rs qs : List Reference} (hm : Finishes rs m)
    (hn : Finishes qs n) (hk : k x = rs ++ qs) :
    Settles k x (do
      let a ← m
      let b ← n
      return if a || b then some x else none) := by
  intro s x' s' h
  obtain ⟨a, s₁, ha, h⟩ := outcome_bind_eq_ok h
  obtain ⟨b, s₂, hb, h⟩ := outcome_bind_eq_ok h
  cases h
  obtain ⟨h₁, hrs⟩ := hm ha
  obtain ⟨h₂, hqs⟩ := hn hb
  have e : (if a || b then some x else none).getD x = x := by cases a || b <;> rfl
  rw [e, hk]
  exact ⟨h₁.trans h₂, List.forall_mem_append.2 ⟨fun r hr => (hrs r hr).mono h₂, hqs⟩⟩

theorem Settles.map {f : α → β} (h : Settles k x m) (hk : ∀ u, l (f u) = k u) :
    Settles l (f x) (do return (← m).map f) := by
  intro s y' s' hm
  obtain ⟨x', s₁, hx, hm⟩ := outcome_bind_eq_ok hm
  cases hm
  have e : (x'.map f).getD (f x) = f (x'.getD x) := by cases x' <;> rfl
  rw [e, hk]
  exact h hx

/-- Two parts make one: what the first has settled stays so while the second is rewritten. -/
theorem Settles.both {f : α → β → γ} {q : γ → List Reference} (hm : Settles k x m)
    (hn : Settles l y n) (hk : ∀ u v, q (f u v) = k u ++ l v) :
    Settles q (f x y) (do
      let x' ← m
      let y' ← n
      if x'.isNone && y'.isNone then return none
      return some (f (x'.getD x) (y'.getD y))) := by
  intro s z' s' h
  obtain ⟨x', s₁, hx, h⟩ := outcome_bind_eq_ok h
  obtain ⟨y', s₂, hy, h⟩ := outcome_bind_eq_ok h
  obtain ⟨h₁, hxs⟩ := hm hx
  obtain ⟨h₂, hys⟩ := hn hy
  rw [← apply_ite pure] at h
  cases h
  have e : (if x'.isNone && y'.isNone then none
      else some (f (x'.getD x) (y'.getD y))).getD (f x y) = f (x'.getD x) (y'.getD y) := by
    cases x' <;> cases y' <;> rfl
  rw [e, hk]
  exact ⟨h₁.trans h₂, List.forall_mem_append.2 ⟨fun r hr => (hxs r hr).mono h₂, hys⟩⟩

theorem Settles.cons {xs : List α} {n : Rewrite (Option (List α))} {p : List α → List Reference}
    (hm : Settles k x m) (hn : Settles p xs n) (hk : ∀ u us, p (u :: us) = k u ++ p us) :
    Settles p (x :: xs) (do
      let x' ← m
      let xs' ← n
      return consChanged x xs x' xs') := by
  have := hm.both hn hk
  simp only [consChanged_eq]
  simpa only [apply_ite pure] using this

theorem Settles.rewriteEach {f : α → Rewrite (Option α)} (h : ∀ x, Settles k x (f x))
    (xs : List α) : Settles (List.flatMap k) xs (rewriteEach f xs) := by
  induction xs with
  | nil => exact .of_onlyTells .nothing rfl
  | cons x xs ih => exact (h x).cons ih fun _ _ => List.flatMap_cons

theorem utf8_of_renameUtf8 {new : Option Index} (h : (renameUtf8 role i).outcome s = (.ok new, s'))
    (hi : i ∉ s.settled) :
    (∃ text, s.pool.get i = .ok (.utf8 text)) ∨ ∃ bytes, s.pool.get i = .ok (.rawUtf8 bytes) := by
  simp only [renameUtf8, outcome_bind, outcome_isSettled, outcome_constant,
    Std.TreeSet.contains_iff_mem, if_neg hi] at h
  cases hget : s.pool.get i with
  | error e => rw [hget] at h; cases h
  | ok c =>
    rw [hget] at h
    cases c with
    | utf8 text => exact .inl ⟨text, rfl⟩
    | rawUtf8 bytes => exact .inr ⟨bytes, rfl⟩
    | _ => cases h

theorem Settles.renameUtf8 (role : Role) (i : Index) :
    Settles (fun j => [.text (role, j)]) i (renameUtf8 role i) := by
  intro s new s' h
  suffices hs : s.Advances s' ∧ (Reference.text (role, new.getD i)).Done s' from
    ⟨hs.1, List.forall_mem_singleton.2 hs.2⟩
  obtain ⟨r, s₁, hr, hren⟩ := renameUtf8_renaming role i s
  cases hr.symm.trans h
  cases hren with
  | @kept events hstays =>
    have hadvances : s.Advances { s with events } := .tell s events
    refine ⟨hadvances, Reference.Done.mono hadvances ?_⟩
    by_cases hi : i ∈ s.settled
    · exact .inl hi
    · rcases utf8_of_renameUtf8 h hi with ⟨text, hget⟩ | hraw
      · exact .inr (.inr ⟨text, hget, hstays.resolve_left hi text hget⟩)
      · exact .inr (.inl hraw)
  | shared _ _ _ _ hj => exact ⟨.tell s _, .inl hj⟩
  | overwritten _ _ _ hp =>
    have hi : i ∈ s.settled.insert i := mem_settle.2 (.inl rfl)
    exact ⟨.replace hp (fun _ h => mem_settle.2 (.inr h)) hi, .inl hi⟩

theorem Settles.rewriteClass (i : Index) :
    Settles (fun j => [.constant j]) i (rewriteClass i) :=
  .flag (.renameClass i)

/-! ## Annotations -/

mutual

theorem Settles.rewriteValue :
    (v : ElementValue) → Settles (fun v => v.texts.map .text) v (rewriteValue v)
  | .const _ _ => .of_onlyTells .nothing rfl
  | .enumConst type name =>
    (Settles.renameUtf8 .descriptor type).map (f := (ElementValue.enumConst · name)) fun _ => rfl
  | .classLiteral descriptor =>
    (Settles.renameUtf8 .classLiteral descriptor).map (f := ElementValue.classLiteral) fun _ => rfl
  | .nested a => (Settles.rewriteAnnotationInfo a).map (f := ElementValue.nested) fun _ => rfl
  | .array vs => (Settles.rewriteValues vs).map (f := ElementValue.array) fun _ => rfl

theorem Settles.rewriteValues :
    (vs : List ElementValue) →
      Settles (fun vs => (ElementValue.textsOfAll vs).map .text) vs (rewriteValues vs)
  | [] => .of_onlyTells .nothing rfl
  | v :: vs =>
    (Settles.rewriteValue v).cons (Settles.rewriteValues vs) fun _ _ => List.map_append

theorem Settles.rewriteAnnotationInfo :
    (a : AnnotationInfo) → Settles AnnotationInfo.references a (rewriteAnnotationInfo a)
  | ⟨type, elements⟩ =>
    (Settles.renameUtf8 .descriptor type).both (Settles.rewriteElements elements)
      (f := AnnotationInfo.mk) fun _ _ => rfl

theorem Settles.rewriteElements :
    (es : List (Index × ElementValue)) →
      Settles (fun es => (AnnotationInfo.textsOfElements es).map .text) es (rewriteElements es)
  | [] => .of_onlyTells .nothing rfl
  | (name, v) :: rest => by
    have hv : Settles (fun e : Index × ElementValue => e.2.texts.map .text) (name, v)
        (do return (← Rewrite.rewriteValue v).map (name, ·)) :=
      (Settles.rewriteValue v).map (f := (name, ·)) fun _ => rfl
    have := hv.cons (Settles.rewriteElements rest) fun _ _ => List.map_append
    simpa only [bind_assoc, pure_bind, Rewrite.rewriteElements] using this

end

theorem Settles.rewriteTypeAnnotationInfo (a : TypeAnnotationInfo) :
    Settles (·.info.references) a (rewriteTypeAnnotationInfo a) :=
  (Settles.rewriteAnnotationInfo a.info).map (f := fun info => { a with info }) fun _ => rfl

/-! ## Other parts -/

theorem Settles.rewriteVerificationType (t : VerificationType) :
    Settles VerificationType.references t (rewriteVerificationType t) := by
  cases t with
  | object i => exact (Settles.rewriteClass i).map (f := VerificationType.object) fun _ => rfl
  | _ => exact .of_onlyTells .nothing rfl

theorem Settles.rewriteFrame (f : Frame) : Settles Frame.references f (rewriteFrame f) := by
  have each := Settles.rewriteEach Settles.rewriteVerificationType
  cases f with
  | sameLocalsOneStack delta stack =>
    exact (Settles.rewriteVerificationType stack).map (f := Frame.sameLocalsOneStack delta)
      fun _ => rfl
  | sameLocalsOneStackExtended delta stack =>
    exact (Settles.rewriteVerificationType stack).map (f := Frame.sameLocalsOneStackExtended delta)
      fun _ => rfl
  | append delta locals => exact (each locals).map (f := Frame.append delta) fun _ => rfl
  | full delta locals stack =>
    exact (each locals).both (each stack) (f := Frame.full delta) fun _ _ => rfl
  | _ => exact .of_onlyTells .nothing rfl

theorem Settles.rewriteHandler (h : Handler) : Settles Handler.references h (rewriteHandler h) := by
  obtain ⟨start, stop, target, catchType⟩ := h
  cases catchType with
  | none => exact .of_onlyTells .nothing rfl
  | some i => exact .flag (.renameClass i)

theorem Settles.rewriteInnerClass (c : InnerClass) :
    Settles InnerClass.references c (rewriteInnerClass c) := by
  obtain ⟨inner, outer, name, access⟩ := c
  cases outer with
  | none => exact .flags (.renameClass inner) .nothing rfl
  | some i => exact .flags (.renameClass inner) (.renameClass i) rfl

theorem Settles.rewriteVariable (role : Role) (v : LocalVariable) :
    Settles (fun v => [.text (role, v.type)]) v (rewriteVariable role v) :=
  (Settles.renameUtf8 role v.type).map (f := fun type => { v with type }) fun _ => rfl

/-! ## Attributes -/

mutual

theorem Settles.rewriteAttribute (kind : SignatureKind) :
    (a : Attribute) → Settles (Attribute.references kind) a (rewriteAttribute kind a)
  | ⟨name, body⟩ =>
    (Settles.rewriteBody kind name body).map (f := Attribute.mk name) fun _ => rfl

theorem Settles.rewriteBody (kind : SignatureKind) (name : Index) :
    (body : AttributeBody) →
      Settles (AttributeBody.references kind) body (rewriteBody kind name body)
  | .constantValue i => .flag (.renameConstantValue i)
  | .code c => (Settles.rewriteCode c).map (f := AttributeBody.code) fun _ => rfl
  | .stackMapTable frames =>
    (Settles.rewriteEach .rewriteFrame frames).map (f := AttributeBody.stackMapTable) fun _ => rfl
  | .exceptions classes =>
    (Settles.rewriteEach .rewriteClass classes).map (f := AttributeBody.exceptions) fun _ => rfl
  | .innerClasses classes =>
    (Settles.rewriteEach .rewriteInnerClass classes).map (f := AttributeBody.innerClasses)
      fun _ => rfl
  | .enclosingMethod owner none => .flags (.renameClass owner) .nothing rfl
  | .enclosingMethod owner (some i) =>
    .flags (.renameClass owner) (.of_referring (renameNameAndType_referring i)) rfl
  | .signature text =>
    (Settles.renameUtf8 (.signature kind) text).map (f := AttributeBody.signature) fun _ => rfl
  | .localVariableTable vars =>
    (Settles.rewriteEach (.rewriteVariable .descriptor) vars).map
      (f := AttributeBody.localVariableTable) fun _ => rfl
  | .localVariableTypeTable vars =>
    (Settles.rewriteEach (.rewriteVariable (.signature .ofField)) vars).map
      (f := AttributeBody.localVariableTypeTable) fun _ => rfl
  | .annotations retention as =>
    (Settles.rewriteEach .rewriteAnnotationInfo as).map (f := AttributeBody.annotations retention)
      fun _ => rfl
  | .parameterAnnotations retention ps =>
    (Settles.rewriteEach (.rewriteEach .rewriteAnnotationInfo) ps).map
      (f := AttributeBody.parameterAnnotations retention) fun _ => rfl
  | .typeAnnotations retention as =>
    (Settles.rewriteEach .rewriteTypeAnnotationInfo as).map
      (f := AttributeBody.typeAnnotations retention) fun _ => rfl
  | .annotationDefault value =>
    (Settles.rewriteValue value).map (f := AttributeBody.annotationDefault) fun _ => rfl
  | .nestHost _ => .of_onlyTells (.told _) rfl
  | .nestMembers _ => .of_onlyTells (.told _) rfl
  | .other bytes => .of_onlyTells (.other kind name bytes) rfl

theorem Settles.rewriteCode : (c : Code) → Settles Code.references c (rewriteCode c)
  | ⟨maxStack, maxLocals, instructions, handlers, attributes⟩ =>
    (Settles.rewriteEach .rewriteHandler handlers).both
      (Settles.rewriteAttributes .ofMethod attributes)
      (f := Code.mk maxStack maxLocals instructions) fun _ _ => rfl

theorem Settles.rewriteAttributes (kind : SignatureKind) :
    (as : List Attribute) →
      Settles (Attribute.referencesOfAll kind) as (rewriteAttributes kind as)
  | [] => .of_onlyTells .nothing rfl
  | a :: rest =>
    (Settles.rewriteAttribute kind a).cons (Settles.rewriteAttributes kind rest) fun _ _ => rfl

end

/-- All that a rewritten attribute refers to, at any depth, is done with. -/
theorem rewriteAttribute_settles {kind : SignatureKind} {a : Attribute} {a' : Option Attribute}
    (h : (rewriteAttribute kind a).outcome s = (.ok a', s')) :
    s'.rules = s.rules ∧ ∀ r ∈ (a'.getD a).references kind, r.Done s' := by
  obtain ⟨hadvances, hdone⟩ := Settles.rewriteAttribute kind a h
  exact ⟨hadvances.rules, hdone⟩

/-- Code that catches an exception of `p.a`, with a frame, two variables of one type, a signature
and an annotation that has another in it. -/
def nestedCode : Attribute where
  name := 1
  body := .code {
    maxStack := 1
    maxLocals := 2
    instructions := [0xB1]
    handlers := [⟨0, 1, 0, some 3⟩, ⟨0, 1, 0, none⟩]
    attributes := [
      ⟨1, .stackMapTable [.full 0 [.object 3] [.object 5]]⟩,
      ⟨1, .localVariableTable [⟨0, 1, 1, 6, 0⟩, ⟨0, 1, 1, 7, 1⟩]⟩,
      ⟨1, .signature 8⟩,
      ⟨1, .annotations .visible
        [⟨6, [(1, .array [.classLiteral 9, .nested ⟨7, [(1, .enumConst 10 1)]⟩])]⟩]⟩] }

/-- The rule for the packages below `p.a`, at a class with `nestedCode`. -/
def atNestedCode : Rewriter where
  rules := .ofSorted [⟨"p.a", "q", true⟩]
  pool := Pool.ofList [.utf8 "Code", .utf8 "p/a/Error", .classInfo 2, .utf8 "p/a/Node",
    .classInfo 4, .utf8 "Lp/a/Node;", .utf8 "Lp/a/Node;", .utf8 "<T:Lp/a/Node;>(TT;)V", .utf8 "V",
    .rawUtf8 [0xFF]]

theorem rewriteAttribute_settles_nestedCode :
    ∃ a' s', (rewriteAttribute .ofMethod nestedCode).outcome atNestedCode = (.ok (some a'), s') ∧
      s'.rules = atNestedCode.rules ∧ ∀ r ∈ a'.references .ofMethod, r.Done s' := by
  have hsome : ((rewriteAttribute .ofMethod nestedCode).outcome
      atNestedCode).1.toOption.join.isSome = true := by
    decide +kernel
  rcases h : (rewriteAttribute .ofMethod nestedCode).outcome atNestedCode with ⟨_ | _ | a', s'⟩
  · rw [h] at hsome; cases hsome
  · rw [h] at hsome; cases hsome
  · exact ⟨a', s', rfl, rewriteAttribute_settles h⟩

end Rewrite

end Repackage
