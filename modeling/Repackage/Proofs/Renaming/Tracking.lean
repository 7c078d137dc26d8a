import Repackage.Proofs.Encoding.Skeleton
import Repackage.Proofs.Renaming.ClassFile

/-!
# Changes are told

Renaming tells what it changed by its results: a constant by a flag, a part by giving a new
value, a list of parts by a count. `Touch touched s s'` says whether the pool was written to
between two states. A flag is `true` exactly if it was (`Signals`); a part gives `none` exactly
if neither the pool nor the part has changed, and its skeleton stays in either case (`Tracks`).
-/

namespace Repackage

/-! ## Writing to the pool -/

namespace Rewriter

variable {a b : Bool} {s s₁ s₂ : Rewriter}

/-- Whether anything was replaced between two states. -/
inductive Touch : Bool → Rewriter → Rewriter → Prop where
  | still {s s' : Rewriter} : s'.pool = s.pool → s'.replaced = s.replaced → Touch false s s'
  | wrote {s s' : Rewriter} : s.replaced.length < s'.replaced.length → Touch true s s'

theorem Touch.refl (s : Rewriter) : Touch false s s := .still rfl rfl

theorem Touch.length_le (h : Touch a s s₁) : s.replaced.length ≤ s₁.replaced.length := by
  cases h with
  | still _ hr => exact Nat.le_of_eq (congrArg List.length hr.symm)
  | wrote hlt => exact Nat.le_of_lt hlt

theorem Touch.trans (h₁ : Touch a s s₁) (h₂ : Touch b s₁ s₂) : Touch (a || b) s s₂ := by
  cases h₁ with
  | wrote hlt => exact .wrote (Nat.lt_of_lt_of_le hlt h₂.length_le)
  | still hp hr =>
    cases h₂ with
    | still hp' hr' => exact .still (hp'.trans hp) (hr'.trans hr)
    | wrote hlt => exact .wrote (hr ▸ hlt)

end Rewriter

namespace Rewrite

open Rewriter

variable {α β γ δ ε ζ : Type} {s s' : Rewriter} {role : Role} {i : Index}

/-! ## Flags -/

/-- The flag that `m` returns says whether it wrote to the pool. -/
def Signals (m : Rewrite Bool) : Prop :=
  ∀ ⦃s changed s'⦄, m.outcome s = (.ok changed, s') → Touch changed s s'

theorem Signals.pure_false : Signals (pure false) := by
  intro s changed s' h
  cases h
  exact .refl s

theorem Signals.of_referring {m : Rewrite Bool} (h : ∀ s, Referring role m i s) : Signals m := by
  intro s changed s' hm
  cases h s with
  | settled _ hm' =>
    cases hm'.symm.trans hm
    exact .still rfl rfl
  | failed hm' => cases hm'.symm.trans hm
  | refers _ _ _ hm' hrep =>
    cases hm'.symm.trans hm
    cases hrep with
    | kept => exact .still rfl rfl
    | shared => exact .wrote (Nat.lt_succ_self _)
    | overwritten => exact .wrote (Nat.lt_succ_self _)

theorem Signals.renameClass (i : Index) : Signals (renameClass i) :=
  .of_referring (renameClass_referring i)

theorem Signals.renameNameAndType (i : Index) : Signals (renameNameAndType i) :=
  .of_referring (renameNameAndType_referring i)

theorem Signals.renameStringConstant (i : Index) : Signals (renameStringConstant i) :=
  .of_referring (renameStringConstant_referring i)

theorem Signals.renameEntry (i : Index) : Signals (renameEntry i) := by
  intro s changed s' h
  obtain ⟨r, s₁, hm, hrewording⟩ := renameEntry_rewording i s
  cases hm.symm.trans h
  cases hrewording with
  | kept => exact .still rfl rfl
  | renamed => exact .wrote (Nat.lt_succ_self _)

theorem Signals.after_constant {f : Constant → Rewrite Bool} (h : ∀ c, Signals (f c)) :
    Signals (constant i >>= f) := by
  intro s changed s' hm
  obtain ⟨c, s₁, hc, hm⟩ := outcome_bind_eq_ok hm
  cases (Prod.mk.inj hc).2
  exact h c hm

theorem Signals.renameConstantValue (i : Index) : Signals (renameConstantValue i) := by
  refine .after_constant fun c => ?_
  cases c with
  | string text => exact .renameStringConstant i
  | _ => exact .pure_false

theorem Signals.renameConstant (i : Index) : Signals (renameConstant i) := by
  refine .after_constant fun c => ?_
  cases c with
  | classInfo name => exact .renameClass i
  | nameAndType name descriptor => exact .renameNameAndType i
  | methodType descriptor => exact .of_referring (renameMethodType_referring i)
  | string text => exact .renameStringConstant i
  | utf8 text => exact .renameEntry i
  | _ => exact .pure_false

theorem renameConstants_counts {is : List Index} {count total : Nat}
    (h : (renameConstants is count).outcome s = (.ok total, s')) :
    count ≤ total ∧ Touch (decide (count < total)) s s' := by
  induction is generalizing s count with
  | nil =>
    cases h
    refine ⟨Nat.le_refl _, ?_⟩
    rw [decide_eq_false (Nat.lt_irrefl _)]
    exact .refl _
  | cons i is ih =>
    obtain ⟨changed, s₁, hi, h⟩ := outcome_bind_eq_ok h
    have h₁ := Signals.renameConstant i hi
    obtain ⟨hle, h₂⟩ := ih h
    cases changed with
    | false => exact ⟨hle, h₁.trans h₂⟩
    | true =>
      have hlt : count < total := hle
      refine ⟨Nat.le_of_lt hlt, ?_⟩
      rw [decide_eq_true hlt]
      exact h₁.trans h₂

theorem renamePool_counts {total : Nat} (h : renamePool.outcome s = (.ok total, s')) :
    Touch (decide (0 < total)) s s' := by
  obtain ⟨_, _, hget, h⟩ := outcome_bind_eq_ok h
  cases hget
  obtain ⟨changed, s₁, hall, h⟩ := outcome_bind_eq_ok h
  cases h
  rw [← Bool.or_false (decide _)]
  exact (renameConstants_counts hall).2.trans (.still rfl rfl)

/-! ## Parts -/

/-- `x'` is what a part `x` becomes, where `none` stands for no change: neither in the part nor,
as `touched` says, in the pool. The function `k` gives what may not change. -/
structure Tracked (k : α → β) (x : α) (x' : Option α) (touched : Bool) : Prop where
  skeleton : k (x'.getD x) = k x
  silent : x' = none ↔ touched = false ∧ x'.getD x = x

def Tracks (k : α → β) (x : α) (m : Rewrite (Option α)) : Prop :=
  ∀ ⦃s x' s'⦄, m.outcome s = (.ok x', s') → ∃ touched, Touch touched s s' ∧ Tracked k x x' touched

variable {k : α → β} {x : α} {x' : Option α} {y : γ} {y' : Option γ} {l : γ → δ} {a b : Bool}
  {m : Rewrite (Option α)} {n : Rewrite (Option γ)}

theorem Tracked.unchanged : Tracked k x none false := ⟨rfl, by simp⟩

/-- A part that is itself unchanged. -/
theorem Tracked.flag (changed : Bool) : Tracked k x (if changed then some x else none) changed := by
  cases changed with
  | false => exact .unchanged
  | true => exact ⟨rfl, by simp⟩

theorem Tracked.map {f : α → γ} (h : Tracked k x x' a) (hf : ∀ y, f y = f x → y = x)
    (hk : ∀ y, k y = k x → l (f y) = l (f x)) : Tracked l (f x) (x'.map f) a := by
  have e : (x'.map f).getD (f x) = f (x'.getD x) := by cases x' <;> rfl
  refine ⟨e ▸ hk _ h.skeleton, ?_⟩
  rw [e, Option.map_eq_none_iff, h.silent]
  exact and_congr_right fun _ => ⟨congrArg f, hf _⟩

/-- Two parts make one. -/
theorem Tracked.both {f : α → γ → ε} {q : ε → ζ} (hx : Tracked k x x' a) (hy : Tracked l y y' b)
    (hf : ∀ u v, f u v = f x y → u = x ∧ v = y)
    (hk : ∀ u v, k u = k x → l v = l y → q (f u v) = q (f x y)) :
    Tracked q (f x y)
      (if x'.isNone && y'.isNone then none else some (f (x'.getD x) (y'.getD y))) (a || b) := by
  have hnone : (x'.isNone && y'.isNone) = true ↔
      (a || b) = false ∧ f (x'.getD x) (y'.getD y) = f x y := by
    rw [Bool.and_eq_true, Option.isNone_iff_eq_none, Option.isNone_iff_eq_none, hx.silent,
      hy.silent, Bool.or_eq_false_iff]
    constructor
    · rintro ⟨⟨rfl, ex⟩, rfl, ey⟩
      exact ⟨⟨rfl, rfl⟩, by rw [ex, ey]⟩
    · rintro ⟨⟨rfl, rfl⟩, e⟩
      exact ⟨⟨rfl, (hf _ _ e).1⟩, rfl, (hf _ _ e).2⟩
  split
  · rename_i h
    exact ⟨rfl, by simpa using (hnone.1 h).1⟩
  · rename_i h
    refine ⟨hk _ _ hx.skeleton hy.skeleton, ?_⟩
    rw [Option.getD_some, ← hnone]
    exact ⟨(nomatch ·), fun e => absurd e h⟩

theorem consChanged_eq (x : α) (xs : List α) (x' : Option α) (xs' : Option (List α)) :
    consChanged x xs x' xs' =
      if x'.isNone && xs'.isNone then none else some (x'.getD x :: xs'.getD xs) := by
  cases x' <;> cases xs' <;> rfl

theorem Tracks.of_still (h : ∀ s x' s', m.outcome s = (.ok x', s') →
    x' = none ∧ s'.pool = s.pool ∧ s'.replaced = s.replaced) : Tracks k x m := by
  intro s x' s' hm
  obtain ⟨rfl, hp, hr⟩ := h s x' s' hm
  exact ⟨false, .still hp hr, .unchanged⟩

theorem Tracks.unchanged : Tracks k x (pure none) := by
  refine .of_still fun s x' s' h => ?_
  cases h
  exact ⟨rfl, rfl, rfl⟩

theorem Tracks.of_told {e : Event} : Tracks k x (do tell e; return none) := by
  refine .of_still fun s x' s' h => ?_
  cases h
  exact ⟨rfl, rfl, rfl⟩

theorem Tracks.map (h : Tracks k x m) (f : α → γ) (hf : ∀ y, f y = f x → y = x)
    (hk : ∀ y, k y = k x → l (f y) = l (f x)) :
    Tracks l (f x) (do return (← m).map f) := by
  intro s y' s' hm
  obtain ⟨x', s₁, hx, hm⟩ := outcome_bind_eq_ok hm
  cases hm
  obtain ⟨a, htouch, htracked⟩ := h hx
  exact ⟨a, htouch, htracked.map hf hk⟩

/-- A part that refers to constants by indices which it keeps. -/
theorem Tracks.flag {m : Rewrite Bool} (h : Signals m) :
    Tracks k x (do return if ← m then some x else none) := by
  intro s x' s' hm
  obtain ⟨changed, s₁, hx, hm⟩ := outcome_bind_eq_ok hm
  cases hm
  exact ⟨changed, h hx, .flag changed⟩

theorem Tracks.flags {m n : Rewrite Bool} (hm : Signals m) (hn : Signals n) :
    Tracks k x (do
      let a ← m
      let b ← n
      return if a || b then some x else none) := by
  intro s x' s' h
  obtain ⟨a, s₁, ha, h⟩ := outcome_bind_eq_ok h
  obtain ⟨b, s₂, hb, h⟩ := outcome_bind_eq_ok h
  cases h
  exact ⟨a || b, (hm ha).trans (hn hb), .flag _⟩

theorem Tracks.both {f : α → γ → ε} {q : ε → ζ} (hm : Tracks k x m) (hn : Tracks l y n)
    (hf : ∀ u v, f u v = f x y → u = x ∧ v = y)
    (hk : ∀ u v, k u = k x → l v = l y → q (f u v) = q (f x y)) :
    Tracks q (f x y) (do
      let x' ← m
      let y' ← n
      if x'.isNone && y'.isNone then return none
      return some (f (x'.getD x) (y'.getD y))) := by
  intro s z' s' h
  obtain ⟨x', s₁, hx, h⟩ := outcome_bind_eq_ok h
  obtain ⟨y', s₂, hy, h⟩ := outcome_bind_eq_ok h
  obtain ⟨a, touch₁, tracked₁⟩ := hm hx
  obtain ⟨b, touch₂, tracked₂⟩ := hn hy
  rw [← apply_ite pure] at h
  cases h
  exact ⟨a || b, touch₁.trans touch₂, tracked₁.both tracked₂ hf hk⟩

theorem Tracks.cons {xs : List α} {n : Rewrite (Option (List α))} {p : List α → δ}
    (hm : Tracks k x m) (hn : Tracks p xs n)
    (hk : ∀ u us, k u = k x → p us = p xs → p (u :: us) = p (x :: xs)) :
    Tracks p (x :: xs) (do
      let x' ← m
      let xs' ← n
      return consChanged x xs x' xs') := by
  intro s z' s' h
  obtain ⟨x', s₁, hx, h⟩ := outcome_bind_eq_ok h
  obtain ⟨xs', s₂, hxs, h⟩ := outcome_bind_eq_ok h
  obtain ⟨a, touch₁, tracked₁⟩ := hm hx
  obtain ⟨b, touch₂, tracked₂⟩ := hn hxs
  cases h
  rw [consChanged_eq]
  exact ⟨a || b, touch₁.trans touch₂,
    tracked₁.both tracked₂ (fun _ _ e => List.cons.inj e) hk⟩

theorem Tracks.rewriteEach {f : α → Rewrite (Option α)} {xs : List α}
    (h : ∀ x, Tracks k x (f x)) : Tracks (List.map k) xs (rewriteEach f xs) := by
  induction xs with
  | nil => exact .unchanged
  | cons x xs ih =>
    exact (h x).cons ih fun u us hu hus => by rw [List.map_cons, List.map_cons, hu, hus]

theorem Tracks.rewriteEachKept {f : α → Rewrite (Option α)} (xs : List α)
    (h : ∀ x, Tracks id x (f x)) : Tracks id xs (Repackage.rewriteEach f xs) := by
  rw [← List.map_id_fun]
  exact .rewriteEach h

/-- A text is referred to by an index that may change. -/
theorem Tracks.renameUtf8 {k : Index → β} (role : Role) (hk : ∀ j, k j = k i) :
    Tracks k i (renameUtf8 role i) := by
  intro s new s' h
  obtain ⟨r, s₁, hr, hren⟩ := renameUtf8_renaming role i s
  cases hr.symm.trans h
  cases hren with
  | kept => exact ⟨false, .still rfl rfl, .unchanged⟩
  | @shared old new j events hi _ _ _ hj =>
    refine ⟨false, .still rfl rfl, hk j, ?_⟩
    -- the entry that is shared is settled, so it is another one
    have hne : j ≠ i := fun e => hi (e ▸ hj)
    simp [hne]
  | overwritten => exact ⟨true, .wrote (Nat.lt_succ_self _), rfl, by simp⟩

theorem Tracks.rewriteClass (i : Index) : Tracks id i (rewriteClass i) := .flag (.renameClass i)

/-! ## Annotations -/

mutual

theorem Tracks.rewriteValue :
    (v : ElementValue) → Tracks ElementValue.skeleton v (rewriteValue v)
  | .const _ _ => .unchanged
  | .enumConst type name =>
    (Tracks.renameUtf8 (k := fun _ => (0 : Index)) .descriptor fun _ => rfl).map
      (ElementValue.enumConst · name) (fun _ e => by cases e; rfl) fun _ _ => rfl
  | .classLiteral descriptor =>
    (Tracks.renameUtf8 (k := fun _ => (0 : Index)) .classLiteral fun _ => rfl).map
      ElementValue.classLiteral (fun _ e => by cases e; rfl) fun _ _ => rfl
  | .nested a =>
    (Tracks.rewriteAnnotationInfo a).map ElementValue.nested (fun _ e => by cases e; rfl)
      fun b h => by rw [ElementValue.skeleton, ElementValue.skeleton, h]
  | .array vs =>
    (Tracks.rewriteValues vs).map ElementValue.array (fun _ e => by cases e; rfl) fun ws h => by
      rw [ElementValue.skeleton, ElementValue.skeleton, h]

theorem Tracks.rewriteValues :
    (vs : List ElementValue) → Tracks ElementValue.skeletons vs (rewriteValues vs)
  | [] => .unchanged
  | v :: vs =>
    (Tracks.rewriteValue v).cons (Tracks.rewriteValues vs) fun w ws hw hws => by
      rw [ElementValue.skeletons, ElementValue.skeletons, hw, hws]

theorem Tracks.rewriteAnnotationInfo :
    (a : AnnotationInfo) → Tracks AnnotationInfo.skeleton a (rewriteAnnotationInfo a)
  | ⟨type, elements⟩ =>
    (Tracks.renameUtf8 (k := fun _ => (0 : Index)) .descriptor fun _ => rfl).both
      (Tracks.rewriteElements elements) (fun _ _ e => by cases e; exact ⟨rfl, rfl⟩)
      fun u us _ h => by rw [AnnotationInfo.skeleton, AnnotationInfo.skeleton, h]

theorem Tracks.rewriteElements :
    (es : List (Index × ElementValue)) →
      Tracks AnnotationInfo.elementSkeletons es (rewriteElements es)
  | [] => .unchanged
  | (name, v) :: rest => by
    have hv : Tracks (fun e : Index × ElementValue => (e.1, e.2.skeleton)) (name, v)
        (do return (← Rewrite.rewriteValue v).map (name, ·)) :=
      (Tracks.rewriteValue v).map (name, ·) (fun _ e => (Prod.mk.inj e).2) fun w h => by rw [h]
    have := hv.cons (Tracks.rewriteElements rest) fun u us hu hus => by
      rw [AnnotationInfo.elementSkeletons_eq_map] at hus ⊢
      rw [AnnotationInfo.elementSkeletons_eq_map] at hus ⊢
      rw [List.map_cons, List.map_cons, hu, hus]
    simpa only [bind_assoc, pure_bind, Rewrite.rewriteElements] using this

end

theorem Tracks.rewriteTypeAnnotationInfo (a : TypeAnnotationInfo) :
    Tracks TypeAnnotationInfo.skeleton a (rewriteTypeAnnotationInfo a) :=
  (Tracks.rewriteAnnotationInfo a.info).map (fun info => { a with info })
    (fun _ e => (TypeAnnotationInfo.mk.inj e).2.2.2) fun info h => by
      rw [TypeAnnotationInfo.skeleton, TypeAnnotationInfo.skeleton, h]

/-! ## Other parts -/

theorem Tracks.rewriteVerificationType (t : VerificationType) :
    Tracks id t (rewriteVerificationType t) := by
  cases t with
  | object i =>
    exact (Tracks.rewriteClass i).map VerificationType.object (fun _ e => by cases e; rfl)
      fun _ => congrArg VerificationType.object
  | _ => exact .unchanged

theorem Tracks.rewriteFrame (f : Frame) : Tracks id f (rewriteFrame f) := by
  have each (ts : List VerificationType) := Tracks.rewriteEachKept ts .rewriteVerificationType
  cases f with
  | sameLocalsOneStack delta stack =>
    exact (Tracks.rewriteVerificationType stack).map (Frame.sameLocalsOneStack delta)
      (fun _ e => by cases e; rfl) fun _ => congrArg (Frame.sameLocalsOneStack delta)
  | sameLocalsOneStackExtended delta stack =>
    exact (Tracks.rewriteVerificationType stack).map (Frame.sameLocalsOneStackExtended delta)
      (fun _ e => by cases e; rfl) fun _ => congrArg (Frame.sameLocalsOneStackExtended delta)
  | append delta locals =>
    exact (each locals).map (Frame.append delta) (fun _ e => by cases e; rfl)
      fun _ => congrArg (Frame.append delta)
  | full delta locals stack =>
    exact (each locals).both (each stack) (f := Frame.full delta)
      (fun _ _ e => (Frame.full.inj e).2) fun us vs hu hv => by
        rw [show us = locals from hu, show vs = stack from hv]
  | _ => exact .unchanged

theorem Tracks.rewriteHandler (h : Handler) : Tracks id h (rewriteHandler h) := by
  unfold Rewrite.rewriteHandler
  cases h.catchType with
  | none => exact .unchanged
  | some i => exact .flag (.renameClass i)

theorem Tracks.rewriteInnerClass (c : InnerClass) : Tracks id c (rewriteInnerClass c) := by
  unfold Rewrite.rewriteInnerClass
  cases c.outer with
  | none => exact .flags (.renameClass c.inner) .pure_false
  | some i => exact .flags (.renameClass c.inner) (.renameClass i)

theorem Tracks.rewriteVariable (role : Role) (v : LocalVariable) :
    Tracks LocalVariable.skeleton v (rewriteVariable role v) :=
  (Tracks.renameUtf8 (k := fun _ => (0 : Index)) role fun _ => rfl).map
    (fun type => { v with type }) (fun _ e => (LocalVariable.mk.inj e).2.2.2.1) fun _ _ => rfl

/-! ## Attributes -/

mutual

theorem Tracks.rewriteAttribute (kind : SignatureKind) :
    (a : Attribute) → Tracks Attribute.skeleton a (rewriteAttribute kind a)
  | ⟨name, body⟩ =>
    (Tracks.rewriteBody kind name body).map (Attribute.mk name)
      (fun _ e => (Attribute.mk.inj e).2) fun b h => by
        rw [Attribute.skeleton, Attribute.skeleton, h]

theorem Tracks.rewriteBody (kind : SignatureKind) (name : Index) :
    (body : AttributeBody) → Tracks AttributeBody.skeleton body (rewriteBody kind name body)
  | .constantValue i => .flag (.renameConstantValue i)
  | .code c =>
    (Tracks.rewriteCode c).map AttributeBody.code (fun _ e => AttributeBody.code.inj e)
      fun d h => by rw [AttributeBody.skeleton, AttributeBody.skeleton, h]
  | .stackMapTable frames =>
    (Tracks.rewriteEachKept frames .rewriteFrame).map AttributeBody.stackMapTable
      (fun _ e => AttributeBody.stackMapTable.inj e) fun _ => congrArg AttributeBody.stackMapTable
  | .exceptions classes =>
    (Tracks.rewriteEachKept classes .rewriteClass).map AttributeBody.exceptions
      (fun _ e => AttributeBody.exceptions.inj e) fun _ => congrArg AttributeBody.exceptions
  | .innerClasses classes =>
    (Tracks.rewriteEachKept classes .rewriteInnerClass).map AttributeBody.innerClasses
      (fun _ e => AttributeBody.innerClasses.inj e) fun _ => congrArg AttributeBody.innerClasses
  | .enclosingMethod owner none => .flags (.renameClass owner) .pure_false
  | .enclosingMethod owner (some i) => .flags (.renameClass owner) (.renameNameAndType i)
  | .signature text =>
    (Tracks.renameUtf8 (k := fun _ => (0 : Index)) (.signature kind) fun _ => rfl).map
      AttributeBody.signature (fun _ e => AttributeBody.signature.inj e) fun _ _ => rfl
  | .localVariableTable vars =>
    (Tracks.rewriteEach (.rewriteVariable .descriptor)).map AttributeBody.localVariableTable
      (fun _ e => AttributeBody.localVariableTable.inj e) fun _ =>
        congrArg AttributeBody.localVariableTable
  | .localVariableTypeTable vars =>
    (Tracks.rewriteEach (.rewriteVariable (.signature .ofField))).map
      AttributeBody.localVariableTypeTable
      (fun _ e => AttributeBody.localVariableTypeTable.inj e) fun _ =>
        congrArg AttributeBody.localVariableTypeTable
  | .annotations retention as =>
    (Tracks.rewriteEach .rewriteAnnotationInfo).map (AttributeBody.annotations retention)
      (fun _ e => (AttributeBody.annotations.inj e).2) fun _ =>
        congrArg (AttributeBody.annotations retention)
  | .parameterAnnotations retention ps =>
    (Tracks.rewriteEach fun _ => .rewriteEach .rewriteAnnotationInfo).map
      (AttributeBody.parameterAnnotations retention)
      (fun _ e => (AttributeBody.parameterAnnotations.inj e).2) fun _ =>
        congrArg (AttributeBody.parameterAnnotations retention)
  | .typeAnnotations retention as =>
    (Tracks.rewriteEach .rewriteTypeAnnotationInfo).map (AttributeBody.typeAnnotations retention)
      (fun _ e => (AttributeBody.typeAnnotations.inj e).2) fun _ =>
        congrArg (AttributeBody.typeAnnotations retention)
  | .annotationDefault value =>
    (Tracks.rewriteValue value).map AttributeBody.annotationDefault
      (fun _ e => AttributeBody.annotationDefault.inj e) fun _ =>
        congrArg AttributeBody.annotationDefault
  | .nestHost _ => .of_told
  | .nestMembers _ => .of_told
  | .other _ => by
    refine .of_still fun s x' s' h => ?_
    obtain ⟨_, _, hget, h⟩ := outcome_bind_eq_ok h
    cases hget
    obtain ⟨text, s₁, htext, h⟩ := outcome_bind_eq_ok h
    cases (Prod.mk.inj htext).2
    rw [outcome_ite] at h
    split at h
    · cases h
      exact ⟨rfl, rfl, rfl⟩
    · cases h
      exact ⟨rfl, rfl, rfl⟩

theorem Tracks.rewriteCode : (c : Code) → Tracks Code.skeleton c (rewriteCode c)
  | ⟨maxStack, maxLocals, instructions, handlers, attributes⟩ =>
    (Tracks.rewriteEachKept handlers .rewriteHandler).both
      (Tracks.rewriteAttributes .ofMethod attributes)
      (f := fun handlers attributes =>
        Code.mk maxStack maxLocals instructions handlers attributes)
      (fun _ _ e => (Code.mk.inj e).2.2.2) fun hs as hhs has => by
        rw [Code.skeleton, Code.skeleton, has, show hs = handlers from hhs]

theorem Tracks.rewriteAttributes (kind : SignatureKind) :
    (as : List Attribute) → Tracks Attribute.skeletons as (rewriteAttributes kind as)
  | [] => .unchanged
  | a :: rest =>
    (Tracks.rewriteAttribute kind a).cons (Tracks.rewriteAttributes kind rest) fun b bs hb hbs => by
      rw [Attribute.skeletons, Attribute.skeletons, hb, hbs]

end

/-! ## Members and their lists -/

theorem Tracks.rewriteMember (kind : SignatureKind) (m : Member) :
    Tracks Member.skeleton m (rewriteMember kind m) := by
  obtain ⟨access, name, descriptor, attributes⟩ := m
  have hd : Tracks (fun _ => (0 : Index)) descriptor (Rewrite.renameUtf8 .descriptor descriptor) :=
    .renameUtf8 .descriptor fun _ => rfl
  refine hd.both (.rewriteAttributes kind attributes) (f := Member.mk access name)
    (fun _ _ e => (Member.mk.inj e).2.2) fun d as _ has => ?_
  rw [Member.skeleton, Member.skeleton, has]

theorem Tracks.after_tell {e : Event} (h : Tracks k x m) : Tracks k x (do tell e; m) := by
  intro s x' s' hm
  obtain ⟨_, s₁, htell, hm⟩ := outcome_bind_eq_ok hm
  have hs : Touch false s s₁ := by
    cases htell
    exact .still rfl rfl
  obtain ⟨touched, htouch, htracked⟩ := h hm
  exact ⟨touched, hs.trans htouch, htracked⟩

/-- `result` is what a list becomes, with the number of its parts that changed. -/
structure Counted (k : α → β) (xs : List α) (result : List α × Nat) (touched : Bool) : Prop where
  skeleton : result.1.map k = xs.map k
  silent : result.2 = 0 ↔ touched = false ∧ result.1 = xs

theorem rewriteCounting_counted {f : α → Rewrite (Option α)} {xs : List α} {result : List α × Nat}
    (hf : ∀ x, Tracks k x (f x)) (h : (rewriteCounting f xs).outcome s = (.ok result, s')) :
    ∃ touched, Touch touched s s' ∧ Counted k xs result touched := by
  induction xs generalizing s result with
  | nil =>
    cases h
    exact ⟨false, .refl _, rfl, by simp⟩
  | cons x xs ih =>
    obtain ⟨x', s₁, hx, h⟩ := outcome_bind_eq_ok h
    obtain ⟨rest, s₂, hrest, h⟩ := outcome_bind_eq_ok h
    cases h
    obtain ⟨a, touch₁, tracked⟩ := hf x hx
    obtain ⟨b, touch₂, counted⟩ := ih hrest
    refine ⟨a || b, touch₁.trans touch₂, ?_, ?_⟩
    · rw [List.map_cons, List.map_cons, tracked.skeleton, counted.skeleton]
    · have hcount : (if x'.isSome then rest.2 + 1 else rest.2) = 0 ↔ x' = none ∧ rest.2 = 0 := by
        cases x' <;> simp
      rw [hcount, tracked.silent, counted.silent, Bool.or_eq_false_iff, List.cons.injEq]
      exact and_and_and_comm

end Rewrite

end Repackage
