import Repackage.Proofs.Grammar.Descriptor
import Repackage.Proofs.Grammar.WellFormed
import Repackage.Proofs.Text.Segments

/-!
# Names in a text

A tree is written with its names between other characters, and what is written after a name ends
it. So when the names of a tree are exchanged, its text shows it: if the text stays the same then
so does every name (`Woven.spelled_eq`).

This holds even if a new name has characters in it that end names. All others are written as
before, so there would be too many of these characters in the new text.
-/

namespace Repackage

variable {ν : Type} {ends : Char → Bool} {f g : ν → List Char} {xs xs' ys ys' : List Char}
  {ns ns' : List ν}

/-- Two texts that differ in their names only, which are spelled by `f` in the first and by `g` in
the second. In the second no name has a character in it that ends names, and one such character
comes after each name. -/
inductive Woven (ends : Char → Bool) (f g : ν → List Char) :
    List Char → List Char → List ν → Prop where
  | nil : Woven ends f g [] [] []
  | char {xs ys : List Char} {ns : List ν} (c : Char) : Woven ends f g xs ys ns →
      Woven ends f g (c :: xs) (c :: ys) ns
  | name {xs ys : List Char} {ns : List ν} {c : Char} (n : ν) : (∀ d ∈ g n, ends d = false) →
      ends c = true → Woven ends f g (c :: xs) (c :: ys) ns →
      Woven ends f g (f n ++ c :: xs) (g n ++ c :: ys) (n :: ns)

namespace Woven

theorem append (h : Woven ends f g xs ys ns) (h' : Woven ends f g xs' ys' ns') :
    Woven ends f g (xs ++ xs') (ys ++ ys') (ns ++ ns') := by
  induction h with
  | nil => exact h'
  | char c _ ih => exact .char c ih
  | name n hn hc _ ih =>
    rw [List.append_assoc, List.append_assoc]
    exact .name n hn hc ih

theorem same (cs : List Char) : Woven ends f g cs cs [] := by
  induction cs with
  | nil => exact .nil
  | cons c cs ih => exact .char c ih

theorem after (cs : List Char) (h : Woven ends f g xs ys ns) :
    Woven ends f g (cs ++ xs) (cs ++ ys) ns :=
  (same cs).append h

theorem before (cs : List Char) (h : Woven ends f g xs ys ns) :
    Woven ends f g (xs ++ cs) (ys ++ cs) ns := by
  have := h.append (same cs)
  rwa [List.append_nil] at this

theorem flatMap {τ : Type} (ts : List τ) {u : τ → τ} {chars : τ → List Char}
    {names : τ → List ν} (h : ∀ t ∈ ts, Woven ends f g (chars (u t)) (chars t) (names t)) :
    Woven ends f g ((ts.map u).flatMap chars) (ts.flatMap chars) (ts.flatMap names) := by
  induction ts with
  | nil => exact .nil
  | cons t ts ih =>
    exact (h t List.mem_cons_self).append (ih fun t ht => h t (List.mem_cons_of_mem _ ht))

/-- The new names bring all the characters that the first text has more of. -/
theorem countP_eq (h : Woven ends f g xs ys ns) :
    xs.countP ends = ys.countP ends + (ns.flatMap f).countP ends := by
  induction h with
  | nil => rfl
  | char c _ ih =>
    rw [List.countP_cons, List.countP_cons, ih]
    omega
  | name n hn _ _ ih =>
    have hg : (g n).countP ends = 0 :=
      List.countP_eq_zero.2 fun d hd => Bool.not_eq_true _ ▸ hn d hd
    rw [List.countP_append, List.countP_append, ih, hg, List.flatMap_cons, List.countP_append]
    omega

theorem append_cons_inj {c : Char} (hc : ends c = true) (hxs : ∀ d ∈ xs, ends d = false)
    (hys : ∀ d ∈ ys, ends d = false) (h : xs ++ c :: xs' = ys ++ c :: ys') :
    xs = ys ∧ xs' = ys' := by
  induction xs generalizing ys with
  | nil =>
    cases ys with
    | nil => exact ⟨rfl, (List.cons.inj h).2⟩
    | cons y ys =>
      cases (List.cons.inj h).1
      exact absurd hc (by rw [hys _ List.mem_cons_self]; decide)
  | cons x xs ih =>
    cases ys with
    | nil =>
      cases (List.cons.inj h).1
      exact absurd hc (by rw [hxs _ List.mem_cons_self]; decide)
    | cons y ys =>
      obtain ⟨rfl, htail⟩ := List.cons.inj h
      obtain ⟨rfl, e⟩ := ih (fun d hd => hxs d (List.mem_cons_of_mem _ hd))
        (fun d hd => hys d (List.mem_cons_of_mem _ hd)) htail
      exact ⟨rfl, e⟩

theorem spelled_eq_of_ends (h : Woven ends f g xs ys ns)
    (hf : ∀ n ∈ ns, ∀ d ∈ f n, ends d = false) (e : xs = ys) : ∀ n ∈ ns, f n = g n := by
  induction h with
  | nil => exact fun n hn => nomatch hn
  | char c _ ih => exact ih hf (List.cons.inj e).2
  | name n hg hc _ ih =>
    obtain ⟨hn, e⟩ := append_cons_inj hc (hf n List.mem_cons_self) hg e
    intro m hm
    rcases List.mem_cons.1 hm with rfl | hm
    · exact hn
    · exact ih (fun k hk => hf k (List.mem_cons_of_mem _ hk)) (congrArg _ e) m hm

/-- The same text has the same names. -/
theorem spelled_eq (h : Woven ends f g xs ys ns) (e : xs = ys) : ∀ n ∈ ns, f n = g n := by
  refine h.spelled_eq_of_ends (fun n hn d hd => ?_) e
  have hcount := h.countP_eq
  rw [e, Nat.left_eq_add] at hcount
  have hd' : d ∈ ns.flatMap f := List.mem_flatMap.2 ⟨n, hn, hd⟩
  exact Bool.not_eq_true _ ▸ List.countP_eq_zero.1 hcount d hd'

theorem named {n : ν} {c : Char} (hn : ∀ d ∈ g n, ends d = false) (hc : ends c = true)
    (hxs : xs.head? = some c) (hys : ys.head? = some c) (h : Woven ends f g xs ys ns) :
    Woven ends f g (f n ++ xs) (g n ++ ys) (n :: ns) := by
  cases xs with
  | nil => cases hxs
  | cons x xs =>
    cases ys with
    | nil => cases hys
    | cons y ys =>
      cases hxs
      cases hys
      exact .name n hn hc h

theorem bracketed (h : Woven ends f g xs ys ns) (isEmpty : Bool)
    (hempty : isEmpty = true → ns = []) :
    Woven ends f g (Repackage.bracketed isEmpty xs) (Repackage.bracketed isEmpty ys) ns := by
  cases isEmpty with
  | true =>
    rw [hempty rfl]
    exact .nil
  | false => exact .char '<' (h.before ['>'])

theorem mem_right {n : ν} {c : Char} (h : Woven ends f g xs ys ns) (hn : n ∈ ns) (hc : c ∈ g n) :
    c ∈ ys := by
  induction h with
  | nil => cases hn
  | char d _ ih => exact List.mem_cons_of_mem d (ih hn)
  | name m _ _ _ ih =>
    rcases List.mem_cons.1 hn with rfl | hn
    · exact List.mem_append_left _ hc
    · exact List.mem_append_right _ (ih hn)

/-- With a name comes a character that ends it. -/
theorem exists_ends {n : ν} (h : Woven ends f g xs ys ns) (hn : n ∈ ns) :
    ∃ c ∈ ys, ends c = true := by
  induction h with
  | nil => cases hn
  | char d _ ih =>
    obtain ⟨c, hc, hends⟩ := ih hn
    exact ⟨c, List.mem_cons_of_mem d hc, hends⟩
  | name m _ hc _ _ => exact ⟨_, List.mem_append_right _ List.mem_cons_self, hc⟩

end Woven

/-! ## Descriptors -/

theorem forM_eq_ok {α ε : Type} {f : α → Except ε Unit} {xs : List α}
    (h : xs.forM f = .ok ()) : ∀ x ∈ xs, f x = .ok () := by
  induction xs with
  | nil => exact fun _ hx => nomatch hx
  | cons x xs ih =>
    change (f x >>= fun _ => xs.forM f) = .ok () at h
    cases hx : f x with
    | error e => rw [hx] at h; cases h
    | ok u =>
      rw [hx] at h
      intro y hy
      rcases List.mem_cons.1 hy with rfl | hy
      · exact hx
      · exact ih h y hy

namespace BinaryName

theorem eq_of_text {n m : BinaryName} (h : n.text = m.text) : n = m := by
  cases n
  cases m
  cases h
  rfl

/-- A binary name has no separators but slashes. -/
theorem isNameSeparator_eq_false (name : BinaryName) {c : Char} (h : c ∈ name.text.toList)
    (hc : c ≠ '/') : isNameSeparator c = false := by
  have hvalid := name.valid
  unfold checkBinary at hvalid
  split at hvalid
  · cases hvalid
  · obtain ⟨part, hpart, hmem⟩ := Text.mem_segments h hc
    have hname := forM_eq_ok hvalid part hpart
    unfold checkUnqualified at hname
    split at hname
    · cases hname
    · rename_i hany
      cases hsep : isNameSeparator c with
      | false => rfl
      | true => exact absurd (List.any_eq_true.2 ⟨c, hmem, hsep⟩) hany

theorem not_mem_of_isBinaryName {text : String} {c : Char} (h : isBinaryName text = true)
    (hc : isNameSeparator c = true) (hslash : c ≠ '/') : c ∉ text.toList := by
  cases hvalid : checkBinary text.toList with
  | error e =>
    rw [isBinaryName, hvalid] at h
    cases h
  | ok u =>
    intro hmem
    rw [isNameSeparator_eq_false ⟨text, hvalid⟩ hmem hslash] at hc
    cases hc

end BinaryName

section Descriptors

variable (f : BinaryName → BinaryName)

/-- The names of a descriptor end at semicolons. -/
def DescriptorWoven (xs ys : List Char) (ns : List BinaryName) : Prop :=
  Woven (· == ';') (fun n => (f n).text.toList) (fun n => n.text.toList) xs ys ns

theorem BinaryName.woven (n : BinaryName) : DescriptorWoven f (f n).chars n.chars [n] := by
  refine .char 'L' (.name n (fun c hc => ?_) rfl (.same [';']))
  refine beq_eq_false_iff_ne.2 ?_
  rintro rfl
  exact absurd (n.isNameSeparator_eq_false hc (by decide)) (by decide)

theorem RefType.woven (t : RefType) : DescriptorWoven f (t.mapNames f).chars t.chars t.names := by
  cases t with
  | object n => exact n.woven f
  | objectArray extra n => exact (n.woven f).after _
  | primitiveArray extra base => exact .same _

theorem FieldType.woven (t : FieldType) :
    DescriptorWoven f (t.mapNames f).chars t.chars t.names := by
  cases t with
  | base t => exact .same _
  | ref t => exact t.woven f

theorem MethodType.woven (t : MethodType) :
    DescriptorWoven f (t.mapNames f).chars t.chars t.names := by
  obtain ⟨parameters, result⟩ := t
  have hparameters := Woven.flatMap parameters fun t _ => FieldType.woven f t
  have hresult : DescriptorWoven f ((result.map (FieldType.mapNames f)).elim ['V'] FieldType.chars)
      (result.elim ['V'] FieldType.chars) (result.elim [] FieldType.names) := by
    cases result with
    | none => exact .same _
    | some t => exact t.woven f
  exact .char '(' (hparameters.append (.char ')' hresult))

theorem Descriptor.woven (d : Descriptor) :
    DescriptorWoven f (d.mapNames f).chars d.chars d.names := by
  cases d with
  | field t => exact t.woven f
  | method t => exact t.woven f

theorem Descriptor.mem_chars {d : Descriptor} {n : BinaryName} (hn : n ∈ d.names) {c : Char}
    (hc : c ∈ n.text.toList) : c ∈ d.chars :=
  (d.woven id).mem_right hn hc

theorem Descriptor.semicolon_mem_chars {d : Descriptor} {n : BinaryName} (hn : n ∈ d.names) :
    ';' ∈ d.chars := by
  obtain ⟨c, hc, hends⟩ := (d.woven id).exists_ends hn
  rwa [← beq_iff_eq.1 hends]

/-- A descriptor has the same text only with the same names. -/
theorem Descriptor.eq_of_render_mapNames {d : Descriptor} (h : (d.mapNames f).render = d.render) :
    ∀ n ∈ d.names, f n = n := by
  have hchars := congrArg String.toList h
  rw [Descriptor.render, Descriptor.render, String.toList_ofList, String.toList_ofList] at hchars
  intro n hn
  exact BinaryName.eq_of_text (String.toList_inj.1 ((d.woven f).spelled_eq hchars n hn))

end Descriptors

/-! ## Signatures -/

/-- The characters that end the name of a class in a signature. -/
def endsClassName (c : Char) : Bool := isSignatureDelimiter c && c != '/'

theorem endsClassName_eq_false {c : Char} (h : isSignatureDelimiter c = false) :
    endsClassName c = false := by
  rw [endsClassName, h, Bool.false_and]

theorem IsQualifiedName.endsClassName {name : List Char} (h : IsQualifiedName name) :
    ∀ c ∈ name, Repackage.endsClassName c = false := by
  intro c hc
  by_cases hslash : c = '/'
  · rw [hslash]
    rfl
  · obtain ⟨part, hpart, hmem⟩ := Text.mem_segments hc hslash
    exact endsClassName_eq_false ((h part hpart).2 c hmem)

/-- A name stays one if its start is exchanged for another name. -/
theorem IsQualifiedName.exchangeStart {start new rest : List Char} (hnew : IsQualifiedName new)
    (h : IsQualifiedName (start ++ rest)) : IsQualifiedName (new ++ rest) := by
  intro part hpart
  rcases Text.mem_segments_append hpart with hpart | ⟨first, hfirst, rfl⟩ | hpart
  · exact hnew part (List.dropLast_subset _ hpart)
  · obtain ⟨hne, hlast⟩ := hnew _ (Text.lastSegment_mem new)
    obtain ⟨-, hmeet⟩ := h _ (Text.lastSegment_append_mem start hfirst)
    refine ⟨fun e => hne (List.append_eq_nil_iff.1 e).1, fun c hc => ?_⟩
    rcases List.mem_append.1 hc with hc | hc
    · exact hlast c hc
    · exact hmeet c (List.mem_append_right _ hc)
  · exact h part (List.mem_of_mem_tail (Text.mem_tail_segments_append hpart))

section Signatures

variable (f : String → String)

def SignatureWoven (xs ys : List Char) (ns : List String) : Prop :=
  Woven endsClassName (fun n => (f n).toList) String.toList xs ys ns

theorem TypeArgument.isEmpty_mapListNames (ts : List TypeArgument) :
    (TypeArgument.mapListNames f ts).isEmpty = ts.isEmpty := by
  cases ts <;> rfl

theorem SimpleClassType.isEmpty_mapSuffixNames (ts : List SimpleClassType) :
    (SimpleClassType.mapSuffixNames f ts).isEmpty = ts.isEmpty := by
  cases ts <;> rfl

/-- The character after the name of a class. -/
def ClassType.nameEnd (noArguments noSuffixes : Bool) : Char :=
  if noArguments then if noSuffixes then ';' else '.' else '<'

theorem ClassType.head?_after_name (noArguments : Bool) (items : List Char)
    (suffixes : List SimpleClassType) :
    (bracketed noArguments items ++ (SimpleClassType.suffixChars suffixes ++ [';'])).head? =
      some (ClassType.nameEnd noArguments suffixes.isEmpty) := by
  cases noArguments with
  | false => rfl
  | true => cases suffixes <;> rfl

theorem ClassType.endsClassName_nameEnd (noArguments noSuffixes : Bool) :
    endsClassName (ClassType.nameEnd noArguments noSuffixes) = true := by
  cases noArguments <;> cases noSuffixes <;> rfl

mutual

theorem JavaType.woven :
    (t : JavaType) → t.WellFormed → SignatureWoven f (t.mapNames f).chars t.chars t.names
  | .base t, _ => .same t.chars
  | .reference t, h => ReferenceType.woven t h

theorem ReferenceType.woven :
    (t : ReferenceType) → t.WellFormed → SignatureWoven f (t.mapNames f).chars t.chars t.names
  | .classType t, h => ClassType.woven t h
  | .typeVariable name, _ => .same ('T' :: name.toList ++ [';'])
  | .array element, h => .char '[' (JavaType.woven element h)

theorem ClassType.woven :
    (t : ClassType) → t.WellFormed → SignatureWoven f (t.mapNames f).chars t.chars t.names
  | ⟨name, arguments, suffixes⟩, ⟨hname, hwf, hwf'⟩ => by
    have harguments := (TypeArgument.wovenList arguments hwf).bracketed
      arguments.isEmpty fun he => by rw [List.isEmpty_iff.1 he]; rfl
    have hsuffixes := (SimpleClassType.wovenSuffixes suffixes hwf').before [';']
    have hrest := harguments.append hsuffixes
    have := (hrest.named hname.endsClassName (ClassType.endsClassName_nameEnd _ _)
      ((ClassType.head?_after_name ..).trans (by rw [SimpleClassType.isEmpty_mapSuffixNames]))
      (ClassType.head?_after_name ..)).char 'L'
    simpa only [SignatureWoven, ClassType.mapNames, ClassType.chars, ClassType.names,
      TypeArgument.isEmpty_mapListNames, List.append_assoc, List.cons_append] using this

theorem SimpleClassType.woven :
    (t : SimpleClassType) → t.WellFormed → SignatureWoven f (t.mapNames f).chars t.chars t.names
  | ⟨name, arguments⟩, ⟨_, hwf⟩ => by
    have harguments := (TypeArgument.wovenList arguments hwf).bracketed
      arguments.isEmpty fun he => by rw [List.isEmpty_iff.1 he]; rfl
    have := harguments.after name.toList
    simpa only [SignatureWoven, SimpleClassType.mapNames, SimpleClassType.chars,
      SimpleClassType.names, TypeArgument.isEmpty_mapListNames] using this

theorem SimpleClassType.wovenSuffixes :
    (ts : List SimpleClassType) → SimpleClassType.AllWellFormed ts →
      SignatureWoven f (SimpleClassType.suffixChars (SimpleClassType.mapSuffixNames f ts))
        (SimpleClassType.suffixChars ts) (SimpleClassType.suffixNames ts)
  | [], _ => .nil
  | t :: ts, h =>
    .char '.' ((SimpleClassType.woven t h.1).append (SimpleClassType.wovenSuffixes ts h.2))

theorem TypeArgument.woven :
    (t : TypeArgument) → t.WellFormed → SignatureWoven f (t.mapNames f).chars t.chars t.names
  | .wildcard, _ => .same ['*']
  | .concrete bound t, h => (ReferenceType.woven t h).after (bound.elim [] fun b => [b.sign])

theorem TypeArgument.wovenList :
    (ts : List TypeArgument) → TypeArgument.AllWellFormed ts →
      SignatureWoven f (TypeArgument.listChars (TypeArgument.mapListNames f ts))
        (TypeArgument.listChars ts) (TypeArgument.listNames ts)
  | [], _ => .nil
  | t :: ts, h => (TypeArgument.woven t h.1).append (TypeArgument.wovenList ts h.2)

end

/-- Types that each follow the character `c`. -/
theorem ReferenceType.wovenAfter (c : Char) (ts : List ReferenceType)
    (h : ∀ t ∈ ts, t.WellFormed) :
    SignatureWoven f ((ts.map (ReferenceType.mapNames f)).flatMap fun t => c :: t.chars)
      (ts.flatMap fun t => c :: t.chars) (ts.flatMap ReferenceType.names) :=
  .flatMap ts fun t ht => .char c (t.woven f (h t ht))

theorem TypeParameter.woven (p : TypeParameter) (h : p.WellFormed) :
    SignatureWoven f (p.mapNames f).chars p.chars p.names := by
  obtain ⟨name, classBound, interfaceBounds⟩ := p
  have hclass : SignatureWoven f
      ((classBound.map (ReferenceType.mapNames f)).elim [] ReferenceType.chars)
      (classBound.elim [] ReferenceType.chars) (classBound.elim [] ReferenceType.names) := by
    cases classBound with
    | none => exact .nil
    | some t => exact t.woven f (h.classBound t rfl)
  have hinterfaces := ReferenceType.wovenAfter f ':' interfaceBounds h.interfaceBounds
  have := ((hclass.append hinterfaces).char ':').after name.toList
  simpa only [SignatureWoven, TypeParameter.mapNames, TypeParameter.chars, TypeParameter.names,
    List.append_assoc, List.cons_append] using this

theorem TypeParameter.wovenList (ps : List TypeParameter) (h : ∀ p ∈ ps, p.WellFormed) :
    SignatureWoven f (TypeParameter.listChars (ps.map (TypeParameter.mapNames f)))
      (TypeParameter.listChars ps) (ps.flatMap TypeParameter.names) := by
  have := (Woven.flatMap ps fun p hp => TypeParameter.woven f p (h p hp)).bracketed ps.isEmpty
    fun he => by rw [List.isEmpty_iff.1 he]; rfl
  simpa only [SignatureWoven, TypeParameter.listChars, List.isEmpty_map] using this

theorem ClassSignature.woven (s : ClassSignature) (h : s.WellFormed) :
    SignatureWoven f (s.mapNames f).chars s.chars s.names :=
  ((TypeParameter.wovenList f s.typeParameters h.typeParameters.each).append
    (s.superclass.woven f h.superclass)).append
      (.flatMap s.interfaces fun t ht => ClassType.woven f t (h.interfaces t ht))

theorem MethodSignature.woven (s : MethodSignature) (h : s.WellFormed) :
    SignatureWoven f (s.mapNames f).chars s.chars s.names := by
  obtain ⟨typeParameters, parameters, result, throws⟩ := s
  have htypes := TypeParameter.wovenList f typeParameters h.typeParameters.each
  have hparameters := Woven.flatMap parameters fun t ht => JavaType.woven f t (h.parameters t ht)
  have hresult : SignatureWoven f ((result.map (JavaType.mapNames f)).elim ['V'] JavaType.chars)
      (result.elim ['V'] JavaType.chars) (result.elim [] JavaType.names) := by
    cases result with
    | none => exact .same _
    | some t => exact t.woven f (h.result t rfl)
  have hthrows := ReferenceType.wovenAfter f '^' throws fun t ht => (h.throws t ht).1
  have := (htypes.append ((hparameters.append (hresult.char ')')).char '(')).append hthrows
  simpa only [SignatureWoven, MethodSignature.mapNames, MethodSignature.chars,
    MethodSignature.names, List.append_assoc, List.cons_append] using this

theorem Signature.woven (s : Signature) (h : s.WellFormed) :
    SignatureWoven f (s.mapNames f).chars s.chars s.names := by
  cases s with
  | ofClass s => exact s.woven f h
  | ofField t => exact t.woven f h
  | ofMethod s => exact s.woven f h

theorem Signature.mem_chars {s : Signature} (hs : s.WellFormed) {n : String} (hn : n ∈ s.names)
    {c : Char} (hc : c ∈ n.toList) : c ∈ s.chars :=
  (s.woven id hs).mem_right hn hc

/-- A signature has the same text only with the same names. -/
theorem Signature.eq_of_render_mapNames {s : Signature} (hs : s.WellFormed)
    (h : (s.mapNames f).render = s.render) : ∀ n ∈ s.names, f n = n := by
  have hchars := congrArg String.toList h
  rw [Signature.render, Signature.render, String.toList_ofList, String.toList_ofList] at hchars
  intro n hn
  exact String.toList_inj.1 ((s.woven f hs).spelled_eq hchars n hn)

end Signatures

end Repackage
