import Repackage.Proofs.Grammar.Names

/-!
# Signatures are written as they were read

The parsers of signatures take the characters that are written for what they read, and the trees
that they read are well-formed. Types nest, so a parser of types is shown to be one of these given
that the parser of the types inside is.
-/

namespace Repackage

open Repackage.Parser

/-! ## Names -/

theorem identifier_reads :
    identifier.Reads String.toList fun name => IsIdentifier name.toList := by
  intro cs name rest h
  obtain ⟨taken, left, htaken, h⟩ := bind_eq_ok h
  obtain ⟨rfl, rfl⟩ := takeWhile_eq_ok htaken
  split at h
  · obtain ⟨c, left, hc, h⟩ := bind_eq_ok h
    split at h <;> cases h
  · rename_i hne
    obtain ⟨rfl, rfl⟩ := pure_eq_ok h
    simp only [String.toList_ofList]
    refine ⟨List.takeWhile_append_dropWhile.symm, fun e => hne (List.isEmpty_iff.2 e), ?_⟩
    exact fun c hc => by simpa using List.all_eq_true.1 List.all_takeWhile c hc

theorem IsIdentifier.slash_not_mem {name : List Char} (h : IsIdentifier name) : '/' ∉ name :=
  fun hmem => absurd (h.2 _ hmem) (by decide)

theorem qualifiedName_reads :
    qualifiedName.Reads String.toList fun name => IsQualifiedName name.toList := by
  intro cs name rest h
  obtain ⟨first, left, hfirst, h⟩ := bind_eq_ok h
  obtain ⟨more, left', hmore, h⟩ := bind_eq_ok h
  obtain ⟨rfl, rfl⟩ := pure_eq_ok h
  obtain ⟨hcs, hgood⟩ := identifier_reads hfirst
  obtain ⟨hleft, hall⟩ := identifier_reads.manyAfter '/' hmore
  simp only [String.toList_ofList]
  refine ⟨by rw [hcs, hleft, List.append_assoc], ?_⟩
  have hslash : ∀ part ∈ more.map String.toList, '/' ∉ part :=
    List.forall_mem_map.2 fun s hs => (hall s hs).slash_not_mem
  have hsegments := Text.segments_join hgood.slash_not_mem hslash
  rw [List.flatMap_map] at hsegments
  rw [IsQualifiedName, hsegments]
  exact List.forall_mem_cons.2 ⟨hgood, List.forall_mem_map.2 hall⟩

/-! ## Types -/

theorem TypeArgument.listChars_eq (ts : List TypeArgument) :
    TypeArgument.listChars ts = ts.flatMap TypeArgument.chars := by
  induction ts with
  | nil => rfl
  | cons t ts ih => rw [TypeArgument.listChars, List.flatMap_cons, ih]

theorem SimpleClassType.suffixChars_eq (ts : List SimpleClassType) :
    SimpleClassType.suffixChars ts = ts.flatMap fun t => '.' :: t.chars := by
  induction ts with
  | nil => rfl
  | cons t ts ih => rw [SimpleClassType.suffixChars, List.flatMap_cons, ih]

theorem ReferenceType.chars_ne_nil (t : ReferenceType) : t.chars ≠ [] := by
  cases t with
  | classType t =>
    obtain ⟨name, arguments, suffixes⟩ := t
    exact List.cons_ne_nil _ _
  | typeVariable name => exact List.cons_ne_nil _ _
  | array element => exact List.cons_ne_nil _ _

theorem TypeArgument.chars_ne_nil (t : TypeArgument) : t.chars ≠ [] := by
  cases t with
  | wildcard => exact List.cons_ne_nil _ _
  | concrete bound t =>
    intro h
    exact t.chars_ne_nil (List.append_eq_nil_iff.1 h).2

/-- Lists in angle brackets, or nothing. -/
theorem bracketed_reads {α : Type} {item : Parser α} {chars : α → List Char} {good : α → Prop}
    (hitem : item.Reads chars good) (hne : ∀ x, chars x ≠ []) :
    (do if ← accept '<' then someUntil '>' item else pure [] : Parser (List α)).Reads
      (fun xs => bracketed xs.isEmpty (xs.flatMap chars)) fun xs => ∀ x ∈ xs, good x := by
  intro cs xs rest h
  obtain ⟨taken, left, htaken, h⟩ := bind_eq_ok h
  rw [accept_eq_ok htaken]
  cases taken with
  | false =>
    obtain ⟨rfl, rfl⟩ := pure_eq_ok h
    exact ⟨rfl, fun _ hx => nomatch hx⟩
  | true =>
    obtain ⟨hleft, hnil, hall⟩ := hitem.someUntil hne '>' h
    refine ⟨?_, hall⟩
    simp [hleft, bracketed, hnil]

namespace ReferenceType

section Nested

variable {inner : Parser ReferenceType}
  (hinner : inner.Reads ReferenceType.chars fun t => t.WellFormed)

include hinner

theorem argumentParser_reads :
    (argumentParser inner).Reads TypeArgument.chars fun t => t.WellFormed := by
  intro cs t rest hp
  obtain ⟨c, left, hc, h⟩ := bind_eq_ok hp
  obtain ⟨hhead, rfl⟩ := peek_eq_ok hc
  split at h
  · obtain ⟨_, left, hnext, h⟩ := bind_eq_ok h
    obtain ⟨rfl, rfl⟩ := pure_eq_ok h
    exact ⟨next_of_head? hhead hnext, trivial⟩
  · obtain ⟨_, left, hnext, h⟩ := bind_eq_ok h
    obtain ⟨t, left', ht, h⟩ := bind_eq_ok h
    obtain ⟨rfl, rfl⟩ := pure_eq_ok h
    obtain ⟨hleft, hwf⟩ := hinner ht
    exact ⟨(next_of_head? hhead hnext).trans (congrArg _ hleft), hwf⟩
  · obtain ⟨_, left, hnext, h⟩ := bind_eq_ok h
    obtain ⟨t, left', ht, h⟩ := bind_eq_ok h
    obtain ⟨rfl, rfl⟩ := pure_eq_ok h
    obtain ⟨hleft, hwf⟩ := hinner ht
    exact ⟨(next_of_head? hhead hnext).trans (congrArg _ hleft), hwf⟩
  · obtain ⟨t, left, ht, h⟩ := bind_eq_ok h
    obtain ⟨rfl, rfl⟩ := pure_eq_ok h
    exact hinner ht

theorem argumentsParser_reads :
    (argumentsParser inner).Reads
      (fun ts => bracketed ts.isEmpty (TypeArgument.listChars ts))
      TypeArgument.AllWellFormed := by
  intro cs ts rest h
  obtain ⟨hcs, hall⟩ :=
    bracketed_reads (argumentParser_reads hinner) TypeArgument.chars_ne_nil h
  simp only [TypeArgument.listChars_eq]
  exact ⟨hcs, TypeArgument.allWellFormed_iff.2 hall⟩

theorem simpleClassParser_reads :
    (simpleClassParser inner).Reads SimpleClassType.chars fun t => t.WellFormed := by
  intro cs t rest h
  obtain ⟨name, left, hname, h⟩ := bind_eq_ok h
  obtain ⟨arguments, left', harguments, h⟩ := bind_eq_ok h
  obtain ⟨rfl, rfl⟩ := pure_eq_ok h
  obtain ⟨hcs, hgood⟩ := identifier_reads hname
  obtain ⟨hleft, hwf⟩ := argumentsParser_reads hinner harguments
  refine ⟨?_, hgood, hwf⟩
  rw [hcs, hleft, SimpleClassType.chars, List.append_assoc]

theorem classParser_reads :
    (classParser inner).Reads ClassType.chars fun t => t.WellFormed := by
  intro cs t rest h
  obtain ⟨_, left₁, hopen, h⟩ := bind_eq_ok h
  obtain ⟨name, left₂, hname, h⟩ := bind_eq_ok h
  obtain ⟨arguments, left₃, harguments, h⟩ := bind_eq_ok h
  obtain ⟨suffixes, left₄, hsuffixes, h⟩ := bind_eq_ok h
  obtain ⟨_, left₅, hclose, h⟩ := bind_eq_ok h
  obtain ⟨rfl, rfl⟩ := pure_eq_ok h
  obtain ⟨hleft₁, hwf⟩ := qualifiedName_reads hname
  obtain ⟨hleft₂, harguments⟩ := argumentsParser_reads hinner harguments
  obtain ⟨hleft₃, hsuffixes⟩ := (simpleClassParser_reads hinner).manyAfter '.' hsuffixes
  constructor
  · rw [expect_eq_ok hopen, hleft₁, hleft₂, hleft₃, expect_eq_ok hclose, ClassType.chars,
      SimpleClassType.suffixChars_eq]
    simp
  · exact ⟨hwf, harguments, SimpleClassType.allWellFormed_iff.2 hsuffixes⟩

theorem javaParser_reads :
    (javaParser inner).Reads JavaType.chars fun t => t.WellFormed := by
  have hbase : (do return .base (← BaseType.parser) : Parser JavaType).Reads JavaType.chars
      fun t => t.WellFormed := by
    intro cs t rest h
    obtain ⟨t, left, ht, h⟩ := bind_eq_ok h
    obtain ⟨rfl, rfl⟩ := pure_eq_ok h
    exact ⟨BaseType.parser_spells ht, trivial⟩
  have hreference : (do return .reference (← inner) : Parser JavaType).Reads JavaType.chars
      fun t => t.WellFormed := by
    intro cs t rest h
    obtain ⟨t, left, ht, h⟩ := bind_eq_ok h
    obtain ⟨rfl, rfl⟩ := pure_eq_ok h
    exact hinner ht
  intro cs t rest hp
  obtain ⟨c, left, hc, h⟩ := bind_eq_ok hp
  obtain ⟨-, rfl⟩ := peek_eq_ok hc
  split at h
  · exact hreference h
  · exact hreference h
  · exact hreference h
  · exact hbase h

end Nested

theorem parserAt_reads (depth : Nat) :
    (parserAt depth).Reads ReferenceType.chars fun t => t.WellFormed := by
  induction depth with
  | zero => exact fun _ _ _ h => nomatch h
  | succ depth ih =>
    intro cs t rest hp
    obtain ⟨c, left, hc, h⟩ := bind_eq_ok hp
    obtain ⟨hhead, rfl⟩ := peek_eq_ok hc
    split at h
    · obtain ⟨t, left, ht, h⟩ := bind_eq_ok h
      obtain ⟨rfl, rfl⟩ := pure_eq_ok h
      exact classParser_reads ih ht
    · obtain ⟨_, left, hnext, h⟩ := bind_eq_ok h
      obtain ⟨name, left', hname, h⟩ := bind_eq_ok h
      obtain ⟨_, left'', hclose, h⟩ := bind_eq_ok h
      obtain ⟨rfl, rfl⟩ := pure_eq_ok h
      obtain ⟨hleft, hgood⟩ := identifier_reads hname
      refine ⟨?_, hgood⟩
      rw [next_of_head? hhead hnext, hleft, expect_eq_ok hclose, ReferenceType.chars]
      simp
    · obtain ⟨_, left, hnext, h⟩ := bind_eq_ok h
      obtain ⟨t, left', ht, h⟩ := bind_eq_ok h
      obtain ⟨rfl, rfl⟩ := pure_eq_ok h
      obtain ⟨hleft, hwf⟩ := javaParser_reads ih ht
      exact ⟨(next_of_head? hhead hnext).trans (congrArg _ hleft), hwf⟩
    · cases h
    · cases h

theorem parser_reads : ReferenceType.parser.Reads ReferenceType.chars fun t => t.WellFormed :=
  fun cs _ _ h => parserAt_reads (cs.length + 1) h

end ReferenceType

theorem JavaType.parser_reads : JavaType.parser.Reads JavaType.chars fun t => t.WellFormed :=
  ReferenceType.javaParser_reads ReferenceType.parser_reads

theorem ClassType.parser_reads : ClassType.parser.Reads ClassType.chars fun t => t.WellFormed :=
  ReferenceType.classParser_reads ReferenceType.parser_reads

/-! ## Declarations -/

theorem ClassType.chars_ne_nil (t : ClassType) : t.chars ≠ [] := by
  obtain ⟨name, arguments, suffixes⟩ := t
  exact List.cons_ne_nil _ _

theorem JavaType.chars_ne_nil (t : JavaType) : t.chars ≠ [] := by
  cases t with
  | base t => exact List.cons_ne_nil _ _
  | reference t => exact t.chars_ne_nil

theorem TypeParameter.chars_ne_nil (p : TypeParameter) : p.chars ≠ [] := by
  simp [TypeParameter.chars]

/-- The text starts as a reference type does. -/
def StartsType (cs : List Char) : Prop := ∃ c, cs.head? = some c ∧ (c = 'L' ∨ c = 'T' ∨ c = '[')

/-- The text is that of the type parameter up to `rest`, where there is a class bound exactly if a
type follows the colon. -/
def TypeParameter.ReadFrom (cs : List Char) (p : TypeParameter) (rest : List Char) : Prop :=
  ∃ left left', identifier cs = .ok (p.name, ':' :: left) ∧
    manyAfter ':' ReferenceType.parser left' = .ok (p.interfaceBounds, rest) ∧
    ((StartsType left ∧ ∃ t, p.classBound = some t ∧ ReferenceType.parser left = .ok (t, left')) ∨
      (¬ StartsType left ∧ p.classBound = none ∧ left' = left))

theorem TypeParameter.parser_eq_ok {cs rest : List Char} {p : TypeParameter}
    (h : TypeParameter.parser cs = .ok (p, rest)) : ReadFrom cs p rest := by
  obtain ⟨name, left₁, hname, h₁⟩ := bind_eq_ok h
  obtain ⟨_, left₂, hcolon, h₂⟩ := bind_eq_ok h₁
  obtain ⟨c, left₃, hc, h₃⟩ := bind_eq_ok h₂
  obtain ⟨hhead, rfl⟩ := peek_eq_ok hc
  cases expect_eq_ok hcolon
  have hclass (hstarts : StartsType left₃)
      (h : (do
        let classBound ← some <$> ReferenceType.parser
        return ⟨name, classBound, ← manyAfter ':' ReferenceType.parser⟩ : Parser TypeParameter)
          left₃ = .ok (p, rest)) : ReadFrom cs p rest := by
    obtain ⟨bound, left₄, hbound, h₁⟩ := bind_eq_ok h
    obtain ⟨t, ht, rfl⟩ := map_eq_ok hbound
    obtain ⟨bounds, left₅, hbounds, h₂⟩ := bind_eq_ok h₁
    obtain ⟨rfl, rfl⟩ := pure_eq_ok h₂
    exact ⟨left₃, left₄, hname, hbounds, .inl ⟨hstarts, t, rfl, ht⟩⟩
  dsimp only at h₃
  split at h₃
  · exact hclass ⟨'L', hhead.symm, .inl rfl⟩ h₃
  · exact hclass ⟨'T', hhead.symm, .inr (.inl rfl)⟩ h₃
  · exact hclass ⟨'[', hhead.symm, .inr (.inr rfl)⟩ h₃
  · rename_i hL hT hB
    obtain ⟨_, left₄, hnone, h₄⟩ := bind_eq_ok h₃
    obtain ⟨rfl, rfl⟩ := pure_eq_ok hnone
    obtain ⟨bounds, left₅, hbounds, h₅⟩ := bind_eq_ok h₄
    obtain ⟨rfl, rfl⟩ := pure_eq_ok h₅
    refine ⟨left₃, left₃, hname, hbounds, .inr ⟨?_, rfl, rfl⟩⟩
    rintro ⟨d, hd, rfl | rfl | rfl⟩
    · exact hL (hhead.trans hd)
    · exact hT (hhead.trans hd)
    · exact hB (hhead.trans hd)

theorem TypeParameter.parser_reads :
    TypeParameter.parser.Reads TypeParameter.chars TypeParameter.WellFormed := by
  rintro cs ⟨name, classBound, bounds⟩ rest hp
  obtain ⟨left, left', hname, hbounds, hclass⟩ := parser_eq_ok hp
  obtain ⟨hcs, hgood⟩ := identifier_reads hname
  obtain ⟨hleft', hall⟩ := ReferenceType.parser_reads.manyAfter ':' hbounds
  -- whether or not there is a class, interfaces follow
  have hleft : left = classBound.elim [] ReferenceType.chars ++ left' ∧
      ∀ t ∈ classBound, t.WellFormed := by
    rcases hclass with ⟨-, t, rfl, ht⟩ | ⟨-, rfl, rfl⟩
    · obtain ⟨hleft, hwf⟩ := ReferenceType.parser_reads ht
      exact ⟨hleft, fun u hu => Option.some.inj hu ▸ hwf⟩
    · exact ⟨rfl, fun _ ht => by cases ht⟩
  refine ⟨?_, hgood, hleft.2, hall⟩
  rw [hcs, hleft.1, hleft', TypeParameter.chars]
  simp

/-- A parameter without bounds was not followed by what starts as a type. -/
theorem TypeParameter.parser_precedes {cs left rest : List Char} {p q : TypeParameter}
    (hp : TypeParameter.parser cs = .ok (p, left))
    (hq : TypeParameter.parser left = .ok (q, rest)) :
    p.Precedes q := by
  rintro ⟨hnone, hnil⟩
  obtain ⟨left₁, left₂, -, hbounds, hclass⟩ := parser_eq_ok hp
  have hleft : left₂ = left := by
    simpa [hnil] using (ReferenceType.parser_reads.manyAfter ':' hbounds).1
  obtain ⟨hq, hwf⟩ := TypeParameter.parser_reads hq
  obtain ⟨c, tail, hname⟩ := List.exists_cons_of_ne_nil hwf.name.1
  have hhead : left.head? = q.name.toList.head? := by
    rw [hq, TypeParameter.chars, hname]
    rfl
  rcases hclass with ⟨-, t, ht, -⟩ | ⟨hstarts, -, rfl⟩
  · rw [hnone] at ht
    cases ht
  · rw [hleft] at hstarts
    rw [← hhead]
    exact ⟨fun h => hstarts ⟨'L', h, .inl rfl⟩, fun h => hstarts ⟨'T', h, .inr (.inl rfl)⟩⟩

/-- Parameters that are read one after the other are separate. -/
theorem TypeParameter.separate_of_repeatAtMost {n : Nat} {cs left rest : List Char}
    {p : TypeParameter} {ps : List TypeParameter} (hp : TypeParameter.parser cs = .ok (p, left))
    (h : repeatAtMost (do return !(← accept '>')) TypeParameter.parser n left = .ok (ps, rest)) :
    TypeParameter.Separate (p :: ps) := by
  induction n generalizing cs left p ps with
  | zero =>
    obtain ⟨rfl, -⟩ := pure_eq_ok h
    trivial
  | succ n ih =>
    obtain ⟨go, left₁, hgo, h⟩ := bind_eq_ok h
    obtain ⟨taken, left₂, htaken, hpure⟩ := bind_eq_ok hgo
    obtain ⟨rfl, rfl⟩ := pure_eq_ok hpure
    cases taken with
    | true =>
      obtain ⟨rfl, -⟩ := pure_eq_ok h
      trivial
    | false =>
      obtain ⟨q, left₃, hq, h⟩ := bind_eq_ok h
      obtain ⟨qs, left₄, hqs, h⟩ := bind_eq_ok h
      obtain ⟨rfl, rfl⟩ := pure_eq_ok h
      obtain rfl : left = left₂ := accept_eq_ok htaken
      exact ⟨parser_precedes hp hq, ih hq hqs⟩

theorem TypeParameter.listParser_reads :
    TypeParameter.listParser.Reads TypeParameter.listChars TypeParameter.AllWellFormed := by
  intro cs ps rest h
  obtain ⟨hcs, hall⟩ :=
    bracketed_reads TypeParameter.parser_reads TypeParameter.chars_ne_nil h
  refine ⟨hcs, hall, ?_⟩
  obtain ⟨taken, left, htaken, h⟩ := bind_eq_ok h
  cases taken with
  | false =>
    obtain ⟨rfl, -⟩ := pure_eq_ok h
    trivial
  | true =>
    obtain ⟨p, left₁, hp, h⟩ := bind_eq_ok h
    obtain ⟨ps', left₂, hps, h⟩ := bind_eq_ok h
    obtain ⟨rfl, -⟩ := pure_eq_ok h
    exact separate_of_repeatAtMost hp hps

theorem ClassSignature.parser_reads :
    ClassSignature.parser.Reads ClassSignature.chars ClassSignature.WellFormed := by
  intro cs s rest h
  obtain ⟨typeParameters, left₁, htypes, h⟩ := bind_eq_ok h
  obtain ⟨superclass, left₂, hsuper, h⟩ := bind_eq_ok h
  obtain ⟨interfaces, left₃, hinterfaces, h⟩ := bind_eq_ok h
  obtain ⟨rfl, rfl⟩ := pure_eq_ok h
  obtain ⟨hcs, htypes⟩ := TypeParameter.listParser_reads htypes
  obtain ⟨hleft₁, hsuper⟩ := ClassType.parser_reads hsuper
  obtain ⟨hleft₂, hall⟩ := ClassType.parser_reads.manyToEnd ClassType.chars_ne_nil hinterfaces
  refine ⟨?_, htypes, hsuper, hall⟩
  rw [hcs, hleft₁, hleft₂, ClassSignature.chars]
  simp

theorem MethodSignature.thrownParser_eq_ok {cs rest : List Char} {t : ReferenceType}
    (h : MethodSignature.thrownParser cs = .ok (t, rest)) :
    ReferenceType.parser cs = .ok (t, rest) ∧ cs.head? ≠ some '[' := by
  obtain ⟨c, left, hc, h₁⟩ := bind_eq_ok h
  obtain ⟨hhead, rfl⟩ := peek_eq_ok hc
  rw [← hhead]
  split at h₁
  · exact ⟨h₁, by decide⟩
  · exact ⟨h₁, by decide⟩
  · cases h₁
  · cases h₁

theorem MethodSignature.thrownParser_reads :
    MethodSignature.thrownParser.Reads ReferenceType.chars
      fun t => t.WellFormed ∧ ¬ t.IsArray := by
  intro cs t rest h
  obtain ⟨h, hhead⟩ := thrownParser_eq_ok h
  obtain ⟨hcs, hwf⟩ := ReferenceType.parser_reads h
  refine ⟨hcs, hwf, fun harray => ?_⟩
  cases t with
  | array element =>
    rw [hcs] at hhead
    exact hhead rfl
  | classType t => exact harray
  | typeVariable name => exact harray

/-- A method has a result unless there is a `V` in its place. -/
theorem MethodSignature.parser_eq_ok {cs rest : List Char} {s : MethodSignature}
    (h : MethodSignature.parser cs = .ok (s, rest)) :
    ∃ left₁ left₂ left₃, TypeParameter.listParser cs = .ok (s.typeParameters, '(' :: left₁) ∧
      manyUntil ')' JavaType.parser left₁ = .ok (s.parameters, left₂) ∧
      manyAfter '^' thrownParser left₃ = .ok (s.throws, rest) ∧
      ((left₂ = 'V' :: left₃ ∧ s.result = none) ∨ (left₂.head? ≠ some 'V' ∧
        ∃ t, s.result = some t ∧ JavaType.parser left₂ = .ok (t, left₃))) := by
  obtain ⟨typeParameters, left₁, htypes, h₁⟩ := bind_eq_ok h
  obtain ⟨_, left₂, hopen, h₂⟩ := bind_eq_ok h₁
  obtain ⟨parameters, left₃, hparameters, h₃⟩ := bind_eq_ok h₂
  obtain ⟨void, left₄, hvoid, h₄⟩ := bind_eq_ok h₃
  rw [expect_eq_ok hopen] at htypes
  have hleft := accept_eq_ok hvoid
  cases void with
  | true =>
    obtain ⟨_, left₅, hnone, h₅⟩ := bind_eq_ok h₄
    obtain ⟨rfl, rfl⟩ := pure_eq_ok hnone
    obtain ⟨throws, left₆, hthrows, h₆⟩ := bind_eq_ok h₅
    obtain ⟨rfl, rfl⟩ := pure_eq_ok h₆
    exact ⟨left₂, left₃, left₄, htypes, hparameters, hthrows, .inl ⟨hleft, rfl⟩⟩
  | false =>
    obtain ⟨result, left₅, hresult, h₅⟩ := bind_eq_ok h₄
    obtain ⟨t, ht, rfl⟩ := map_eq_ok hresult
    obtain ⟨throws, left₆, hthrows, h₆⟩ := bind_eq_ok h₅
    obtain ⟨rfl, rfl⟩ := pure_eq_ok h₆
    obtain rfl : left₃ = left₄ := hleft
    refine ⟨left₂, left₃, left₅, htypes, hparameters, hthrows, .inr ⟨fun hV => ?_, t, rfl, ht⟩⟩
    obtain ⟨tail, rfl⟩ := List.head?_eq_some_iff.1 hV
    cases (accept_cons 'V' tail).symm.trans hvoid

theorem MethodSignature.parser_reads :
    MethodSignature.parser.Reads MethodSignature.chars MethodSignature.WellFormed := by
  rintro cs ⟨typeParameters, parameters, result, throws⟩ rest hp
  obtain ⟨left₁, left₂, left₃, htypes, hparameters, hthrows, hresult⟩ := parser_eq_ok hp
  obtain ⟨hcs, htypes⟩ := TypeParameter.listParser_reads htypes
  obtain ⟨hleft₁, hparameters⟩ :=
    JavaType.parser_reads.manyUntil JavaType.chars_ne_nil ')' hparameters
  obtain ⟨hleft₃, hthrows⟩ := thrownParser_reads.manyAfter '^' hthrows
  have hleft₂ : left₂ = result.elim ['V'] JavaType.chars ++ left₃ ∧
      ∀ t ∈ result, t.WellFormed := by
    rcases hresult with ⟨rfl, rfl⟩ | ⟨-, t, rfl, ht⟩
    · exact ⟨rfl, fun _ ht => by cases ht⟩
    · obtain ⟨hleft, hwf⟩ := JavaType.parser_reads ht
      exact ⟨hleft, fun u hu => Option.some.inj hu ▸ hwf⟩
  refine ⟨?_, htypes, hparameters, hleft₂.2, hthrows⟩
  rw [hcs, hleft₁, hleft₂.1, hleft₃, MethodSignature.chars]
  simp

/-! ## Signatures -/

theorem Signature.parser_reads (kind : SignatureKind) :
    (Signature.parser kind).Reads Signature.chars fun s => s.kind = kind ∧ s.WellFormed := by
  intro cs s rest h
  cases kind with
  | ofClass =>
    obtain ⟨s, hs, rfl⟩ := map_eq_ok h
    exact (ClassSignature.parser_reads hs).imp_right fun hwf => ⟨rfl, hwf⟩
  | ofField =>
    obtain ⟨t, ht, rfl⟩ := map_eq_ok h
    exact (ReferenceType.parser_reads ht).imp_right fun hwf => ⟨rfl, hwf⟩
  | ofMethod =>
    obtain ⟨s, hs, rfl⟩ := map_eq_ok h
    exact (MethodSignature.parser_reads hs).imp_right fun hwf => ⟨rfl, hwf⟩

/-- A signature that can be read is the text of its tree, which is well-formed. -/
theorem Signature.render_of_parse {kind : SignatureKind} {text : String} {s : Signature}
    (h : Signature.parse kind text = .ok s) : s.render = text ∧ s.kind = kind ∧ s.WellFormed :=
  (Signature.parser_reads kind).parseAll h

end Repackage
