import Repackage.Proofs.Grammar.Signature

/-!
# Trees are read from their texts

What is written for a tree is read as that tree. For a descriptor this holds whatever comes after
it, so descriptors and their texts are one to one (`Parser.RoundTrips`). For a signature the tree
has to be well-formed, and what comes after it must not be taken for a part of it: a name ends at a
delimiter, and a type parameter without bounds must not be followed by what starts as a type.
-/

namespace Repackage

open Repackage.Parser

/-! ## Descriptors -/

section Descriptors

variable (rest : List Char)

theorem BaseType.parser_append (t : BaseType) :
    BaseType.parser (t.chars ++ rest) = .ok (t, rest) := by
  cases t <;> rfl

theorem BinaryName.parser_append (n : BinaryName) :
    BinaryName.parser (n.chars ++ rest) = .ok (n, rest) := by
  have hname : ∀ c ∈ n.text.toList, decide (c ≠ ';') = true := by
    refine fun c hc => decide_eq_true ?_
    rintro rfl
    exact absurd (n.isNameSeparator_eq_false hc (by decide)) (by decide)
  obtain ⟨htake, hdrop⟩ := takeWhile_append _ _ (';' :: rest) hname fun c hc => by
    cases hc
    rfl
  have htaken : Parser.takeWhile (· ≠ ';') (n.text.toList ++ ';' :: rest) =
      .ok (n.text.toList, ';' :: rest) := by
    rw [Parser.takeWhile, htake, hdrop]
  have hvalid : BinaryName.ofString n.text = .ok n := by
    unfold BinaryName.ofString
    split
    · rfl
    · rename_i e he
      cases he.symm.trans n.valid
  rw [BinaryName.chars, List.append_assoc, List.singleton_append, List.cons_append,
    BinaryName.parser, bind_of_eq_ok (expect_cons 'L' _), bind_of_eq_ok htaken,
    bind_of_eq_ok (next_cons ';' rest)]
  dsimp only
  rw [String.ofList_toList, hvalid]
  rfl

/-- Brackets are counted up to what is no bracket. -/
theorem takeWhile_brackets (n : Nat) (h : rest.head? ≠ some '[') :
    Parser.takeWhile (· = '[') (List.replicate (n + 1) '[' ++ rest) =
      .ok (List.replicate (n + 1) '[', rest) := by
  obtain ⟨htake, hdrop⟩ := takeWhile_append (fun c => decide (c = '['))
    (List.replicate (n + 1) '[') rest
    (fun _ hc => decide_eq_true (List.eq_of_mem_replicate hc))
    fun _ hc => decide_eq_false fun e => h (e ▸ hc)
  rw [Parser.takeWhile, htake, hdrop]

theorem RefType.parser_append (t : RefType) : RefType.parser (t.chars ++ rest) = .ok (t, rest) := by
  cases t with
  | object n => exact bind_of_eq_ok (f := fun n => pure (RefType.object n)) (n.parser_append rest)
  | objectArray extra n =>
    obtain ⟨c, hc, hpeek⟩ := exists_peek ((RefType.objectArray extra n).chars ++ rest)
    rw [RefType.parser, bind_of_eq_ok hpeek, RefType.chars, List.append_assoc]
    split
    case h_3 =>
      rw [bind_of_eq_ok (takeWhile_brackets (n.chars ++ rest) extra fun e => by cases e),
        List.length_replicate]
      exact bind_of_eq_ok (f := fun n => pure (RefType.objectArray extra n)) (n.parser_append rest)
    case h_4 hne =>
      cases hc
      exact absurd rfl hne
    all_goals cases hc
  | primitiveArray extra base =>
    obtain ⟨c, hc, hpeek⟩ := exists_peek ((RefType.primitiveArray extra base).chars ++ rest)
    rw [RefType.parser, bind_of_eq_ok hpeek, RefType.chars, List.append_assoc]
    split
    case h_3 =>
      rw [bind_of_eq_ok (takeWhile_brackets (base.chars ++ rest) extra fun e => by
        cases base <;> cases e), List.length_replicate]
      cases base <;> rfl
    case h_4 hne =>
      cases hc
      exact absurd rfl hne
    all_goals cases hc

theorem FieldType.parser_append (t : FieldType) :
    FieldType.parser (t.chars ++ rest) = .ok (t, rest) := by
  cases t with
  | base t => cases t <;> rfl
  | ref t =>
    have hread := bind_of_eq_ok (f := fun t => pure (FieldType.ref t))
      (RefType.parser_append rest t)
    cases t with
    | object n => exact hread
    | objectArray extra n => exact hread
    | primitiveArray extra base => exact hread

/-- A type does not start with a parenthesis. -/
theorem FieldType.head?_chars (t : FieldType) :
    ∃ c, t.chars.head? = some c ∧ c ≠ '(' ∧ c ≠ ')' ∧ c ≠ 'V' := by
  cases t with
  | base t => exact ⟨t.letter, rfl, by cases t <;> decide⟩
  | ref t =>
    cases t with
    | object n => exact ⟨'L', rfl, by decide⟩
    | objectArray extra n => exact ⟨'[', rfl, by decide⟩
    | primitiveArray extra base => exact ⟨'[', rfl, by decide⟩

theorem MethodType.parser_append (t : MethodType) :
    MethodType.parser (t.chars ++ rest) = .ok (t, rest) := by
  obtain ⟨parameters, result⟩ := t
  have hparameters (rest : List Char) :
      manyUntil ')' FieldType.parser (parameters.flatMap FieldType.chars ++ ')' :: rest) =
        .ok (parameters, rest) :=
    manyUntil_append ')' parameters (fun t _ _ => t.parser_append _) (fun t _ => by
      obtain ⟨c, hc, -, hne, -⟩ := t.head?_chars
      exact ⟨c, hc, hne⟩)
  have hopen : (MethodType.mk parameters result).chars ++ rest =
      '(' :: (parameters.flatMap FieldType.chars ++
        ')' :: (result.elim ['V'] FieldType.chars ++ rest)) := by
    simp [MethodType.chars]
  rw [hopen, MethodType.parser, bind_of_eq_ok (expect_cons '(' _), bind_of_eq_ok (hparameters _)]
  cases result with
  | none => rfl
  | some t =>
    obtain ⟨c, hc, -, -, hne⟩ := t.head?_chars
    refine (bind_of_eq_ok (accept_append hc hne rest)).trans ?_
    exact bind_of_eq_ok (f := fun t => pure (MethodType.mk parameters (some t)))
      (t.parser_append rest)

theorem Descriptor.parser_append (d : Descriptor) :
    Descriptor.parser (d.chars ++ rest) = .ok (d, rest) := by
  obtain ⟨c, hc, hpeek⟩ := exists_peek (d.chars ++ rest)
  rw [Descriptor.parser, bind_of_eq_ok hpeek]
  cases d with
  | method t =>
    split
    · exact bind_of_eq_ok (f := fun t => pure (Descriptor.method t)) (t.parser_append rest)
    · rename_i hne
      exact absurd hc hne
  | field t =>
    split
    · obtain ⟨c, hc', hne, -⟩ := t.head?_chars
      rw [Descriptor.chars, List.head?_append, hc'] at hc
      exact absurd (Option.some.inj hc).symm hne
    · exact bind_of_eq_ok (f := fun t => pure (Descriptor.field t)) (t.parser_append rest)

end Descriptors

theorem Descriptor.roundTrips : Descriptor.parser.RoundTrips Descriptor.chars :=
  .of_append Descriptor.parser_spells Descriptor.parser_append

/-- Every descriptor can be read from its text. -/
theorem Descriptor.parse_render (d : Descriptor) : Descriptor.parse d.render = .ok d :=
  Descriptor.roundTrips.parse_render d

theorem FieldType.chars_array (t : FieldType) : t.array.chars = '[' :: t.chars := by
  cases t with
  | base t => rfl
  | ref t => cases t <;> rfl

theorem FieldType.chars_repeat_array (t : FieldType) (n : Nat) :
    (Nat.repeat FieldType.array n t).chars = List.replicate n '[' ++ t.chars := by
  induction n with
  | zero => rfl
  | succ n ih => rw [Nat.repeat, chars_array, ih, List.replicate_succ, List.cons_append]

/-- Descriptors of every kind are read from what is written for them and from nothing else, and
each dimension of an array is one more bracket in front. -/
theorem Descriptor.grammar_roundTrips :
    BaseType.parser.RoundTrips BaseType.chars ∧ BinaryName.parser.RoundTrips BinaryName.chars ∧
      RefType.parser.RoundTrips RefType.chars ∧ FieldType.parser.RoundTrips FieldType.chars ∧
      MethodType.parser.RoundTrips MethodType.chars ∧
      Descriptor.parser.RoundTrips Descriptor.chars ∧
      ∀ (t : FieldType) (n : Nat),
        (Nat.repeat FieldType.array n t).chars = List.replicate n '[' ++ t.chars :=
  ⟨.of_append BaseType.parser_spells BaseType.parser_append,
    .of_append BinaryName.parser_spells BinaryName.parser_append,
    .of_append RefType.parser_spells RefType.parser_append,
    .of_append FieldType.parser_spells FieldType.parser_append,
    .of_append MethodType.parser_spells MethodType.parser_append, Descriptor.roundTrips,
    FieldType.chars_repeat_array⟩

/-! ## Names in signatures -/

/-- What is left starts with a character that ends what was read, or not at all. -/
def EndsAt (ends : Char → Bool) (rest : List Char) : Prop :=
  ∀ c, rest.head? = some c → ends c = true

theorem EndsAt.congr {ends : Char → Bool} {rest rest' : List Char} (h : EndsAt ends rest)
    (hrest : rest'.head? = rest.head?) : EndsAt ends rest' :=
  fun c hc => h c (hrest ▸ hc)

theorem EndsAt.cons {ends : Char → Bool} {c : Char} (hc : ends c = true) (rest : List Char) :
    EndsAt ends (c :: rest) := by
  intro d hd
  cases hd
  exact hc

theorem EndsAt.imp {ends ends' : Char → Bool} {rest : List Char} (h : EndsAt ends rest)
    (himp : ∀ c, ends c = true → ends' c = true) : EndsAt ends' rest :=
  fun c hc => himp c (h c hc)

theorem EndsAt.head?_ne {ends : Char → Bool} {rest : List Char} (h : EndsAt ends rest) {c : Char}
    (hc : ends c = false) : rest.head? ≠ some c :=
  fun e => absurd (h c e) (by rw [hc]; decide)

/-- Items that each follow `lead` start with it. -/
theorem EndsAt.manyAfter {α : Type} {ends : Char → Bool} {rest : List Char} (h : EndsAt ends rest)
    (lead : Char) (hlead : ends lead = true) (xs : List α) (chars : α → List Char) :
    EndsAt ends (xs.flatMap (fun x => lead :: chars x) ++ rest) := by
  cases xs with
  | nil => exact h
  | cons x xs => exact .cons hlead _

theorem EndsAt.bracketed {ends : Char → Bool} {rest : List Char} (h : EndsAt ends rest)
    (hopen : ends '<' = true) (isEmpty : Bool) (items : List Char) :
    EndsAt ends (Repackage.bracketed isEmpty items ++ rest) := by
  cases isEmpty with
  | true => exact h
  | false => exact .cons hopen _

theorem identifier_append {name : String} {rest : List Char} (hname : IsIdentifier name.toList)
    (hrest : EndsAt isSignatureDelimiter rest) :
    identifier (name.toList ++ rest) = .ok (name, rest) := by
  obtain ⟨htake, hdrop⟩ := takeWhile_append (!isSignatureDelimiter ·) name.toList rest
    (fun c hc => by rw [hname.2 c hc]; rfl) (fun c hc => by rw [hrest c hc]; rfl)
  have htaken : Parser.takeWhile (!isSignatureDelimiter ·) (name.toList ++ rest) =
      .ok (name.toList, rest) := by
    rw [Parser.takeWhile, htake, hdrop]
  rw [identifier, bind_of_eq_ok htaken, if_neg (mt List.isEmpty_iff.1 hname.1),
    String.ofList_toList]
  rfl

theorem isSignatureDelimiter_of_endsClassName (c : Char) (h : endsClassName c = true) :
    isSignatureDelimiter c = true :=
  (Bool.and_eq_true_iff.1 h).1

theorem qualifiedName_append {name : String} {rest : List Char}
    (hname : IsQualifiedName name.toList) (hrest : EndsAt endsClassName rest) :
    qualifiedName (name.toList ++ rest) = .ok (name, rest) := by
  obtain ⟨first, others, hsegments⟩ :=
    List.exists_cons_of_ne_nil (Text.segments_ne_nil '/' name.toList)
  have hjoin := Text.join_segments hsegments
  rw [IsQualifiedName, hsegments, List.forall_mem_cons] at hname
  -- the parts after the first, as the names that are read
  obtain ⟨more, rfl⟩ : ∃ more : List String, others = more.map String.toList :=
    ⟨others.map String.ofList, by simp [Function.comp_def]⟩
  rw [List.flatMap_map] at hjoin
  have hends : EndsAt isSignatureDelimiter rest :=
    hrest.imp isSignatureDelimiter_of_endsClassName
  have hfirst : identifier (first ++ (more.flatMap (fun s => '/' :: s.toList) ++ rest)) =
      .ok (String.ofList first, more.flatMap (fun s => '/' :: s.toList) ++ rest) := by
    have hidentifier : IsIdentifier (String.ofList first).toList := by
      rw [String.toList_ofList]
      exact hname.1
    have hread := identifier_append hidentifier (hends.manyAfter '/' rfl more String.toList)
    rwa [String.toList_ofList] at hread
  have hmore : manyAfter '/' identifier (more.flatMap (fun s => '/' :: s.toList) ++ rest) =
      .ok (more, rest) := by
    refine manyAfter_append '/' more (fun s others h => ?_) (hrest.head?_ne rfl)
    refine identifier_append ?_ (hends.manyAfter '/' rfl others String.toList)
    exact List.forall_mem_map.1 hname.2 s (h.subset List.mem_cons_self)
  rw [← hjoin, List.append_assoc, qualifiedName, bind_of_eq_ok hfirst, bind_of_eq_ok hmore,
    String.toList_ofList, hjoin, String.ofList_toList]
  rfl

/-! ## Types in signatures -/

theorem bracketed_append {α : Type} {item : Parser α} {chars : α → List Char} {rest : List Char}
    (xs : List α) (hitem : ∀ x others, x :: others <:+ xs →
      item (chars x ++ (others.flatMap chars ++ '>' :: rest)) =
        .ok (x, others.flatMap chars ++ '>' :: rest))
    (hhead : ∀ x ∈ xs, ∃ c, (chars x).head? = some c ∧ c ≠ '>') (hrest : rest.head? ≠ some '<') :
    (do if ← accept '<' then someUntil '>' item else pure [] : Parser (List α))
      (bracketed xs.isEmpty (xs.flatMap chars) ++ rest) = .ok (xs, rest) := by
  cases xs with
  | nil => exact bind_of_eq_ok (accept_of_head? hrest)
  | cons x xs =>
    have htext : bracketed (x :: xs).isEmpty ((x :: xs).flatMap chars) ++ rest =
        '<' :: ((x :: xs).flatMap chars ++ '>' :: rest) := by
      simp [bracketed]
    rw [htext, bind_of_eq_ok (accept_cons '<' _)]
    exact someUntil_append '>' (List.cons_ne_nil x xs) hitem hhead

theorem ReferenceType.chars_eq_cons (t : ReferenceType) :
    ∃ c tail, t.chars = c :: tail ∧ (c = 'L' ∨ c = 'T' ∨ c = '[') := by
  cases t with
  | classType t =>
    obtain ⟨name, arguments, suffixes⟩ := t
    exact ⟨'L', _, rfl, .inl rfl⟩
  | typeVariable name => exact ⟨'T', _, rfl, .inr (.inl rfl)⟩
  | array element => exact ⟨'[', _, rfl, .inr (.inr rfl)⟩

theorem length_le_flatMap {α : Type} {x : α} {xs : List α} (chars : α → List Char) (hx : x ∈ xs) :
    (chars x).length ≤ (xs.flatMap chars).length := by
  obtain ⟨before, after, rfl⟩ := List.append_of_mem hx
  rw [List.flatMap_append, List.flatMap_cons, List.length_append, List.length_append]
  omega

theorem TypeArgument.length_le_bracketed {t : TypeArgument} {ts : List TypeArgument} (ht : t ∈ ts) :
    t.chars.length ≤ (bracketed ts.isEmpty (TypeArgument.listChars ts)).length := by
  have hlength := length_le_flatMap TypeArgument.chars ht
  rw [← TypeArgument.listChars_eq] at hlength
  rw [bracketed, if_neg fun e => List.ne_nil_of_mem ht (List.isEmpty_iff.1 e), List.length_append,
    List.length_cons]
  omega

theorem TypeArgument.head?_chars (t : TypeArgument) :
    ∃ c, t.chars.head? = some c ∧ c ≠ '>' := by
  cases t with
  | wildcard => exact ⟨'*', rfl, by decide⟩
  | concrete bound t =>
    obtain ⟨c, tail, ht, hc⟩ := t.chars_eq_cons
    cases bound with
    | none =>
      refine ⟨c, by rw [TypeArgument.chars, ht]; rfl, ?_⟩
      rcases hc with rfl | rfl | rfl <;> decide
    | some bound => exact ⟨bound.sign, rfl, by cases bound <;> decide⟩

theorem JavaType.head?_chars (t : JavaType) :
    ∃ c, t.chars.head? = some c ∧ c ≠ ')' ∧ c ≠ 'V' := by
  cases t with
  | base t => exact ⟨t.letter, rfl, by cases t <;> decide⟩
  | reference t =>
    obtain ⟨c, tail, ht, hc⟩ := t.chars_eq_cons
    refine ⟨c, by rw [JavaType.chars, ht]; rfl, ?_⟩
    rcases hc with rfl | rfl | rfl <;> decide

theorem ClassType.head?_chars (t : ClassType) (rest : List Char) :
    (t.chars ++ rest).head? = some 'L' := by
  obtain ⟨name, arguments, suffixes⟩ := t
  rfl

/-- Well-formed types of at most `n` characters are read, whatever follows. -/
def ReadsUpTo (n : Nat) (inner : Parser ReferenceType) : Prop :=
  ∀ t : ReferenceType, t.WellFormed → t.chars.length ≤ n →
    ∀ rest, inner (t.chars ++ rest) = .ok (t, rest)

/-- The characters that can come after a member class. -/
def endsSuffix (c : Char) : Bool := c == '.' || c == ';'

theorem endsClassName_of_endsSuffix (c : Char) (h : endsSuffix c = true) :
    endsClassName c = true := by
  rw [endsSuffix, Bool.or_eq_true, beq_iff_eq, beq_iff_eq] at h
  rcases h with rfl | rfl <;> rfl

namespace ReferenceType

theorem argumentParser_reference (inner : Parser ReferenceType) (t : ReferenceType)
    (rest : List Char) : argumentParser inner (t.chars ++ rest) =
      (do return .concrete none (← inner) : Parser TypeArgument) (t.chars ++ rest) := by
  obtain ⟨c, tail, ht, rfl | rfl | rfl⟩ := t.chars_eq_cons <;> rw [ht] <;> rfl

theorem javaParser_reference (inner : Parser ReferenceType) (t : ReferenceType)
    (rest : List Char) : javaParser inner (t.chars ++ rest) =
      (do return .reference (← inner) : Parser JavaType) (t.chars ++ rest) := by
  obtain ⟨c, tail, ht, rfl | rfl | rfl⟩ := t.chars_eq_cons <;> rw [ht] <;> rfl

section Nested

variable {inner : Parser ReferenceType} {n : Nat} (hinner : ReadsUpTo n inner) {rest : List Char}

include hinner

theorem argumentParser_append {t : TypeArgument} (ht : t.WellFormed) (hn : t.chars.length ≤ n) :
    argumentParser inner (t.chars ++ rest) = .ok (t, rest) := by
  cases t with
  | wildcard => rfl
  | concrete bound t =>
    rw [TypeArgument.chars, List.length_append] at hn
    have hread := hinner t ht (by omega) rest
    cases bound with
    | none => exact (argumentParser_reference inner t rest).trans (bind_of_eq_ok hread)
    | some bound =>
      cases bound with
      | upper =>
        exact bind_of_eq_ok (f := fun t => pure (TypeArgument.concrete (some .upper) t)) hread
      | lower =>
        exact bind_of_eq_ok (f := fun t => pure (TypeArgument.concrete (some .lower) t)) hread

theorem argumentsParser_append {ts : List TypeArgument} (hts : TypeArgument.AllWellFormed ts)
    (hn : ∀ t ∈ ts, t.chars.length ≤ n) (hrest : rest.head? ≠ some '<') :
    argumentsParser inner (bracketed ts.isEmpty (TypeArgument.listChars ts) ++ rest) =
      .ok (ts, rest) := by
  rw [TypeArgument.listChars_eq]
  refine bracketed_append ts (fun t others h => ?_) (fun t _ => t.head?_chars) hrest
  have hmem : t ∈ ts := h.subset List.mem_cons_self
  exact argumentParser_append hinner (TypeArgument.allWellFormed_iff.1 hts t hmem) (hn t hmem)

theorem simpleClassParser_append {t : SimpleClassType} (ht : t.WellFormed)
    (hn : t.chars.length ≤ n) (hrest : EndsAt endsSuffix rest) :
    simpleClassParser inner (t.chars ++ rest) = .ok (t, rest) := by
  obtain ⟨name, arguments⟩ := t
  obtain ⟨hname, harguments⟩ := ht
  have hfits : ∀ t ∈ arguments, t.chars.length ≤ n := by
    intro t ht
    have := TypeArgument.length_le_bracketed ht
    rw [SimpleClassType.chars, List.length_append] at hn
    omega
  have hdelimiter : EndsAt isSignatureDelimiter rest :=
    (hrest.imp endsClassName_of_endsSuffix).imp isSignatureDelimiter_of_endsClassName
  have hends := hdelimiter.bracketed rfl arguments.isEmpty (TypeArgument.listChars arguments)
  rw [SimpleClassType.chars, List.append_assoc, simpleClassParser,
    bind_of_eq_ok (identifier_append hname hends),
    bind_of_eq_ok (argumentsParser_append hinner harguments hfits (hrest.head?_ne rfl))]
  rfl

/-- The letter in front of the name counts, so that what is inside may be shorter. -/
theorem classParser_append {t : ClassType} (ht : t.WellFormed) (hn : t.chars.length ≤ n + 1) :
    classParser inner (t.chars ++ rest) = .ok (t, rest) := by
  obtain ⟨name, arguments, suffixes⟩ := t
  obtain ⟨hname, harguments, hsuffixes⟩ := ht
  rw [ClassType.chars, SimpleClassType.suffixChars_eq] at hn ⊢
  simp only [List.cons_append, List.length_cons, List.length_append] at hn
  have hfits : ∀ t ∈ arguments, t.chars.length ≤ n := by
    intro t ht
    have := TypeArgument.length_le_bracketed ht
    omega
  have hfits' : ∀ t ∈ suffixes, t.chars.length ≤ n := by
    intro t ht
    have := length_le_flatMap (fun t : SimpleClassType => '.' :: t.chars) ht
    rw [List.length_cons] at this
    omega
  have hclose : EndsAt endsSuffix (';' :: rest) := .cons rfl rest
  have hmembers := hclose.manyAfter '.' rfl suffixes SimpleClassType.chars
  have hends : EndsAt endsClassName _ := (hmembers.imp endsClassName_of_endsSuffix).bracketed rfl
    arguments.isEmpty (TypeArgument.listChars arguments)
  have hread : manyAfter '.' (simpleClassParser inner)
      (suffixes.flatMap (fun t => '.' :: t.chars) ++ ';' :: rest) =
        .ok (suffixes, ';' :: rest) := by
    refine manyAfter_append '.' suffixes (fun t others h => ?_) (head?_cons_ne (by decide) _)
    have hmem : t ∈ suffixes := h.subset List.mem_cons_self
    exact simpleClassParser_append hinner (SimpleClassType.allWellFormed_iff.1 hsuffixes t hmem)
      (hfits' t hmem) (hclose.manyAfter '.' rfl others SimpleClassType.chars)
  simp only [List.cons_append, List.append_assoc, List.nil_append]
  rw [classParser, bind_of_eq_ok (expect_cons 'L' _),
    bind_of_eq_ok (qualifiedName_append hname hends),
    bind_of_eq_ok (argumentsParser_append hinner harguments hfits (hmembers.head?_ne rfl)),
    bind_of_eq_ok hread, bind_of_eq_ok (expect_cons ';' rest)]
  rfl

theorem javaParser_append {t : JavaType} (ht : t.WellFormed) (hn : t.chars.length ≤ n) :
    javaParser inner (t.chars ++ rest) = .ok (t, rest) := by
  cases t with
  | base t => cases t <;> rfl
  | reference t =>
    exact (javaParser_reference inner t rest).trans (bind_of_eq_ok (hinner t ht hn rest))

end Nested

theorem parserAt_readsUpTo (depth : Nat) : ReadsUpTo depth (parserAt depth) := by
  induction depth with
  | zero =>
    intro t _ hn
    exact absurd (List.length_eq_zero_iff.1 (Nat.le_zero.1 hn)) t.chars_ne_nil
  | succ depth ih =>
    intro t ht hn rest
    cases t with
    | classType t =>
      have hread : classParser (parserAt depth) (t.chars ++ rest) = .ok (t, rest) :=
        classParser_append ih ht hn
      obtain ⟨name, arguments, suffixes⟩ := t
      exact bind_of_eq_ok (f := fun t => pure (ReferenceType.classType t)) hread
    | typeVariable name =>
      have hread := identifier_append ht (.cons (c := ';') rfl rest)
      rw [ReferenceType.chars, List.append_assoc]
      refine (bind_of_eq_ok (f := fun name => do expect ';'; return ReferenceType.typeVariable name)
        hread).trans ?_
      exact bind_of_eq_ok (expect_cons ';' rest)
    | array element =>
      rw [ReferenceType.chars, List.length_cons] at hn
      exact bind_of_eq_ok (f := fun t => pure (ReferenceType.array t))
        (javaParser_append ih ht (Nat.le_of_succ_le_succ hn))

theorem parser_append {t : ReferenceType} (ht : t.WellFormed) (rest : List Char) :
    ReferenceType.parser (t.chars ++ rest) = .ok (t, rest) := by
  refine parserAt_readsUpTo _ t ht ?_ rest
  rw [List.length_append]
  omega

theorem parser_readsUpTo (n : Nat) : ReadsUpTo n ReferenceType.parser :=
  fun _ ht _ rest => parser_append ht rest

end ReferenceType

theorem JavaType.parser_append {t : JavaType} (ht : t.WellFormed) (rest : List Char) :
    JavaType.parser (t.chars ++ rest) = .ok (t, rest) :=
  ReferenceType.javaParser_append (ReferenceType.parser_readsUpTo _) ht (Nat.le_refl _)

theorem ClassType.parser_append {t : ClassType} (ht : t.WellFormed) (rest : List Char) :
    ClassType.parser (t.chars ++ rest) = .ok (t, rest) :=
  ReferenceType.classParser_append (ReferenceType.parser_readsUpTo _) ht (Nat.le_succ _)

/-! ## Declarations -/

theorem ReferenceType.startsType (t : ReferenceType) (rest : List Char) :
    StartsType (t.chars ++ rest) := by
  obtain ⟨c, tail, ht, hc⟩ := t.chars_eq_cons
  exact ⟨c, by rw [ht]; rfl, hc⟩

namespace TypeParameter

/-- A type after the colon is the class bound. -/
theorem parser_classBound {cs left rest : List Char} {name : String} {t : ReferenceType}
    {bounds : List ReferenceType} (hname : identifier cs = .ok (name, ':' :: (t.chars ++ left)))
    (ht : ReferenceType.parser (t.chars ++ left) = .ok (t, left))
    (hbounds : manyAfter ':' ReferenceType.parser left = .ok (bounds, rest)) :
    TypeParameter.parser cs = .ok (⟨name, some t, bounds⟩, rest) := by
  have hread : (do
      let classBound ← some <$> ReferenceType.parser
      return ⟨name, classBound, ← manyAfter ':' ReferenceType.parser⟩ : Parser TypeParameter)
        (t.chars ++ left) = .ok (⟨name, some t, bounds⟩, rest) := by
    have hsome : (some <$> ReferenceType.parser) (t.chars ++ left) = .ok (some t, left) :=
      bind_of_eq_ok (f := fun t => pure (some t)) ht
    rw [bind_of_eq_ok hsome, bind_of_eq_ok hbounds]
    rfl
  obtain ⟨c, hc, hpeek⟩ := exists_peek (t.chars ++ left)
  obtain ⟨d, hd, hcases⟩ := t.startsType left
  rw [TypeParameter.parser, bind_of_eq_ok hname, bind_of_eq_ok (expect_cons ':' _),
    bind_of_eq_ok hpeek, hc, hd]
  rcases hcases with rfl | rfl | rfl
  · exact hread
  · exact hread
  · exact hread

/-- Without a type after the colon there is no class bound. -/
theorem parser_noClassBound {cs left rest : List Char} {name : String}
    {bounds : List ReferenceType} (hname : identifier cs = .ok (name, ':' :: left))
    (hstarts : ¬ StartsType left)
    (hbounds : manyAfter ':' ReferenceType.parser left = .ok (bounds, rest)) :
    TypeParameter.parser cs = .ok (⟨name, none, bounds⟩, rest) := by
  obtain ⟨c, hc, hpeek⟩ := exists_peek left
  rw [TypeParameter.parser, bind_of_eq_ok hname, bind_of_eq_ok (expect_cons ':' _),
    bind_of_eq_ok hpeek]
  dsimp only
  split
  · exact absurd ⟨'L', hc.symm, .inl rfl⟩ hstarts
  · exact absurd ⟨'T', hc.symm, .inr (.inl rfl)⟩ hstarts
  · exact absurd ⟨'[', hc.symm, .inr (.inr rfl)⟩ hstarts
  · exact bind_of_eq_ok (f := fun bounds => pure (TypeParameter.mk name none bounds)) hbounds

/-- What comes after a parameter must not go on with its bounds. -/
theorem parser_append {p : TypeParameter} {rest : List Char} (hp : p.WellFormed)
    (hcolon : rest.head? ≠ some ':') (hstarts : p.Unbounded → ¬ StartsType rest) :
    TypeParameter.parser (p.chars ++ rest) = .ok (p, rest) := by
  obtain ⟨name, classBound, bounds⟩ := p
  obtain ⟨hname, hclass, hbounds⟩ := hp
  have hread : manyAfter ':' ReferenceType.parser
      (bounds.flatMap (fun t => ':' :: t.chars) ++ rest) = .ok (bounds, rest) :=
    manyAfter_append ':' bounds (fun t _ h => ReferenceType.parser_append
      (hbounds t (h.subset List.mem_cons_self)) _) hcolon
  have hidentifier (left : List Char) :
      identifier (name.toList ++ ':' :: left) = .ok (name, ':' :: left) :=
    identifier_append hname (.cons rfl left)
  simp only [TypeParameter.chars, List.append_assoc, List.cons_append]
  cases classBound with
  | some t =>
    exact parser_classBound (hidentifier _) (ReferenceType.parser_append (hclass t rfl) _) hread
  | none =>
    refine parser_noClassBound (hidentifier _) ?_ hread
    cases bounds with
    | nil => exact hstarts ⟨rfl, rfl⟩
    | cons t ts =>
      rintro ⟨c, hc, hcases⟩
      cases hc
      revert hcases
      decide

theorem Separate.of_suffix {ps qs : List TypeParameter} (h : Separate ps) (hqs : qs <:+ ps) :
    Separate qs := by
  induction ps with
  | nil =>
    cases List.suffix_nil.1 hqs
    trivial
  | cons p ps ih =>
    rcases List.suffix_cons_iff.1 hqs with rfl | hqs
    · exact h
    · exact ih h.tail hqs

theorem head?_chars {p : TypeParameter} (hp : p.WellFormed) (rest : List Char) :
    ∃ c, (p.chars ++ rest).head? = some c ∧ p.name.toList.head? = some c ∧
      isSignatureDelimiter c = false := by
  obtain ⟨c, tail, hname⟩ := List.exists_cons_of_ne_nil hp.name.1
  refine ⟨c, by rw [TypeParameter.chars, hname]; rfl, by rw [hname]; rfl, hp.name.2 c ?_⟩
  rw [hname]
  exact List.mem_cons_self

theorem listParser_append {ps : List TypeParameter} {rest : List Char} (hps : AllWellFormed ps)
    (hrest : rest.head? ≠ some '<') : listParser (listChars ps ++ rest) = .ok (ps, rest) := by
  have hdelimiter {c d : Char} (hc : isSignatureDelimiter c = false)
      (hd : isSignatureDelimiter d = true) : c ≠ d := by
    rintro rfl
    cases hc.symm.trans hd
  refine bracketed_append ps (fun p others h => ?_) (fun p hp => ?_) hrest
  · have hseparate := hps.separate.of_suffix h
    have hp := hps.each p (h.subset List.mem_cons_self)
    cases others with
    | nil =>
      refine parser_append hp (head?_cons_ne (by decide) _) ?_
      rintro - ⟨c, hc, hcases⟩
      cases hc
      revert hcases
      decide
    | cons q qs =>
      have hq := hps.each q (h.subset (List.mem_cons_of_mem p List.mem_cons_self))
      rw [List.flatMap_cons, List.append_assoc]
      obtain ⟨c, hc, hname, hends⟩ := head?_chars hq (qs.flatMap TypeParameter.chars ++ '>' :: rest)
      refine parser_append hp ?_ fun hunbounded => ?_
      · rw [hc]
        exact fun e => hdelimiter hends rfl (Option.some.inj e)
      · obtain ⟨hL, hT⟩ := hseparate.1 hunbounded
        rintro ⟨d, hd, hcases⟩
        cases hc.symm.trans hd
        rcases hcases with rfl | rfl | rfl
        · exact hL hname
        · exact hT hname
        · cases hends
  · obtain ⟨c, hc, -, hends⟩ := head?_chars (hps.each p hp) []
    rw [List.append_nil] at hc
    exact ⟨c, hc, hdelimiter hends rfl⟩

end TypeParameter

theorem ClassSignature.parser_append {s : ClassSignature} (hs : s.WellFormed) :
    ClassSignature.parser s.chars = .ok (s, []) := by
  obtain ⟨typeParameters, superclass, interfaces⟩ := s
  obtain ⟨htypes, hsuper, hinterfaces⟩ := hs
  have hread : manyToEnd ClassType.parser (interfaces.flatMap ClassType.chars ++ []) =
      .ok (interfaces, []) :=
    manyToEnd_append interfaces (fun t _ h => ClassType.parser_append
      (hinterfaces t (h.subset List.mem_cons_self)) _) fun t _ => t.chars_ne_nil
  rw [List.append_nil] at hread
  have hopen (rest : List Char) : (superclass.chars ++ rest).head? ≠ some '<' := by
    rw [superclass.head?_chars]
    decide
  rw [ClassSignature.chars, List.append_assoc, ClassSignature.parser,
    bind_of_eq_ok (TypeParameter.listParser_append htypes (hopen _)),
    bind_of_eq_ok (ClassType.parser_append hsuper _), bind_of_eq_ok hread]
  rfl

theorem MethodSignature.thrownParser_append {t : ReferenceType} (ht : t.WellFormed)
    (harray : ¬ t.IsArray) (rest : List Char) : thrownParser (t.chars ++ rest) = .ok (t, rest) := by
  have hread := ReferenceType.parser_append ht rest
  cases t with
  | classType t =>
    obtain ⟨name, arguments, suffixes⟩ := t
    exact hread
  | typeVariable name => exact hread
  | array element => exact absurd trivial harray

theorem MethodSignature.parser_append {s : MethodSignature} {rest : List Char} (hs : s.WellFormed)
    (hrest : rest.head? ≠ some '^') : MethodSignature.parser (s.chars ++ rest) = .ok (s, rest) := by
  obtain ⟨typeParameters, parameters, result, throws⟩ := s
  obtain ⟨htypes, hparameters, hresult, hthrows⟩ := hs
  have hthrown : manyAfter '^' thrownParser (throws.flatMap (fun t => '^' :: t.chars) ++ rest) =
      .ok (throws, rest) := by
    refine manyAfter_append '^' throws (fun t _ h => ?_) hrest
    obtain ⟨ht, harray⟩ := hthrows t (h.subset List.mem_cons_self)
    exact thrownParser_append ht harray _
  have hread (left : List Char) :
      manyUntil ')' JavaType.parser (parameters.flatMap JavaType.chars ++ ')' :: left) =
        .ok (parameters, left) :=
    manyUntil_append ')' parameters
      (fun t _ h => JavaType.parser_append (hparameters t (h.subset List.mem_cons_self)) _)
      fun t _ => by
        obtain ⟨c, hc, hne, -⟩ := t.head?_chars
        exact ⟨c, hc, hne⟩
  simp only [MethodSignature.chars, List.append_assoc, List.cons_append]
  rw [MethodSignature.parser,
    bind_of_eq_ok (TypeParameter.listParser_append htypes (head?_cons_ne (by decide) _)),
    bind_of_eq_ok (expect_cons '(' _), bind_of_eq_ok (hread _)]
  cases result with
  | none =>
    refine (bind_of_eq_ok (accept_cons 'V' _)).trans ?_
    exact bind_of_eq_ok (f := fun throws =>
      pure (MethodSignature.mk typeParameters parameters none throws)) hthrown
  | some t =>
    obtain ⟨c, hc, -, hne⟩ := t.head?_chars
    have hsome (left : List Char) : (some <$> JavaType.parser) (t.chars ++ left) =
        .ok (some t, left) :=
      bind_of_eq_ok (f := fun t => pure (some t)) (JavaType.parser_append (hresult t rfl) left)
    refine (bind_of_eq_ok (accept_append hc hne _)).trans ?_
    refine (bind_of_eq_ok (hsome _)).trans ?_
    exact bind_of_eq_ok (f := fun throws =>
      pure (MethodSignature.mk typeParameters parameters (some t) throws)) hthrown

/-! ## Signatures -/

/-- A well-formed signature is read from its text. -/
theorem Signature.parse_render {s : Signature} (hs : s.WellFormed) :
    Signature.parse s.kind s.render = .ok s := by
  refine parseAll_ofList ?_
  cases s with
  | ofClass s =>
    exact bind_of_eq_ok (f := fun s => pure (Signature.ofClass s)) (ClassSignature.parser_append hs)
  | ofField t =>
    have hread : ReferenceType.parser (t.chars ++ []) = .ok (t, []) :=
      ReferenceType.parser_append hs []
    rw [List.append_nil] at hread
    exact bind_of_eq_ok (f := fun t => pure (Signature.ofField t)) hread
  | ofMethod s =>
    have hread : MethodSignature.parser (s.chars ++ []) = .ok (s, []) :=
      MethodSignature.parser_append hs (by decide)
    rw [List.append_nil] at hread
    exact bind_of_eq_ok (f := fun s => pure (Signature.ofMethod s)) hread

/-- Every signature that can be read is the text of its tree, and every well-formed tree of any of
the kinds is read from its text. -/
theorem Signature.parse_inverts_render :
    (∀ kind text s, Signature.parse kind text = .ok s → s.render = text) ∧
      (∀ s : Signature, s.WellFormed → Signature.parse s.kind s.render = .ok s) ∧
      ∀ kind text s, Signature.parse kind text = .ok s → s.kind = kind ∧ s.WellFormed :=
  ⟨fun _ _ _ h => (Signature.render_of_parse h).1, fun _ hs => Signature.parse_render hs,
    fun _ _ _ h => (Signature.render_of_parse h).2⟩

/-- Type parameters with and without bounds, of which the last is named like a bound, members of a
generic class, arrays and thrown types. -/
def Signature.crowded : Signature :=
  .ofMethod {
    typeParameters := [⟨"A(V", none, []⟩,
      ⟨"B", none, [.classType ⟨"Face", [.concrete (some .lower) (.typeVariable "A(V")], []⟩]⟩,
      ⟨"L", some (.classType ⟨"p/Out", [.wildcard],
        [⟨"In", [.concrete (some .upper) (.array (.base .int))]⟩, ⟨"Deep", []⟩]⟩), []⟩]
    parameters := [.reference (.array (.reference (.array (.reference (.typeVariable "L"))))),
      .base .long]
    result := none
    throws := [.typeVariable "B", .classType ⟨"p/Err", [], []⟩] }

theorem Signature.parse_inverts_render_crowded :
    crowded.WellFormed ∧ crowded.render =
        "<A(V:B::LFace<-TA(V;>;L:Lp/Out<*>.In<+[I>.Deep;>([[TL;J)V^TB;^Lp/Err;" ∧
      Signature.parse .ofMethod
        "<A(V:B::LFace<-TA(V;>;L:Lp/Out<*>.In<+[I>.Deep;>([[TL;J)V^TB;^Lp/Err;" = .ok crowded :=
  have hwf : crowded.WellFormed := by decide +kernel
  have hrender : crowded.render =
      "<A(V:B::LFace<-TA(V;>;L:Lp/Out<*>.In<+[I>.Deep;>([[TL;J)V^TB;^Lp/Err;" := by
    decide +kernel
  ⟨hwf, hrender, hrender ▸ Signature.parse_inverts_render.2.1 crowded hwf⟩

end Repackage
