import Repackage.Proofs.Grammar.Recovery

/-!
# Reading a text after its names are exchanged

The parsers decide by the next character alone, and no name stands where they decide. So if the
names of a tree that was read are exchanged, what is read from the new text, if anything, is the
tree with the new names (`Parser.Transfers`). A new name must not have characters in it that end
names.
-/

namespace Repackage

namespace Parser

variable {α β : Type} {p q item item' : Parser α} {chars : α → List Char} {u : α → α}
  {cs cs' rest rest' left left' : List Char}

/-- Where `p` reads a tree `x`, and `u x` is written in its place before what starts as the rest
did: the new text starts as the old one, and `q` reads no other tree from it than `u x`. -/
def Transfers (p q : Parser α) (chars : α → List Char) (u : α → α) : Prop :=
  ∀ ⦃cs x rest rest'⦄, p cs = .ok (x, rest) → rest'.head? = rest.head? →
    (chars (u x) ++ rest').head? = cs.head? ∧
      ∀ ⦃y left⦄, q (chars (u x) ++ rest') = .ok (y, left) → y = u x ∧ left = rest'

/-! ## Single steps -/

theorem head?_append_congr (xs : List Char) (h : rest'.head? = rest.head?) :
    (xs ++ rest').head? = (xs ++ rest).head? := by
  cases xs with
  | nil => exact h
  | cons c xs => rfl

theorem accept_congr {c : Char} {taken taken' : Bool} (hhead : cs'.head? = cs.head?)
    (h : accept c cs = .ok (taken, left)) (h' : accept c cs' = .ok (taken', left')) :
    taken' = taken := by
  cases cs with
  | nil =>
    cases List.head?_eq_none_iff.1 hhead
    cases h
    cases h'
    rfl
  | cons d cs =>
    obtain ⟨tail, rfl⟩ := List.head?_eq_some_iff.1 hhead
    rw [accept] at h h'
    by_cases hd : d = c
    · rw [if_pos hd] at h h'
      cases h
      cases h'
      rfl
    · rw [if_neg hd] at h h'
      cases h
      cases h'
      rfl

/-! ## Repetition -/

/-- Repetitions that go on after `lead` and end after `stop`. -/
theorem Transfers.repeatAtMost {more : Parser Bool} (lead stop : List Char)
    (hmore : ∀ ⦃cs b rest⦄, more cs = .ok (b, rest) → cs = (if b then lead else stop) ++ rest)
    (hcongr : ∀ ⦃cs cs' b b' rest rest'⦄, cs'.head? = cs.head? → more cs = .ok (b, rest) →
      more cs' = .ok (b', rest') → b' = b)
    (hspells : item.Spells chars) (hitem : item.Transfers item' chars u)
    (hne : ∀ x, lead ++ chars x ≠ []) {n : Nat} {xs : List α} (hn : cs.length < n)
    (h : repeatAtMost more item n cs = .ok (xs, rest)) (hrest : rest'.head? = rest.head?) :
    ((xs.map u).flatMap (fun x => lead ++ chars x) ++ stop ++ rest').head? = cs.head? ∧
      ∀ ⦃n' ys left⦄, ((xs.map u).flatMap (fun x => lead ++ chars x) ++ stop ++ rest').length < n' →
        repeatAtMost more item' n' ((xs.map u).flatMap (fun x => lead ++ chars x) ++ stop ++ rest') =
          .ok (ys, left) → ys = xs.map u ∧ left = rest' := by
  induction n generalizing cs xs with
  | zero => cases hn
  | succ n ih =>
    -- both texts start alike here, so both readings go on or both stop
    obtain ⟨go, left, hgo, h⟩ := bind_eq_ok h
    have hcs := hmore hgo
    cases go with
    | false =>
      obtain ⟨rfl, rfl⟩ := pure_eq_ok h
      have hhead : (stop ++ rest').head? = cs.head? := by
        rw [hcs]
        exact head?_append_congr _ hrest
      refine ⟨hhead, fun n' ys left' hn' h' => ?_⟩
      cases n' with
      | zero => cases hn'
      | succ n' =>
        obtain ⟨go', left₁, hgo', h'⟩ := bind_eq_ok h'
        cases hcongr hhead hgo hgo'
        obtain ⟨rfl, rfl⟩ := pure_eq_ok h'
        have hstop : stop ++ rest' = stop ++ left₁ := hmore hgo'
        exact ⟨rfl, (List.append_cancel_left hstop).symm⟩
    | true =>
      obtain ⟨x, left₁, hx, h⟩ := bind_eq_ok h
      obtain ⟨xs', left₂, hxs, h⟩ := bind_eq_ok h
      obtain ⟨rfl, rfl⟩ := pure_eq_ok h
      have hpos (x : α) := List.length_pos_iff.2 (hne x)
      have hshorter : left₁.length < n := by
        have := hpos x
        rw [hcs, hspells hx, if_pos rfl] at hn
        simp only [List.length_append] at hn this
        omega
      obtain ⟨htail, hread⟩ := ih hshorter hxs
      obtain ⟨hfirst, hitem'⟩ := hitem hx htail
      simp only [List.map_cons, List.flatMap_cons, List.append_assoc] at hfirst hitem' hread ⊢
      have hhead := head?_append_congr lead hfirst
      rw [if_pos rfl] at hcs
      rw [← hcs] at hhead
      refine ⟨hhead, fun n' ys left' hn' h' => ?_⟩
      cases n' with
      | zero => cases hn'
      | succ n' =>
        obtain ⟨go', left₃, hgo', h'⟩ := bind_eq_ok h'
        cases hcongr hhead hgo hgo'
        obtain ⟨y, left₄, hy, h'⟩ := bind_eq_ok h'
        have hlead := hmore hgo'
        rw [if_pos rfl] at hlead
        cases List.append_cancel_left hlead
        obtain ⟨rfl, rfl⟩ := hitem' hy
        obtain ⟨ys', left₅, hys, h'⟩ := bind_eq_ok h'
        obtain ⟨rfl, rfl⟩ := pure_eq_ok h'
        have hshorter' := hpos (u x)
        simp only [List.length_append] at hn' hshorter' hread
        obtain ⟨rfl, rfl⟩ := hread (by omega) hys
        exact ⟨rfl, rfl⟩

theorem Transfers.manyUntil (hspells : item.Spells chars) (hitem : item.Transfers item' chars u)
    (hne : ∀ x, chars x ≠ []) (stop : Char) :
    (manyUntil stop item).Transfers (manyUntil stop item')
      (fun xs => xs.flatMap chars ++ [stop]) (List.map u) := by
  intro cs xs rest rest' h hrest
  obtain ⟨hhead, hread⟩ := hitem.repeatAtMost [] [stop] (fun cs b rest hmore => by
      obtain ⟨taken, left, htaken, hpure⟩ := bind_eq_ok hmore
      obtain ⟨rfl, rfl⟩ := pure_eq_ok hpure
      rw [accept_eq_ok htaken]
      cases taken <;> rfl)
    (fun cs cs' b b' rest rest' hhead hmore hmore' => by
      obtain ⟨taken, left, htaken, hpure⟩ := bind_eq_ok hmore
      obtain ⟨rfl, rfl⟩ := pure_eq_ok hpure
      obtain ⟨taken', left', htaken', hpure'⟩ := bind_eq_ok hmore'
      obtain ⟨rfl, rfl⟩ := pure_eq_ok hpure'
      rw [accept_congr hhead htaken htaken'])
    hspells hne (Nat.lt_succ_self _) h hrest
  exact ⟨hhead, fun ys left h' => hread (Nat.lt_succ_self _) h'⟩

theorem Transfers.someUntil (hspells : item.Spells chars) (hitem : item.Transfers item' chars u)
    (hne : ∀ x, chars x ≠ []) (stop : Char) :
    (someUntil stop item).Transfers (someUntil stop item')
      (fun xs => xs.flatMap chars ++ [stop]) (List.map u) := by
  intro cs xs rest rest' h hrest
  obtain ⟨x, left, hx, h⟩ := bind_eq_ok h
  obtain ⟨xs', left', hxs, h⟩ := bind_eq_ok h
  obtain ⟨rfl, rfl⟩ := pure_eq_ok h
  obtain ⟨htail, hreads⟩ := hitem.manyUntil hspells hne stop hxs hrest
  obtain ⟨hhead, hread⟩ := hitem hx htail
  simp only [List.map_cons, List.flatMap_cons, List.append_assoc] at hhead hread hreads ⊢
  refine ⟨hhead, fun ys left h' => ?_⟩
  obtain ⟨y, left₁, hy, h'⟩ := bind_eq_ok h'
  obtain ⟨rfl, rfl⟩ := hread hy
  obtain ⟨ys', left₂, hys, h'⟩ := bind_eq_ok h'
  obtain ⟨rfl, rfl⟩ := pure_eq_ok h'
  obtain ⟨rfl, rfl⟩ := hreads hys
  exact ⟨rfl, rfl⟩

theorem Transfers.manyAfter (hspells : item.Spells chars) (hitem : item.Transfers item' chars u)
    (lead : Char) :
    (manyAfter lead item).Transfers (manyAfter lead item')
      (fun xs => xs.flatMap fun x => lead :: chars x) (List.map u) := by
  intro cs xs rest rest' h hrest
  obtain ⟨hhead, hread⟩ := hitem.repeatAtMost [lead] [] (fun cs b rest hmore => by
      rw [accept_eq_ok hmore]
      cases b <;> rfl)
    (fun _ _ _ _ _ _ hhead hmore hmore' => accept_congr hhead hmore hmore') hspells
    (fun _ => List.cons_ne_nil _ _) (Nat.lt_succ_self _) h hrest
  rw [List.append_nil] at hhead hread
  exact ⟨hhead, fun ys left h' => hread (Nat.lt_succ_self _) h'⟩

theorem Transfers.manyToEnd (hspells : item.Spells chars) (hitem : item.Transfers item' chars u)
    (hne : ∀ x, chars x ≠ []) :
    (manyToEnd item).Transfers (manyToEnd item') (fun xs => xs.flatMap chars) (List.map u) := by
  intro cs xs rest rest' h hrest
  obtain ⟨hhead, hread⟩ := hitem.repeatAtMost [] [] (fun cs b rest hmore => by
      obtain ⟨c, left, hc, hpure⟩ := bind_eq_ok hmore
      obtain ⟨-, rfl⟩ := peek_eq_ok hc
      obtain ⟨-, rfl⟩ := pure_eq_ok hpure
      cases b <;> rfl)
    (fun cs cs' b b' rest rest' hhead hmore hmore' => by
      obtain ⟨c, left, hc, hpure⟩ := bind_eq_ok hmore
      obtain ⟨rfl, rfl⟩ := pure_eq_ok hpure
      obtain ⟨c', left', hc', hpure'⟩ := bind_eq_ok hmore'
      obtain ⟨rfl, rfl⟩ := pure_eq_ok hpure'
      rw [(peek_eq_ok hc).1, (peek_eq_ok hc').1, hhead])
    hspells hne (Nat.lt_succ_self _) h hrest
  rw [List.append_nil] at hhead hread
  exact ⟨hhead, fun ys left h' => hread (Nat.lt_succ_self _) h'⟩

/-- Whole texts. -/
theorem Transfers.parseAll (hp : p.Transfers q chars u) {text : String} {x y : α}
    (h : parseAll p text = .ok x) (h' : parseAll q (String.ofList (chars (u x))) = .ok y) :
    y = u x := by
  have h' := parseAll_eq_ok h'
  rw [String.toList_ofList, ← List.append_nil (chars (u x))] at h'
  exact ((hp (parseAll_eq_ok h) rfl).2 h').1

end Parser

open Repackage.Parser

/-! ## Names in signatures -/

theorem identifier_ends {cs rest : List Char} {name : String}
    (h : identifier cs = .ok (name, rest)) : EndsAt isSignatureDelimiter rest := by
  obtain ⟨taken, left, htaken, h⟩ := bind_eq_ok h
  obtain ⟨rfl, rfl⟩ := takeWhile_eq_ok htaken
  split at h
  · obtain ⟨c, left, hc, h⟩ := bind_eq_ok h
    split at h <;> cases h
  · obtain ⟨rfl, rfl⟩ := pure_eq_ok h
    intro c hc
    have := List.head?_dropWhile_not (!isSignatureDelimiter ·) cs
    rw [hc] at this
    simpa using this

theorem identifier_transfers : identifier.Transfers identifier String.toList id := by
  intro cs name rest rest' h hrest
  obtain ⟨hcs, hname⟩ := identifier_reads h
  refine ⟨by rw [hcs]; exact head?_append_congr _ hrest, fun y left h' => ?_⟩
  cases (identifier_append hname ((identifier_ends h).congr hrest)).symm.trans h'
  exact ⟨rfl, rfl⟩

theorem manyAfter_ends {α : Type} {item : Parser α} {chars : α → List Char} {ends : Char → Bool}
    {lead : Char} {cs rest : List Char} {xs : List α} (hspells : item.Spells chars)
    (hitem : ∀ ⦃cs x rest⦄, item cs = .ok (x, rest) → EndsAt ends rest) (hcs : EndsAt ends cs)
    (h : manyAfter lead item cs = .ok (xs, rest)) : EndsAt (fun c => ends c && c != lead) rest := by
  have hall {n : Nat} {cs : List Char} {xs : List α} (hn : cs.length < n) (hcs : EndsAt ends cs)
      (h : repeatAtMost (accept lead) item n cs = .ok (xs, rest)) :
      EndsAt (fun c => ends c && c != lead) rest := by
    induction n generalizing cs xs with
    | zero => cases hn
    | succ n ih =>
      obtain ⟨taken, left, htaken, h⟩ := bind_eq_ok h
      have hleft := accept_eq_ok htaken
      cases taken with
      | false =>
        obtain ⟨-, rfl⟩ := pure_eq_ok h
        cases hleft
        intro c hc
        refine Bool.and_eq_true_iff.2 ⟨hcs c hc, bne_iff_ne.2 ?_⟩
        rintro rfl
        obtain ⟨tail, rfl⟩ := List.head?_eq_some_iff.1 hc
        cases (accept_cons c tail).symm.trans htaken
      | true =>
        obtain ⟨x, left₁, hx, h⟩ := bind_eq_ok h
        obtain ⟨xs', left₂, hxs, h⟩ := bind_eq_ok h
        obtain ⟨-, rfl⟩ := pure_eq_ok h
        refine ih ?_ (hitem hx) hxs
        rw [hleft, if_pos rfl, hspells hx] at hn
        simp only [List.length_cons, List.length_append] at hn
        omega
  exact hall (Nat.lt_succ_self _) hcs h

theorem qualifiedName_ends {cs rest : List Char} {name : String}
    (h : qualifiedName cs = .ok (name, rest)) : EndsAt endsClassName rest := by
  obtain ⟨first, left, hfirst, h⟩ := bind_eq_ok h
  obtain ⟨more, left', hmore, h⟩ := bind_eq_ok h
  obtain ⟨-, rfl⟩ := pure_eq_ok h
  exact manyAfter_ends (fun _ _ _ h => (identifier_reads h).1) (fun _ _ _ h => identifier_ends h)
    (identifier_ends hfirst) hmore

/-- A name of a class is all up to the first character that ends it. -/
theorem eq_of_qualifiedName {name y : String} {rest left : List Char}
    (hname : ∀ c ∈ name.toList, endsClassName c = false) (hrest : EndsAt endsClassName rest)
    (h : qualifiedName (name.toList ++ rest) = .ok (y, left)) : y = name ∧ left = rest := by
  have hcut {xs ys : List Char} (hxs : ∀ c ∈ xs, endsClassName c = false)
      (hys : EndsAt endsClassName ys) := takeWhile_append (!endsClassName ·)
    xs ys (fun c hc => by rw [hxs c hc]; rfl) (fun c hc => by rw [hys c hc]; rfl)
  obtain ⟨hcs, hy⟩ := qualifiedName_reads h
  obtain ⟨htake, hdrop⟩ := hcut hname hrest
  obtain ⟨htake', hdrop'⟩ := hcut hy.endsClassName (qualifiedName_ends h)
  rw [hcs] at htake hdrop
  exact ⟨String.toList_inj.1 (htake'.symm.trans htake), hdrop'.symm.trans hdrop⟩

/-! ## Types in signatures -/

theorem bracketed_transfers {α : Type} {item item' : Parser α} {chars : α → List Char}
    {u : α → α} (hspells : item.Spells chars) (hitem : item.Transfers item' chars u)
    (hne : ∀ x, chars x ≠ []) :
    (do if ← accept '<' then someUntil '>' item else pure [] : Parser (List α)).Transfers
      (do if ← accept '<' then someUntil '>' item' else pure [])
      (fun xs => bracketed xs.isEmpty (xs.flatMap chars)) (List.map u) := by
  intro cs xs rest rest' h hrest
  obtain ⟨taken, left, htaken, h⟩ := bind_eq_ok h
  have hcs := accept_eq_ok htaken
  cases taken with
  | false =>
    obtain ⟨rfl, rfl⟩ := pure_eq_ok h
    cases hcs
    refine ⟨hrest, fun ys left' h' => ?_⟩
    obtain ⟨taken', left₁, htaken', h'⟩ := bind_eq_ok h'
    cases accept_congr hrest htaken htaken'
    obtain ⟨rfl, rfl⟩ := pure_eq_ok h'
    exact ⟨rfl, (accept_eq_ok htaken').symm⟩
  | true =>
    obtain ⟨-, hread⟩ := hitem.someUntil hspells hne '>' h hrest
    have hnil : (xs.map u).isEmpty = false := by
      obtain ⟨x, left₁, hx, h⟩ := bind_eq_ok h
      obtain ⟨xs', left₂, hxs, h⟩ := bind_eq_ok h
      obtain ⟨rfl, rfl⟩ := pure_eq_ok h
      rfl
    rw [hcs]
    dsimp only [bracketed]
    rw [hnil]
    refine ⟨rfl, fun ys left' h' => ?_⟩
    exact hread h'

theorem TypeArgument.mapListNames_eq (f : String → String) (ts : List TypeArgument) :
    TypeArgument.mapListNames f ts = ts.map (TypeArgument.mapNames f) := by
  induction ts with
  | nil => rfl
  | cons t ts ih => rw [TypeArgument.mapListNames, List.map_cons, ih]

theorem SimpleClassType.mapSuffixNames_eq (f : String → String) (ts : List SimpleClassType) :
    SimpleClassType.mapSuffixNames f ts = ts.map (SimpleClassType.mapNames f) := by
  induction ts with
  | nil => rfl
  | cons t ts ih => rw [SimpleClassType.mapSuffixNames, List.map_cons, ih]

section Signatures

variable {f : String → String}

namespace ReferenceType

section Nested

variable {inner inner' : Parser ReferenceType}

variable (hreads : inner.Reads ReferenceType.chars fun t => t.WellFormed)
  (hinner : inner.Transfers inner' ReferenceType.chars (ReferenceType.mapNames f))

include hinner in
theorem argumentParser_transfers : (argumentParser inner).Transfers (argumentParser inner')
    TypeArgument.chars (TypeArgument.mapNames f) := by
  intro cs t rest rest' hp hrest
  obtain ⟨c, left, hc, h⟩ := bind_eq_ok hp
  obtain ⟨hhead, rfl⟩ := peek_eq_ok hc
  split at h
  · obtain ⟨_, left₁, hnext, h⟩ := bind_eq_ok h
    obtain ⟨rfl, rfl⟩ := pure_eq_ok h
    refine ⟨hhead, fun y left h' => ?_⟩
    cases h'
    exact ⟨rfl, rfl⟩
  · obtain ⟨_, left₁, hnext, h⟩ := bind_eq_ok h
    obtain ⟨t, left₂, ht, h⟩ := bind_eq_ok h
    obtain ⟨rfl, rfl⟩ := pure_eq_ok h
    refine ⟨hhead, fun y left h' => ?_⟩
    obtain ⟨y, left₃, hy, h'⟩ :=
      bind_eq_ok (f := fun t => pure (TypeArgument.concrete (some .upper) t)) h'
    obtain ⟨rfl, rfl⟩ := pure_eq_ok h'
    obtain ⟨rfl, rfl⟩ := (hinner ht hrest).2 hy
    exact ⟨rfl, rfl⟩
  · obtain ⟨_, left₁, hnext, h⟩ := bind_eq_ok h
    obtain ⟨t, left₂, ht, h⟩ := bind_eq_ok h
    obtain ⟨rfl, rfl⟩ := pure_eq_ok h
    refine ⟨hhead, fun y left h' => ?_⟩
    obtain ⟨y, left₃, hy, h'⟩ :=
      bind_eq_ok (f := fun t => pure (TypeArgument.concrete (some .lower) t)) h'
    obtain ⟨rfl, rfl⟩ := pure_eq_ok h'
    obtain ⟨rfl, rfl⟩ := (hinner ht hrest).2 hy
    exact ⟨rfl, rfl⟩
  · obtain ⟨t, left₂, ht, h⟩ := bind_eq_ok h
    obtain ⟨rfl, rfl⟩ := pure_eq_ok h
    obtain ⟨hhead', hread⟩ := hinner ht hrest
    refine ⟨hhead', fun y left h' => ?_⟩
    rw [TypeArgument.mapNames, TypeArgument.chars, Option.elim_none, List.nil_append,
      argumentParser_reference] at h'
    obtain ⟨y, left₃, hy, h'⟩ := bind_eq_ok h'
    obtain ⟨rfl, rfl⟩ := pure_eq_ok h'
    obtain ⟨rfl, rfl⟩ := hread hy
    exact ⟨rfl, rfl⟩

include hreads hinner

theorem argumentsParser_transfers : (argumentsParser inner).Transfers (argumentsParser inner')
    (fun ts => bracketed ts.isEmpty (TypeArgument.listChars ts)) (TypeArgument.mapListNames f) := by
  intro cs ts rest rest' h hrest
  simp only [TypeArgument.listChars_eq, TypeArgument.mapListNames_eq]
  exact bracketed_transfers (fun _ _ _ h => (argumentParser_reads hreads h).1)
    (argumentParser_transfers hinner) TypeArgument.chars_ne_nil h hrest

theorem simpleClassParser_transfers : (simpleClassParser inner).Transfers (simpleClassParser inner')
    SimpleClassType.chars (SimpleClassType.mapNames f) := by
  intro cs t rest rest' h hrest
  obtain ⟨name, left₁, hname, h⟩ := bind_eq_ok h
  obtain ⟨arguments, left₂, harguments, h⟩ := bind_eq_ok h
  obtain ⟨rfl, rfl⟩ := pure_eq_ok h
  obtain ⟨hhead₁, hread₁⟩ := argumentsParser_transfers hreads hinner harguments hrest
  obtain ⟨hhead, hread⟩ := identifier_transfers hname hhead₁
  simp only [SimpleClassType.mapNames, SimpleClassType.chars, List.append_assoc]
  refine ⟨hhead, fun y left h' => ?_⟩
  obtain ⟨name', left₃, hname', h'⟩ := bind_eq_ok h'
  obtain ⟨rfl, rfl⟩ := hread hname'
  obtain ⟨arguments', left₄, harguments', h'⟩ := bind_eq_ok h'
  obtain ⟨rfl, rfl⟩ := pure_eq_ok h'
  obtain ⟨rfl, rfl⟩ := hread₁ harguments'
  exact ⟨rfl, rfl⟩

variable (hf : ∀ n, (∀ c ∈ n.toList, endsClassName c = false) →
  ∀ c ∈ (f n).toList, endsClassName c = false)

include hf

theorem classParser_transfers : (classParser inner).Transfers (classParser inner')
    ClassType.chars (ClassType.mapNames f) := by
  intro cs t rest rest' h hrest
  obtain ⟨_, left₁, hopen, h⟩ := bind_eq_ok h
  obtain ⟨name, left₂, hname, h⟩ := bind_eq_ok h
  obtain ⟨arguments, left₃, harguments, h⟩ := bind_eq_ok h
  obtain ⟨suffixes, left₄, hsuffixes, h⟩ := bind_eq_ok h
  obtain ⟨_, left₅, hclose, h⟩ := bind_eq_ok h
  obtain ⟨rfl, rfl⟩ := pure_eq_ok h
  have hspells : (simpleClassParser inner).Spells SimpleClassType.chars :=
    fun _ _ _ h => (simpleClassParser_reads hreads h).1
  -- from the end to the name: each part starts as it did
  have hsemicolon : (';' :: rest').head? = left₄.head? := by rw [expect_eq_ok hclose]; rfl
  obtain ⟨hhead₂, hread₂⟩ :=
    (simpleClassParser_transfers hreads hinner).manyAfter hspells '.' hsuffixes hsemicolon
  obtain ⟨hhead₁, hread₁⟩ := argumentsParser_transfers hreads hinner harguments hhead₂
  have hends := (qualifiedName_ends hname).congr hhead₁
  have hname' := hf name (qualifiedName_reads hname).2.endsClassName
  rw [expect_eq_ok hopen]
  simp only [ClassType.mapNames, ClassType.chars, SimpleClassType.suffixChars_eq,
    SimpleClassType.mapSuffixNames_eq, List.append_assoc, List.cons_append, List.nil_append]
    at hhead₁ hread₁ hends hread₂ ⊢
  refine ⟨rfl, fun y left h' => ?_⟩
  obtain ⟨_, left₆, hopen', h'⟩ := bind_eq_ok h'
  cases expect_eq_ok hopen'
  obtain ⟨name', left₇, hy, h'⟩ := bind_eq_ok h'
  obtain ⟨rfl, rfl⟩ := eq_of_qualifiedName hname' hends hy
  obtain ⟨arguments', left₈, harguments', h'⟩ := bind_eq_ok h'
  obtain ⟨rfl, rfl⟩ := hread₁ harguments'
  obtain ⟨suffixes', left₉, hsuffixes', h'⟩ := bind_eq_ok h'
  obtain ⟨rfl, rfl⟩ := hread₂ hsuffixes'
  obtain ⟨_, left₁₀, hclose', h'⟩ := bind_eq_ok h'
  cases expect_eq_ok hclose'
  obtain ⟨rfl, rfl⟩ := pure_eq_ok h'
  exact ⟨rfl, rfl⟩

omit hreads hf in
theorem javaParser_transfers : (javaParser inner).Transfers (javaParser inner')
    JavaType.chars (JavaType.mapNames f) := by
  have hreference {cs : List Char} {t : JavaType} {rest rest' : List Char}
      (h : (do return .reference (← inner) : Parser JavaType) cs = .ok (t, rest))
      (hrest : rest'.head? = rest.head?) : ((t.mapNames f).chars ++ rest').head? = cs.head? ∧
        ∀ ⦃y left⦄, javaParser inner' ((t.mapNames f).chars ++ rest') = .ok (y, left) →
          y = t.mapNames f ∧ left = rest' := by
    obtain ⟨t, left, ht, h⟩ := bind_eq_ok h
    obtain ⟨rfl, rfl⟩ := pure_eq_ok h
    obtain ⟨hhead, hread⟩ := hinner ht hrest
    refine ⟨hhead, fun y left h' => ?_⟩
    rw [JavaType.mapNames, JavaType.chars, javaParser_reference] at h'
    obtain ⟨y, left₁, hy, h'⟩ := bind_eq_ok h'
    obtain ⟨rfl, rfl⟩ := pure_eq_ok h'
    obtain ⟨rfl, rfl⟩ := hread hy
    exact ⟨rfl, rfl⟩
  intro cs t rest rest' hp hrest
  obtain ⟨c, left, hc, h⟩ := bind_eq_ok hp
  obtain ⟨-, rfl⟩ := peek_eq_ok hc
  split at h
  · exact hreference h hrest
  · exact hreference h hrest
  · exact hreference h hrest
  · obtain ⟨t, left₁, ht, h⟩ := bind_eq_ok h
    obtain ⟨rfl, rfl⟩ := pure_eq_ok h
    rw [BaseType.parser_spells ht]
    refine ⟨rfl, fun y left h' => ?_⟩
    cases t <;> cases h' <;> exact ⟨rfl, rfl⟩

end Nested

variable (hf : ∀ n, (∀ c ∈ n.toList, endsClassName c = false) →
  ∀ c ∈ (f n).toList, endsClassName c = false)

include hf

theorem parserAt_transfers (depth depth' : Nat) : (parserAt depth).Transfers (parserAt depth')
    ReferenceType.chars (ReferenceType.mapNames f) := by
  induction depth generalizing depth' with
  | zero => exact fun _ _ _ _ h => nomatch h
  | succ depth ih =>
    intro cs t rest rest' hp hrest
    obtain ⟨c, left, hc, h⟩ := bind_eq_ok hp
    obtain ⟨hhead, rfl⟩ := peek_eq_ok hc
    split at h
    · obtain ⟨t, left₁, ht, h⟩ := bind_eq_ok h
      obtain ⟨rfl, rfl⟩ := pure_eq_ok h
      refine ⟨(classParser_transfers (parserAt_reads depth) (ih depth') hf ht hrest).1,
        fun y left h' => ?_⟩
      cases depth' with
      | zero => cases h'
      | succ depth' =>
        obtain ⟨-, hread⟩ := classParser_transfers (parserAt_reads depth) (ih depth') hf ht hrest
        obtain ⟨name, arguments, suffixes⟩ := t
        obtain ⟨y, left₂, hy, h'⟩ :=
          bind_eq_ok (f := fun t => pure (ReferenceType.classType t)) h'
        obtain ⟨rfl, rfl⟩ := pure_eq_ok h'
        obtain ⟨rfl, rfl⟩ := hread hy
        exact ⟨rfl, rfl⟩
    · obtain ⟨_, left₁, hnext, h⟩ := bind_eq_ok h
      obtain ⟨name, left₂, hname, h⟩ := bind_eq_ok h
      obtain ⟨_, left₃, hclose, h⟩ := bind_eq_ok h
      obtain ⟨rfl, rfl⟩ := pure_eq_ok h
      refine ⟨hhead, fun y left h' => ?_⟩
      cases depth' with
      | zero => cases h'
      | succ depth' =>
        have hsemicolon : (';' :: rest').head? = left₂.head? := by rw [expect_eq_ok hclose]; rfl
        obtain ⟨-, hread⟩ := identifier_transfers hname hsemicolon
        rw [ReferenceType.mapNames, ReferenceType.chars, List.append_assoc,
          List.singleton_append] at h'
        obtain ⟨name', left₄, hname', h'⟩ := bind_eq_ok (p := identifier)
          (f := fun name => do expect ';'; return ReferenceType.typeVariable name) h'
        obtain ⟨rfl, rfl⟩ := hread hname'
        obtain ⟨_, left₅, hclose', h'⟩ := bind_eq_ok h'
        cases expect_eq_ok hclose'
        obtain ⟨rfl, rfl⟩ := pure_eq_ok h'
        exact ⟨rfl, rfl⟩
    · obtain ⟨_, left₁, hnext, h⟩ := bind_eq_ok h
      obtain ⟨t, left₂, ht, h⟩ := bind_eq_ok h
      obtain ⟨rfl, rfl⟩ := pure_eq_ok h
      refine ⟨hhead, fun y left h' => ?_⟩
      cases depth' with
      | zero => cases h'
      | succ depth' =>
        obtain ⟨-, hread⟩ := javaParser_transfers (ih depth') ht hrest
        obtain ⟨y, left₃, hy, h'⟩ := bind_eq_ok (p := javaParser (parserAt depth'))
          (f := fun t => pure (ReferenceType.array t)) h'
        obtain ⟨rfl, rfl⟩ := pure_eq_ok h'
        obtain ⟨rfl, rfl⟩ := hread hy
        exact ⟨rfl, rfl⟩
    · cases h
    · cases h

theorem parser_transfers : ReferenceType.parser.Transfers ReferenceType.parser
    ReferenceType.chars (ReferenceType.mapNames f) :=
  fun _ _ _ _ h hrest =>
    ⟨(parserAt_transfers hf _ 0 h hrest).1, fun _ _ h' => (parserAt_transfers hf _ _ h hrest).2 h'⟩

end ReferenceType

/-! ## Declarations -/

variable (hf : ∀ n, (∀ c ∈ n.toList, endsClassName c = false) →
  ∀ c ∈ (f n).toList, endsClassName c = false)

include hf

theorem JavaType.parser_transfers :
    JavaType.parser.Transfers JavaType.parser JavaType.chars (JavaType.mapNames f) :=
  ReferenceType.javaParser_transfers (ReferenceType.parser_transfers hf)

theorem ClassType.parser_transfers :
    ClassType.parser.Transfers ClassType.parser ClassType.chars (ClassType.mapNames f) :=
  ReferenceType.classParser_transfers ReferenceType.parser_reads (ReferenceType.parser_transfers hf)
    hf

theorem TypeParameter.parser_transfers :
    TypeParameter.parser.Transfers TypeParameter.parser TypeParameter.chars
      (TypeParameter.mapNames f) := by
  have hspells : ReferenceType.parser.Spells ReferenceType.chars :=
    fun _ _ _ h => (ReferenceType.parser_reads h).1
  have htransfers := ReferenceType.parser_transfers hf
  rintro cs ⟨name, classBound, bounds⟩ rest rest' hp hrest
  obtain ⟨left, left₁, hname, hbounds, hclass⟩ := parser_eq_ok hp
  obtain ⟨hhead₁, hread₁⟩ := htransfers.manyAfter hspells ':' hbounds hrest
  have hsame {tail : List Char} : (':' :: tail).head? = (':' :: left).head? := rfl
  obtain ⟨hhead, -⟩ := identifier_transfers hname hsame
  simp only [TypeParameter.mapNames, TypeParameter.chars, List.append_assoc, List.cons_append]
  refine ⟨hhead, fun y left' h' => ?_⟩
  obtain ⟨left₂, left₃, hname', hbounds', hclass'⟩ := parser_eq_ok h'
  obtain ⟨-, hread⟩ := identifier_transfers hname hsame
  obtain ⟨hy, hleft⟩ := hread hname'
  cases hleft
  obtain ⟨name', classBound', bounds'⟩ := y
  cases hy
  rcases hclass with ⟨hstarts, t, ht, hparse⟩ | ⟨hstarts, hnone, rfl⟩
  · cases ht
    obtain ⟨hhead₂, hread₂⟩ := htransfers hparse hhead₁
    rcases hclass' with ⟨-, t', ht', hparse'⟩ | ⟨hstarts', -⟩
    · obtain ⟨rfl, rfl⟩ := hread₂ hparse'
      cases ht'
      obtain ⟨hsame', rfl⟩ := hread₁ hbounds'
      cases hsame'
      exact ⟨rfl, rfl⟩
    · obtain ⟨c, hc, hcases⟩ := hstarts
      exact absurd ⟨c, hhead₂.trans hc, hcases⟩ hstarts'
  · cases hnone
    rcases hclass' with ⟨⟨c, hc, hcases⟩, -⟩ | ⟨-, hnone', rfl⟩
    · exact absurd ⟨c, hhead₁.symm.trans hc, hcases⟩ hstarts
    · cases hnone'
      obtain ⟨hsame', rfl⟩ := hread₁ hbounds'
      cases hsame'
      exact ⟨rfl, rfl⟩

theorem TypeParameter.listParser_transfers :
    TypeParameter.listParser.Transfers TypeParameter.listParser TypeParameter.listChars
      (List.map (TypeParameter.mapNames f)) :=
  bracketed_transfers (fun _ _ _ h => (TypeParameter.parser_reads h).1)
    (TypeParameter.parser_transfers hf) TypeParameter.chars_ne_nil

theorem ClassSignature.parser_transfers :
    ClassSignature.parser.Transfers ClassSignature.parser ClassSignature.chars
      (ClassSignature.mapNames f) := by
  intro cs s rest rest' h hrest
  obtain ⟨typeParameters, left₁, htypes, h⟩ := bind_eq_ok h
  obtain ⟨superclass, left₂, hsuper, h⟩ := bind_eq_ok h
  obtain ⟨interfaces, left₃, hinterfaces, h⟩ := bind_eq_ok h
  obtain ⟨rfl, rfl⟩ := pure_eq_ok h
  obtain ⟨hhead₃, hread₃⟩ := (ClassType.parser_transfers hf).manyToEnd
    (fun _ _ _ h => (ClassType.parser_reads h).1) ClassType.chars_ne_nil hinterfaces hrest
  obtain ⟨hhead₂, hread₂⟩ := ClassType.parser_transfers hf hsuper hhead₃
  obtain ⟨hhead₁, hread₁⟩ := TypeParameter.listParser_transfers hf htypes hhead₂
  simp only [ClassSignature.mapNames, ClassSignature.chars, List.append_assoc]
  refine ⟨hhead₁, fun y left h' => ?_⟩
  obtain ⟨typeParameters', left₄, htypes', h₁⟩ := bind_eq_ok h'
  obtain ⟨rfl, rfl⟩ := hread₁ htypes'
  obtain ⟨superclass', left₅, hsuper', h₂⟩ := bind_eq_ok h₁
  obtain ⟨rfl, rfl⟩ := hread₂ hsuper'
  obtain ⟨interfaces', left₆, hinterfaces', h₃⟩ := bind_eq_ok h₂
  obtain ⟨rfl, rfl⟩ := hread₃ hinterfaces'
  obtain ⟨rfl, rfl⟩ := pure_eq_ok h₃
  exact ⟨rfl, rfl⟩

theorem MethodSignature.thrownParser_transfers :
    MethodSignature.thrownParser.Transfers MethodSignature.thrownParser ReferenceType.chars
      (ReferenceType.mapNames f) := by
  intro cs t rest rest' h hrest
  obtain ⟨hhead, hread⟩ := ReferenceType.parser_transfers hf (thrownParser_eq_ok h).1 hrest
  exact ⟨hhead, fun _ _ h' => hread (thrownParser_eq_ok h').1⟩

theorem MethodSignature.parser_transfers :
    MethodSignature.parser.Transfers MethodSignature.parser MethodSignature.chars
      (MethodSignature.mapNames f) := by
  rintro cs ⟨typeParameters, parameters, result, throws⟩ rest rest' hp hrest
  obtain ⟨left₁, left₂, left₃, htypes, hparameters, hthrows, hresult⟩ := parser_eq_ok hp
  obtain ⟨hhead₃, hread₃⟩ := (thrownParser_transfers hf).manyAfter
    (fun _ _ _ h => (thrownParser_reads h).1) '^' hthrows hrest
  -- the result, whether or not there is one, starts as it did
  have hhead₂ : ((result.map (JavaType.mapNames f)).elim ['V'] JavaType.chars ++
      ((throws.map (ReferenceType.mapNames f)).flatMap (fun t => '^' :: t.chars) ++ rest')).head? =
        left₂.head? := by
    rcases hresult with ⟨rfl, hnone⟩ | ⟨-, t, ht, hparse⟩
    · cases hnone
      rfl
    · cases ht
      exact (JavaType.parser_transfers hf hparse hhead₃).1
  obtain ⟨-, hread₁⟩ := (JavaType.parser_transfers hf).manyUntil
    (fun _ _ _ h => (JavaType.parser_reads h).1) JavaType.chars_ne_nil ')' hparameters hhead₂
  have hopen {tail : List Char} : ('(' :: tail).head? = ('(' :: left₁).head? := rfl
  simp only [MethodSignature.mapNames, MethodSignature.chars, List.append_assoc, List.cons_append,
    List.nil_append] at hread₁ ⊢
  obtain ⟨hhead, hread⟩ := TypeParameter.listParser_transfers hf htypes hopen
  refine ⟨hhead, fun y left h' => ?_⟩
  obtain ⟨typeParameters', parameters', result', throws'⟩ := y
  obtain ⟨left₄, left₅, left₆, htypes', hparameters', hthrows', hresult'⟩ := parser_eq_ok h'
  obtain ⟨hsame, hleft⟩ := hread htypes'
  cases hsame
  cases hleft
  obtain ⟨hsame, rfl⟩ := hread₁ hparameters'
  cases hsame
  rcases hresult with ⟨rfl, hnone⟩ | ⟨hvoid, t, ht, hparse⟩
  · cases hnone
    rcases hresult' with ⟨hleft, hnone'⟩ | ⟨hvoid', -⟩
    · cases hnone'
      cases hleft
      obtain ⟨hsame, rfl⟩ := hread₃ hthrows'
      cases hsame
      exact ⟨rfl, rfl⟩
    · exact absurd rfl hvoid'
  · cases ht
    rcases hresult' with ⟨hleft, -⟩ | ⟨-, t', ht', hparse'⟩
    · exact absurd (hhead₂.symm.trans (congrArg List.head? hleft)) hvoid
    · cases ht'
      obtain ⟨rfl, rfl⟩ := (JavaType.parser_transfers hf hparse hhead₃).2 hparse'
      obtain ⟨hsame, rfl⟩ := hread₃ hthrows'
      cases hsame
      exact ⟨rfl, rfl⟩

theorem Signature.parser_transfers (kind : SignatureKind) :
    (Signature.parser kind).Transfers (Signature.parser kind) Signature.chars
      (Signature.mapNames f) := by
  intro cs s rest rest' h hrest
  cases kind with
  | ofClass =>
    obtain ⟨s, hs, rfl⟩ := map_eq_ok h
    obtain ⟨hhead, hread⟩ := ClassSignature.parser_transfers hf hs hrest
    refine ⟨hhead, fun y left h' => ?_⟩
    obtain ⟨y, hy, rfl⟩ := map_eq_ok h'
    obtain ⟨rfl, rfl⟩ := hread hy
    exact ⟨rfl, rfl⟩
  | ofField =>
    obtain ⟨t, ht, rfl⟩ := map_eq_ok h
    obtain ⟨hhead, hread⟩ := ReferenceType.parser_transfers hf ht hrest
    refine ⟨hhead, fun y left h' => ?_⟩
    obtain ⟨y, hy, rfl⟩ := map_eq_ok h'
    obtain ⟨rfl, rfl⟩ := hread hy
    exact ⟨rfl, rfl⟩
  | ofMethod =>
    obtain ⟨s, hs, rfl⟩ := map_eq_ok h
    obtain ⟨hhead, hread⟩ := MethodSignature.parser_transfers hf hs hrest
    refine ⟨hhead, fun y left h' => ?_⟩
    obtain ⟨y, hy, rfl⟩ := map_eq_ok h'
    obtain ⟨rfl, rfl⟩ := hread hy
    exact ⟨rfl, rfl⟩

/-- After its names are exchanged, a signature is read as the tree with the new names or not at
all. -/
theorem Signature.eq_of_parse_mapNames {kind : SignatureKind} {text : String} {s y : Signature}
    (h : Signature.parse kind text = .ok s)
    (h' : Signature.parse kind (s.mapNames f).render = .ok y) : y = s.mapNames f :=
  (Signature.parser_transfers hf kind).parseAll h h'

end Signatures

end Repackage
