import Repackage.Grammar.Parser

/-!
# Texts are written as they were read

`p.Spells chars` says that the characters which the parser `p` takes for a tree are those
which `chars` writes for it, and `p.Reads chars good` says besides that the tree is `good`.
A parser in `do` notation is taken apart by `bind_eq_ok`; repetitions keep the properties of
their items (`Reads.repeatAtMost` and what follows from it).

The other way, a parser is run on what is known to be written: `bind_of_eq_ok` goes on after what
was read, and a repetition reads its items if each can be read where it stands
(`repeatAtMost_append`).
-/

namespace Repackage

namespace Parser

variable {α β : Type} {cs rest : List Char}

/-- The characters taken for a value are the characters written for it. -/
def Spells (p : Parser α) (chars : α → List Char) : Prop :=
  ∀ ⦃cs x rest⦄, p cs = .ok (x, rest) → cs = chars x ++ rest

/-- A parser that spells what it reads, and reads nothing but what is `good`. -/
def Reads (p : Parser α) (chars : α → List Char) (good : α → Prop) : Prop :=
  ∀ ⦃cs x rest⦄, p cs = .ok (x, rest) → cs = chars x ++ rest ∧ good x

theorem Spells.reads {p : Parser α} {chars : α → List Char} (h : p.Spells chars) :
    p.Reads chars fun _ => True :=
  fun _ _ _ hp => ⟨h hp, trivial⟩

/-! ## Single steps -/

theorem bind_eq_ok {p : Parser α} {f : α → Parser β} {y : β}
    (h : (p >>= f) cs = .ok (y, rest)) :
    ∃ x left, p cs = .ok (x, left) ∧ f x left = .ok (y, rest) := by
  change (p cs >>= fun q => f q.1 q.2) = .ok (y, rest) at h
  cases hp : p cs with
  | error e => rw [hp] at h; cases h
  | ok q => rw [hp] at h; exact ⟨q.1, q.2, rfl, h⟩

theorem pure_eq_ok {x y : α} (h : (pure x : Parser α) cs = .ok (y, rest)) : x = y ∧ cs = rest := by
  cases h
  exact ⟨rfl, rfl⟩

theorem map_eq_ok {p : Parser α} {f : α → β} {y : β} (h : (f <$> p) cs = .ok (y, rest)) :
    ∃ x, p cs = .ok (x, rest) ∧ f x = y := by
  obtain ⟨x, left, hx, h⟩ := bind_eq_ok (f := fun x => pure (f x)) h
  obtain ⟨rfl, rfl⟩ := pure_eq_ok h
  exact ⟨x, hx, rfl⟩

theorem peek_eq_ok {c : Option Char} (h : peek cs = .ok (c, rest)) : c = cs.head? ∧ rest = cs := by
  cases h
  exact ⟨rfl, rfl⟩

theorem next_eq_ok {c : Char} (h : next cs = .ok (some c, rest)) : cs = c :: rest := by
  cases cs with
  | nil => cases h
  | cons d cs => cases h; rfl

/-- The next character is the one that was looked at. -/
theorem next_of_head? {c : Char} {x : Option Char} (hhead : some c = cs.head?)
    (h : next cs = .ok (x, rest)) : cs = c :: rest := by
  cases cs with
  | nil => cases hhead
  | cons d cs =>
    cases hhead
    cases h
    rfl

theorem expect_eq_ok {c : Char} {u : Unit} (h : expect c cs = .ok (u, rest)) : cs = c :: rest := by
  cases cs with
  | nil => cases h
  | cons d cs =>
    by_cases hd : d = c
    · rw [expect, if_pos hd] at h
      cases h
      rw [hd]
    · rw [expect, if_neg hd] at h
      cases h

theorem accept_eq_ok {c : Char} {taken : Bool} (h : accept c cs = .ok (taken, rest)) :
    cs = if taken then c :: rest else rest := by
  cases cs with
  | nil => cases h; rfl
  | cons d cs =>
    by_cases hd : d = c
    · rw [accept, if_pos hd] at h
      cases h
      rw [hd]
      rfl
    · rw [accept, if_neg hd] at h
      cases h
      rfl

theorem takeWhile_eq_ok {p : Char → Bool} {taken : List Char}
    (h : takeWhile p cs = .ok (taken, rest)) : taken = cs.takeWhile p ∧ rest = cs.dropWhile p := by
  cases h
  exact ⟨rfl, rfl⟩

/-! ## Steps on a known text -/

/-- Characters are taken up to the first that stops. -/
theorem takeWhile_append (stays : Char → Bool) (taken rest : List Char)
    (htaken : ∀ c ∈ taken, stays c = true)
    (hrest : ∀ c, rest.head? = some c → stays c = false) :
    (taken ++ rest).takeWhile stays = taken ∧ (taken ++ rest).dropWhile stays = rest := by
  have hnone : rest.takeWhile stays = [] ∧ rest.dropWhile stays = rest := by
    cases rest with
    | nil => exact ⟨rfl, rfl⟩
    | cons c rest =>
      have hc : ¬ stays c = true := by rw [hrest c rfl]; decide
      exact ⟨List.takeWhile_cons_of_neg hc, List.dropWhile_cons_of_neg hc⟩
  rw [List.takeWhile_append_of_pos htaken, List.dropWhile_append_of_pos htaken, hnone.1, hnone.2,
    List.append_nil]
  exact ⟨rfl, rfl⟩

theorem bind_of_eq_ok {p : Parser α} {f : α → Parser β} {x : α} (h : p cs = .ok (x, rest)) :
    (p >>= f) cs = f x rest := by
  change (p cs >>= fun r => f r.1 r.2) = f x rest
  rw [h]
  rfl

theorem expect_cons (c : Char) (rest : List Char) : expect c (c :: rest) = .ok ((), rest) :=
  if_pos rfl

theorem accept_cons (c : Char) (rest : List Char) : accept c (c :: rest) = .ok (true, rest) :=
  if_pos rfl

theorem accept_of_head? {c : Char} (h : cs.head? ≠ some c) : accept c cs = .ok (false, cs) := by
  cases cs with
  | nil => rfl
  | cons d cs => exact if_neg fun e => h (congrArg some e)

theorem head?_cons_ne {c d : Char} (h : c ≠ d) (rest : List Char) : (c :: rest).head? ≠ some d :=
  fun e => h (Option.some.inj e)

theorem accept_append {c d : Char} (hd : cs.head? = some d) (hne : d ≠ c) (rest : List Char) :
    accept c (cs ++ rest) = .ok (false, cs ++ rest) := by
  refine accept_of_head? ?_
  rw [List.head?_append, hd]
  exact fun e => hne (Option.some.inj e)

theorem exists_peek (cs : List Char) : ∃ c, c = cs.head? ∧ peek cs = .ok (c, cs) := ⟨_, rfl, rfl⟩

theorem next_cons (c : Char) (rest : List Char) : next (c :: rest) = .ok (some c, rest) := rfl

/-! ## Repetition -/

section Repetition

variable {item : Parser α} {chars : α → List Char} {good : α → Prop}

/-- A repetition goes on after `lead` and ends after `stop`. Each item takes a character, so the
bound is not met before. -/
theorem Reads.repeatAtMost {more : Parser Bool} (lead stop : List Char)
    (hmore : ∀ ⦃cs b rest⦄, more cs = .ok (b, rest) → cs = (if b then lead else stop) ++ rest)
    (hitem : item.Reads chars good) (hne : ∀ x, lead ++ chars x ≠ []) {n : Nat} {xs : List α}
    (hn : cs.length < n) (h : repeatAtMost more item n cs = .ok (xs, rest)) :
    cs = xs.flatMap (fun x => lead ++ chars x) ++ stop ++ rest ∧ ∀ x ∈ xs, good x := by
  induction n generalizing cs xs with
  | zero => cases hn
  | succ n ih =>
    obtain ⟨go, left, hgo, h⟩ := bind_eq_ok h
    have hcs := hmore hgo
    cases go with
    | false =>
      obtain ⟨rfl, rfl⟩ := pure_eq_ok h
      exact ⟨hcs, fun _ hx => nomatch hx⟩
    | true =>
      obtain ⟨x, left', hx, h⟩ := bind_eq_ok h
      obtain ⟨ys, left'', hys, h⟩ := bind_eq_ok h
      obtain ⟨rfl, rfl⟩ := pure_eq_ok h
      obtain ⟨hleft, hgood⟩ := hitem hx
      have hlen : cs.length = lead.length + ((chars x).length + left'.length) := by
        rw [hcs, hleft]
        simp only [if_true, List.length_append]
      have hpos := List.length_pos_iff.2 (hne x)
      rw [List.length_append] at hpos
      obtain ⟨hleft', hall⟩ := ih (by omega) hys
      refine ⟨?_, fun y hy => ?_⟩
      · rw [hcs, hleft, hleft']
        simp
      · rcases List.mem_cons.1 hy with rfl | hy
        · exact hgood
        · exact hall y hy

theorem Reads.manyUntil (hitem : item.Reads chars good) (hne : ∀ x, chars x ≠ []) (stop : Char) :
    (manyUntil stop item).Reads (fun xs => xs.flatMap chars ++ [stop])
      fun xs => ∀ x ∈ xs, good x := by
  intro cs xs rest h
  refine hitem.repeatAtMost [] [stop] (fun cs b rest hmore => ?_) hne
    (Nat.lt_succ_self _) h
  obtain ⟨taken, left, htaken, hpure⟩ := bind_eq_ok hmore
  obtain ⟨rfl, rfl⟩ := pure_eq_ok hpure
  rw [accept_eq_ok htaken]
  cases taken <;> rfl

theorem Reads.someUntil (hitem : item.Reads chars good) (hne : ∀ x, chars x ≠ []) (stop : Char) :
    (someUntil stop item).Reads (fun xs => xs.flatMap chars ++ [stop])
      fun xs => xs ≠ [] ∧ ∀ x ∈ xs, good x := by
  intro cs xs rest h
  obtain ⟨x, left, hx, h⟩ := bind_eq_ok h
  obtain ⟨ys, left', hys, h⟩ := bind_eq_ok h
  obtain ⟨rfl, rfl⟩ := pure_eq_ok h
  obtain ⟨hcs, hgood⟩ := hitem hx
  obtain ⟨hleft, hall⟩ := hitem.manyUntil hne stop hys
  refine ⟨by rw [hcs, hleft]; simp, List.cons_ne_nil _ _, fun y hy => ?_⟩
  rcases List.mem_cons.1 hy with rfl | hy
  · exact hgood
  · exact hall y hy

theorem Reads.manyAfter (hitem : item.Reads chars good) (lead : Char) :
    (manyAfter lead item).Reads (fun xs => xs.flatMap fun x => lead :: chars x)
      fun xs => ∀ x ∈ xs, good x := by
  intro cs xs rest h
  have := hitem.repeatAtMost [lead] [] (fun cs b rest hmore => by
    rw [accept_eq_ok hmore]
    cases b <;> rfl) (fun _ => List.cons_ne_nil _ _) (Nat.lt_succ_self _) h
  simpa using this

theorem Reads.manyToEnd (hitem : item.Reads chars good) (hne : ∀ x, chars x ≠ []) :
    (manyToEnd item).Reads (fun xs => xs.flatMap chars) fun xs => ∀ x ∈ xs, good x := by
  intro cs xs rest h
  have := hitem.repeatAtMost [] [] (fun cs b rest hmore => by
    obtain ⟨c, left, hc, hpure⟩ := bind_eq_ok hmore
    obtain ⟨-, rfl⟩ := peek_eq_ok hc
    obtain ⟨-, rfl⟩ := pure_eq_ok hpure
    cases b <;> rfl) hne (Nat.lt_succ_self _) h
  simpa using this

end Repetition

/-! ## Repetition on a known text -/

section Known

variable {item : Parser α} {chars : α → List Char}

/-- Items that are written one after the other, with what goes between and after them. Each can be
read where it stands, so all of them are. -/
theorem repeatAtMost_append {more : Parser Bool} (lead stop : List Char) (xs : List α)
    (hmore : ∀ x ∈ xs, ∀ tail, more (lead ++ (chars x ++ tail)) = .ok (true, chars x ++ tail))
    (hstop : more (stop ++ rest) = .ok (false, rest))
    (hitem : ∀ x others, x :: others <:+ xs →
      item (chars x ++ (others.flatMap (fun x => lead ++ chars x) ++ (stop ++ rest))) =
        .ok (x, others.flatMap (fun x => lead ++ chars x) ++ (stop ++ rest)))
    (hne : ∀ x ∈ xs, lead ++ chars x ≠ []) {n : Nat}
    (hn : (xs.flatMap (fun x => lead ++ chars x) ++ (stop ++ rest)).length < n) :
    repeatAtMost more item n (xs.flatMap (fun x => lead ++ chars x) ++ (stop ++ rest)) =
      .ok (xs, rest) := by
  induction xs generalizing n with
  | nil =>
    cases n with
    | zero => cases hn
    | succ n => exact bind_of_eq_ok hstop
  | cons x xs ih =>
    cases n with
    | zero => cases hn
    | succ n =>
      have hpos := List.length_pos_iff.2 (hne x List.mem_cons_self)
      rw [List.flatMap_cons, List.append_assoc, List.length_append] at hn
      have hxs := ih (fun y hy => hmore y (List.mem_cons_of_mem x hy))
        (fun y others h => hitem y others (h.trans (List.suffix_cons x xs)))
        (fun y hy => hne y (List.mem_cons_of_mem x hy)) (n := n) (by omega)
      have hx := hitem x xs (List.suffix_refl _)
      rw [List.flatMap_cons, List.append_assoc, List.append_assoc, repeatAtMost,
        bind_of_eq_ok (hmore x List.mem_cons_self _)]
      refine (bind_of_eq_ok hx).trans ?_
      exact bind_of_eq_ok (f := fun xs => pure (x :: xs)) hxs

theorem manyUntil_append (stop : Char) (xs : List α)
    (hitem : ∀ x others, x :: others <:+ xs →
      item (chars x ++ (others.flatMap chars ++ stop :: rest)) =
        .ok (x, others.flatMap chars ++ stop :: rest))
    (hhead : ∀ x ∈ xs, ∃ c, (chars x).head? = some c ∧ c ≠ stop) :
    manyUntil stop item (xs.flatMap chars ++ stop :: rest) = .ok (xs, rest) := by
  refine repeatAtMost_append [] [stop] xs (fun x hx tail => ?_)
    (bind_of_eq_ok (accept_cons stop rest)) hitem (fun x hx => ?_) (Nat.lt_succ_self _)
  · obtain ⟨c, hc, hne⟩ := hhead x hx
    exact bind_of_eq_ok (accept_append hc hne tail)
  · obtain ⟨c, hc, -⟩ := hhead x hx
    exact fun e => by rw [(List.append_eq_nil_iff.1 e).2] at hc; cases hc

theorem someUntil_append (stop : Char) {xs : List α} (hxs : xs ≠ [])
    (hitem : ∀ x others, x :: others <:+ xs →
      item (chars x ++ (others.flatMap chars ++ stop :: rest)) =
        .ok (x, others.flatMap chars ++ stop :: rest))
    (hhead : ∀ x ∈ xs, ∃ c, (chars x).head? = some c ∧ c ≠ stop) :
    someUntil stop item (xs.flatMap chars ++ stop :: rest) = .ok (xs, rest) := by
  obtain ⟨x, others, rfl⟩ := List.exists_cons_of_ne_nil hxs
  have hothers : manyUntil stop item (others.flatMap chars ++ stop :: rest) = .ok (others, rest) :=
    manyUntil_append stop others
      (fun y more h => hitem y more (h.trans (List.suffix_cons x others)))
      (fun y hy => hhead y (List.mem_cons_of_mem x hy))
  rw [List.flatMap_cons, List.append_assoc, someUntil,
    bind_of_eq_ok (hitem x others (List.suffix_refl _)), bind_of_eq_ok hothers]
  rfl

theorem manyAfter_append (lead : Char) (xs : List α)
    (hitem : ∀ x others, x :: others <:+ xs →
      item (chars x ++ (others.flatMap (fun x => lead :: chars x) ++ rest)) =
        .ok (x, others.flatMap (fun x => lead :: chars x) ++ rest))
    (hrest : rest.head? ≠ some lead) :
    manyAfter lead item (xs.flatMap (fun x => lead :: chars x) ++ rest) = .ok (xs, rest) := by
  have hmore : ∀ x ∈ xs, ∀ tail,
      accept lead ([lead] ++ (chars x ++ tail)) = .ok (true, chars x ++ tail) :=
    fun _ _ _ => accept_cons lead _
  exact repeatAtMost_append [lead] [] xs hmore (accept_of_head? hrest) hitem
    (fun _ _ => List.cons_ne_nil _ _) (Nat.lt_succ_self _)

theorem manyToEnd_append (xs : List α)
    (hitem : ∀ x others, x :: others <:+ xs →
      item (chars x ++ (others.flatMap chars ++ [])) = .ok (x, others.flatMap chars ++ []))
    (hne : ∀ x ∈ xs, chars x ≠ []) :
    manyToEnd item (xs.flatMap chars ++ []) = .ok (xs, []) := by
  refine repeatAtMost_append [] [] xs (fun x hx tail => ?_) rfl hitem hne (Nat.lt_succ_self _)
  obtain ⟨c, cs, hx⟩ := List.exists_cons_of_ne_nil (hne x hx)
  rw [hx]
  rfl

end Known

/-! ## Whole texts -/

theorem parseAll_eq_ok {p : Parser α} {text : String} {x : α} (h : parseAll p text = .ok x) :
    p text.toList = .ok (x, []) := by
  unfold parseAll at h
  cases hr : p text.toList with
  | error e => rw [hr] at h; cases h
  | ok r =>
    obtain ⟨y, rest⟩ := r
    rw [hr] at h
    cases rest with
    | nil => cases h; rfl
    | cons c rest => cases h

theorem parseAll_ofList {p : Parser α} {x : α} (h : p cs = .ok (x, [])) :
    parseAll p (String.ofList cs) = .ok x := by
  unfold parseAll
  rw [String.toList_ofList, h]
  rfl

theorem Reads.parseAll {p : Parser α} {chars : α → List Char} {good : α → Prop}
    (hp : p.Reads chars good) {text : String} {x : α} (h : parseAll p text = .ok x) :
    String.ofList (chars x) = text ∧ good x := by
  obtain ⟨hcs, hgood⟩ := hp (parseAll_eq_ok h)
  rw [List.append_nil] at hcs
  exact ⟨by rw [← hcs, String.ofList_toList], hgood⟩

/-- Trees and the texts that the parser accepts are one to one: each text is what is written for
the tree that is read from it, and each tree is read from what is written for it. -/
structure RoundTrips (p : Parser α) (chars : α → List Char) : Prop where
  render_of_parse : ∀ text x, parseAll p text = .ok x → String.ofList (chars x) = text
  parse_render : ∀ x, parseAll p (String.ofList (chars x)) = .ok x
  accepts_iff : ∀ text, (∃ x, parseAll p text = .ok x) ↔ ∃ x, String.ofList (chars x) = text
  tree_unique : ∀ x y, String.ofList (chars x) = String.ofList (chars y) → x = y

theorem RoundTrips.of_append {p : Parser α} {chars : α → List Char} (hspells : p.Spells chars)
    (happend : ∀ rest x, p (chars x ++ rest) = .ok (x, rest)) : p.RoundTrips chars := by
  have hrender (text : String) (x : α) (h : Parser.parseAll p text = .ok x) :
      String.ofList (chars x) = text :=
    (hspells.reads.parseAll h).1
  have hparse (x : α) : Parser.parseAll p (String.ofList (chars x)) = .ok x := by
    refine parseAll_ofList ?_
    have hread := happend [] x
    rwa [List.append_nil] at hread
  refine ⟨hrender, hparse, fun text => ⟨?_, ?_⟩, fun x y h => ?_⟩
  · rintro ⟨x, hx⟩
    exact ⟨x, hrender text x hx⟩
  · rintro ⟨x, rfl⟩
    exact ⟨x, hparse x⟩
  · have hx := hparse x
    rw [h, hparse y] at hx
    exact (Except.ok.inj hx).symm

end Parser

end Repackage
