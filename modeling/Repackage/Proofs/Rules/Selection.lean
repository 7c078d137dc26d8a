import Mathlib.Data.List.Nodup
import Repackage.Proofs.Rules.Table

/-!
# Which rule renames a package

A rule renames the package that is its key, and with a wildcard the packages below it too
(`Rule.Renames`). Of the rules that rename a package an exact one goes first, and then the wildcard
with the longest key (`Rule.Outranks`). A table renames the package by the rule that goes before all
others (`Table.rename_eq_some`).
-/

namespace Repackage

namespace Rule

variable {r s : Rule} {name new a b : String}

/-- The rule renames the package `name` to `new`. -/
def Renames (r : Rule) (name new : String) : Prop :=
  ∃ rest, name = r.key ++ rest ∧ new = r.replacement ++ rest ∧
    if r.wildcard then endsName true rest.toList = true else rest = ""

theorem renames_flip : r.flip.Renames new name ↔ r.Renames name new :=
  exists_congr fun _ => and_left_comm

theorem Renames.unique (h : r.Renames name a) (h' : r.Renames name b) : a = b := by
  obtain ⟨rest, hname, rfl, -⟩ := h
  obtain ⟨rest', hname', rfl, -⟩ := h'
  rw [(String.append_right_inj r.key).1 (hname.symm.trans hname')]

/-- What the name has more than the key, the new name has more than the replacement. -/
theorem Renames.size (h : r.Renames name new) :
    name.utf8ByteSize + r.replacement.utf8ByteSize = new.utf8ByteSize + r.key.utf8ByteSize := by
  obtain ⟨rest, rfl, rfl, -⟩ := h
  rw [String.utf8ByteSize_append, String.utf8ByteSize_append]
  omega

theorem Renames.eq_key (h : r.Renames name new) (hexact : r.wildcard = false) : name = r.key := by
  obtain ⟨rest, rfl, -, hrest⟩ := h
  simp only [hexact, Bool.false_eq_true, if_false] at hrest
  rw [hrest, String.append_empty]

/-- Of two starts of one text, neither has more than the other if they have one size. -/
theorem eq_of_append_eq {rest rest' : String} (h : a ++ rest = b ++ rest')
    (hsize : a.utf8ByteSize = b.utf8ByteSize) : a = b := by
  have hnil (x y more : String) (h : y = x ++ more)
      (hsize : x.utf8ByteSize = y.utf8ByteSize) : x = y := by
    rw [h, String.utf8ByteSize_append] at hsize
    have hmore : more = "" := String.utf8ByteSize_eq_zero_iff.1 (by omega)
    rw [h, hmore, String.append_empty]
  rw [← String.toList_inj, String.toList_append, String.toList_append] at h
  rcases List.append_eq_append_iff.1 h with ⟨more, hmore, -⟩ | ⟨more, hmore, -⟩
  · refine hnil a b (String.ofList more) ?_ hsize
    rw [← String.toList_inj, String.toList_append, String.toList_ofList, hmore]
  · refine (hnil b a (String.ofList more) ?_ hsize.symm).symm
    rw [← String.toList_inj, String.toList_append, String.toList_ofList, hmore]

theorem Renames.key_eq (h : r.Renames name a) (h' : s.Renames name b)
    (hsize : r.key.utf8ByteSize = s.key.utf8ByteSize) : r.key = s.key := by
  obtain ⟨rest, hname, -⟩ := h
  obtain ⟨rest', hname', -⟩ := h'
  exact eq_of_append_eq (hname.symm.trans hname') hsize

theorem applyExactly?_eq_some :
    r.applyExactly? name = some new ↔ r.wildcard = false ∧ r.Renames name new := by
  constructor
  · intro h
    unfold applyExactly? at h
    split at h
    · rename_i hkey
      cases h
      obtain ⟨hexact, hkey⟩ := Bool.and_eq_true_iff.1 hkey
      rw [Bool.not_eq_true'] at hexact
      refine ⟨hexact, "", ?_, String.append_empty.symm, by simp [hexact]⟩
      rw [String.append_empty, eq_of_beq hkey]
    · cases h
  · rintro ⟨hexact, h⟩
    obtain ⟨rest, rfl, rfl, hrest⟩ := h
    simp only [hexact, Bool.false_eq_true, if_false] at hrest
    simp [applyExactly?, hexact, hrest]

theorem applyBelow?_eq_some :
    r.applyBelow? name = some new ↔ r.wildcard = true ∧ r.Renames name new := by
  constructor
  · intro h
    unfold applyBelow? at h
    split at h
    · rename_i hwildcard
      split at h
      · rename_i rest hprefix
        split at h
        · rename_i hends
          cases h
          refine ⟨hwildcard, String.ofList rest, ?_, rfl, ?_⟩
          · rw [← String.toList_inj, String.toList_append, String.toList_ofList,
              List.isPrefixOf?_eq_some_iff_append_eq.1 hprefix]
          · rwa [if_pos hwildcard, String.toList_ofList]
        · cases h
      · cases h
    · cases h
  · rintro ⟨hwildcard, rest, rfl, rfl, hrest⟩
    have hprefix : r.key.toList.isPrefixOf? (r.key ++ rest).toList = some rest.toList := by
      rw [List.isPrefixOf?_eq_some_iff_append_eq, String.toList_append]
    rw [if_pos hwildcard] at hrest
    simp only [applyBelow?, hwildcard, if_true, hprefix, hrest, String.ofList_toList]

/-! ## Which rule goes first -/

/-- Of two rules that rename a package, `r` goes before `s`. -/
def Outranks (r s : Rule) : Prop :=
  s.wildcard = true ∧ (r.wildcard = true → s.key.utf8ByteSize < r.key.utf8ByteSize)

theorem Outranks.asymm (h : r.Outranks s) : ¬ s.Outranks r := by
  intro h'
  have hlt := h.2 h'.1
  have hgt := h'.2 h.1
  omega

theorem Outranks.ne (h : r.Outranks s) : r ≠ s := by
  rintro rfl
  exact h.asymm h

/-- One of two rules that rename the same package goes first, unless they have the same key. -/
theorem Renames.outranks (hr : r.Renames name a) (hs : s.Renames name b) (hne : r.key ≠ s.key) :
    r.Outranks s ∨ s.Outranks r := by
  cases hwr : r.wildcard with
  | false =>
    cases hws : s.wildcard with
    | false => exact absurd ((hr.eq_key hwr).symm.trans (hs.eq_key hws)) hne
    | true => exact .inl ⟨hws, fun h => by rw [hwr] at h; cases h⟩
  | true =>
    cases hws : s.wildcard with
    | false => exact .inr ⟨hwr, fun h => by rw [hws] at h; cases h⟩
    | true =>
      rcases Nat.lt_trichotomy r.key.utf8ByteSize s.key.utf8ByteSize with h | h | h
      · exact .inr ⟨hwr, fun _ => h⟩
      · exact absurd (hr.key_eq hs h) hne
      · exact .inl ⟨hws, fun _ => h⟩

end Rule

namespace Table

variable {t : Table} {form : NameForm} {name new : String} {r s : Rule}

/-- The rule by which a table renames a package, in one form. -/
structure Selects (t : Table) (form : NameForm) (name : String) (r : Rule) : Prop where
  mem : r ∈ t.ordered form
  first : ∀ s ∈ t.ordered form, s ≠ r → ∀ new, s.Renames name new → r.Outranks s

theorem WellFormed.eq_of_key (ht : t.WellFormed) (hr : r ∈ t.ordered form)
    (hs : s ∈ t.ordered form) (h : r.key = s.key) : r = s :=
  List.inj_on_of_nodup_map (ht.nodup_ordered form) hr hs h

theorem Selects.unique {a b : String} (hr : t.Selects form name r) (ha : r.Renames name a)
    (hs : t.Selects form name s) (hb : s.Renames name b) : r = s := by
  by_contra hne
  exact (hr.first s hs.mem (fun e => hne e.symm) b hb).asymm (hs.first r hr.mem hne a ha)

/-- If nothing goes before a rule it is the one. -/
theorem WellFormed.selects (ht : t.WellFormed) (hr : r ∈ t.ordered form)
    (hrename : r.Renames name new)
    (h : ∀ s ∈ t.ordered form, ∀ x, s.Renames name x → ¬ s.Outranks r) :
    t.Selects form name r where
  mem := hr
  first s hs hne x hx :=
    (hrename.outranks hx fun e => hne (ht.eq_of_key hr hs e).symm).resolve_right (h s hs x hx)

theorem candidate?_selects (ht : t.WellFormed) (h : t.candidate? name form = some new) :
    ∃ r, t.Selects form name r ∧ r.Renames name new := by
  rcases Option.or_eq_some_iff.1 h with h | ⟨hexact, h⟩
  · obtain ⟨r, hr, happly⟩ := List.exists_of_findSome?_eq_some h
    obtain ⟨hwildcard, hrename⟩ := Rule.applyExactly?_eq_some.1 happly
    refine ⟨r, ht.selects hr hrename fun s _ x _ hs => ?_, hrename⟩
    rw [hs.1] at hwildcard
    cases hwildcard
  · obtain ⟨before, r, after, hordered, happly, hbefore⟩ := List.findSome?_eq_some_iff.1 h
    obtain ⟨hwildcard, hrename⟩ := Rule.applyBelow?_eq_some.1 happly
    have hr : r ∈ t.ordered form := by
      rw [hordered]
      exact List.mem_append_right _ List.mem_cons_self
    refine ⟨r, ht.selects hr hrename fun s hs x hx hrank => ?_, hrename⟩
    cases hws : s.wildcard with
    | false =>
      have hnone := List.findSome?_eq_none_iff.1 hexact s hs
      rw [Rule.applyExactly?_eq_some.2 ⟨hws, hx⟩] at hnone
      cases hnone
    | true =>
      -- what stands before `r` does not rename the package, and what comes later is no longer
      have hlt := hrank.2 hws
      have hsorted := t.sorted_ordered form
      rw [hordered] at hs hsorted
      rcases List.mem_append.1 hs with hs | hs
      · have hnone := hbefore s hs
        rw [Rule.applyBelow?_eq_some.2 ⟨hws, hx⟩] at hnone
        cases hnone
      · rcases List.mem_cons.1 hs with rfl | hs
        · omega
        · have hle := List.rel_of_pairwise_cons (List.pairwise_append.1 hsorted).2.1 hs
          omega

/-- Where some rule renames a package the table has a candidate. -/
theorem candidate?_ne_none (hr : r ∈ t.ordered form) (hrename : r.Renames name new) :
    t.candidate? name form ≠ none := by
  intro h
  obtain ⟨hexact, hbelow⟩ := Option.or_eq_none_iff.1 h
  cases hwildcard : r.wildcard with
  | false =>
    have hnone := List.findSome?_eq_none_iff.1 hexact r hr
    rw [Rule.applyExactly?_eq_some.2 ⟨hwildcard, hrename⟩] at hnone
    cases hnone
  | true =>
    have hnone := List.findSome?_eq_none_iff.1 hbelow r hr
    rw [Rule.applyBelow?_eq_some.2 ⟨hwildcard, hrename⟩] at hnone
    cases hnone

/-- The new name of a package comes from the rule that goes before all others. -/
theorem candidate?_eq_some (ht : t.WellFormed) :
    t.candidate? name form = some new ↔ ∃ r, t.Selects form name r ∧ r.Renames name new := by
  refine ⟨candidate?_selects ht, ?_⟩
  rintro ⟨r, hr, hrename⟩
  obtain ⟨x, hx⟩ := Option.ne_none_iff_exists'.1 (candidate?_ne_none hr.mem hrename)
  obtain ⟨s, hs, hsrename⟩ := candidate?_selects ht hx
  cases hr.unique hrename hs hsrename
  rw [hx, hrename.unique hsrename]

theorem rename_eq_some (ht : t.WellFormed) : t.rename name form = some new ↔
    new ≠ name ∧ ∃ r, t.Selects form name r ∧ r.Renames name new := by
  rw [rename, Option.filter_eq_some_iff, candidate?_eq_some ht, and_comm]
  simp

end Table

end Repackage
