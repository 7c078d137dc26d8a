import Repackage.Proofs.Rules.Selection

/-!
# The longest match

How a list of rules renames a package can be said without an order of the rules: by the exact rule
for the package, or else by the wildcard with the longest key (`Rule.longestMatch?`). A table that
was built from the rules does just that (`Table.rename_eq_longestMatch?`), and in either form the
same (`Table.rename_spell`).
-/

namespace Repackage

namespace Rule

variable {r : Rule} {rules : List Rule} {name new : String}

/-- The package is the key of the rule or lies below it: after the key it ends, or goes on with a
character that is no part of an identifier. -/
def covers (r : Rule) (name : String) : Bool :=
  r.key.toList.isPrefixOf name.toList &&
    (name.toList.drop r.key.toList.length).head?.all fun c => !isIdentifierPart c

/-- What the rules make of a package, which can be the same name. -/
def longestMatch? (rules : List Rule) (name : String) : Option String :=
  match rules.find? fun r => !r.wildcard && r.key == name with
  | some r => some r.replacement
  | none =>
    let wildcards := rules.filter fun r => r.wildcard && r.covers name
    (wildcards.maxOn? fun r => r.key.utf8ByteSize).map fun r =>
      r.replacement ++ String.ofList (name.toList.drop r.key.toList.length)

theorem endsName_true (rest : List Char) :
    endsName true rest = rest.head?.all fun c => !isIdentifierPart c := by
  cases rest with
  | nil => rfl
  | cons c rest => by_cases hc : isIdentifierPart c = true <;> simp [endsName, hc]

theorem renames_of_covers (hwildcard : r.wildcard = true) (h : r.covers name = true) :
    r.Renames name (r.replacement ++ String.ofList (name.toList.drop r.key.toList.length)) := by
  obtain ⟨hkey, hrest⟩ := Bool.and_eq_true_iff.1 h
  obtain ⟨rest, hname⟩ := List.isPrefixOf_iff_prefix.1 hkey
  rw [← hname, List.drop_left] at hrest ⊢
  refine ⟨String.ofList rest, ?_, rfl, ?_⟩
  · rw [← String.toList_inj, String.toList_append, String.toList_ofList, hname]
  · rw [if_pos hwildcard, String.toList_ofList, endsName_true, hrest]

theorem Renames.covers (h : r.Renames name new) (hwildcard : r.wildcard = true) :
    r.covers name = true := by
  obtain ⟨rest, rfl, -, hrest⟩ := h
  rw [if_pos hwildcard, endsName_true] at hrest
  rw [Rule.covers, String.toList_append, List.drop_left, hrest, Bool.and_true,
    List.isPrefixOf_iff_prefix]
  exact List.prefix_append _ _

/-- The rule that a match comes from renames the package, and no other goes before it. -/
theorem exists_of_longestMatch? (h : longestMatch? rules name = some new) :
    ∃ r ∈ rules, r.Renames name new ∧
      ∀ s ∈ rules, ∀ x, s.Renames name x → ¬ s.Outranks r := by
  unfold longestMatch? at h
  split at h
  · rename_i r hfind
    obtain rfl := Option.some.inj h
    have hr := List.find?_some hfind
    simp only [Bool.and_eq_true, Bool.not_eq_true', beq_iff_eq] at hr
    obtain ⟨hexact, hkey⟩ := hr
    refine ⟨r, List.mem_of_find?_eq_some hfind, ⟨"", ?_, ?_, ?_⟩, fun s _ x _ hs => ?_⟩
    · rw [String.append_empty, hkey]
    · rw [String.append_empty]
    · simp [hexact]
    · rw [hs.1] at hexact
      cases hexact
  · rename_i hfind
    obtain ⟨r, hmax, rfl⟩ := Option.map_eq_some_iff.1 h
    obtain ⟨hr, hcovers⟩ := List.mem_filter.1 (List.maxOn?_mem hmax)
    obtain ⟨hwildcard, hcovers⟩ := Bool.and_eq_true_iff.1 hcovers
    refine ⟨r, hr, renames_of_covers hwildcard hcovers, fun s hs x hx hrank => ?_⟩
    cases hws : s.wildcard with
    | false =>
      -- an exact rule would have been found
      have hne := List.find?_eq_none.1 hfind s hs
      simp [hws, (hx.eq_key hws).symm] at hne
    | true =>
      have hmem : s ∈ rules.filter fun r => r.wildcard && r.covers name :=
        List.mem_filter.2 ⟨hs, by rw [hws, hx.covers hws]; rfl⟩
      have hle := List.le_apply_get_maxOn?_of_mem (f := fun r : Rule => r.key.utf8ByteSize) hmem
      simp only [hmax, Option.get_some] at hle
      have hlt := hrank.2 hws
      omega

theorem not_renames_of_longestMatch? (h : longestMatch? rules name = none) :
    ∀ r ∈ rules, ∀ new, ¬ r.Renames name new := by
  intro r hr new hrename
  unfold longestMatch? at h
  split at h
  · cases h
  · rename_i hfind
    cases hwildcard : r.wildcard with
    | false =>
      have hne := List.find?_eq_none.1 hfind r hr
      simp [hwildcard, (hrename.eq_key hwildcard).symm] at hne
    | true =>
      have hmem : r ∈ rules.filter fun r => r.wildcard && r.covers name :=
        List.mem_filter.2 ⟨hr, by rw [hwildcard, hrename.covers hwildcard]; rfl⟩
      have hsome := List.isSome_maxOn?_of_mem (f := fun r : Rule => r.key.utf8ByteSize) hmem
      rw [Option.map_eq_none_iff.1 h] at hsome
      cases hsome

end Rule

/-! ## Spelling -/

namespace NameForm

variable {form : NameForm} {a b : String}

theorem spell_append (form : NameForm) (a b : String) :
    form.spell (a ++ b) = form.spell a ++ form.spell b := by
  rw [← String.toList_inj, String.toList_append]
  simp only [spell, Text.replaceChar, String.toList_ofList, String.toList_append, List.map_append]

theorem spell_dotted (name : String) : dotted.spell name = name := by
  have hchars : Text.replaceChar '.' dotted.separator name.toList = name.toList := by
    refine (List.map_congr_left fun c _ => ?_).trans (List.map_id _)
    by_cases hc : c = '.'
    · rw [if_pos hc, hc]; rfl
    · rw [if_neg hc]; rfl
  rw [spell, hchars, String.ofList_toList]

/-- Neither separator is part of an identifier. -/
theorem endsName_spell (form : NameForm) (rest : String) :
    endsName true (form.spell rest).toList = endsName true rest.toList := by
  rw [spell, String.toList_ofList, Rule.endsName_true, Rule.endsName_true]
  cases rest.toList with
  | nil => rfl
  | cons c cs =>
    have hseparator : isIdentifierPart form.separator = isIdentifierPart '.' := by
      cases form <;> rfl
    by_cases hc : c = '.' <;> simp [Text.replaceChar, hc, hseparator]

/-- A text that starts as a spelled name is spelled itself. -/
theorem exists_of_spell_eq_append {rest : String} (ha : '/' ∉ a.toList) (hb : '/' ∉ b.toList)
    (h : form.spell a = form.spell b ++ rest) : ∃ c, a = b ++ c ∧ form.spell c = rest := by
  have hchars := congrArg (Text.replaceChar form.separator '.' ∘ String.toList) h
  simp only [Function.comp_apply, replaceChar_spell form ha, String.toList_append] at hchars
  rw [Text.replaceChar, List.map_append, ← Text.replaceChar, replaceChar_spell form hb] at hchars
  have hname : a = b ++ String.ofList (Text.replaceChar form.separator '.' rest.toList) := by
    rw [← String.toList_inj, String.toList_append, String.toList_ofList]
    exact hchars
  refine ⟨_, hname, ?_⟩
  rw [hname, spell_append] at h
  exact (String.append_right_inj _).1 h

end NameForm

namespace Rule

variable {r : Rule} {form : NameForm} {name : String}

theorem inForm_dotted (r : Rule) : r.inForm .dotted = r := by
  rw [inForm, NameForm.spell_dotted, NameForm.spell_dotted]

/-- In another form a rule renames what it renames with dots, to the same in that form. -/
theorem renames_spell {new : String} (hr : r.Dotted) (hname : '/' ∉ name.toList) :
    (r.inForm form).Renames (form.spell name) new ↔
      ∃ x, r.Renames name x ∧ form.spell x = new := by
  constructor
  · rintro ⟨rest, hrest, rfl, hends⟩
    obtain ⟨c, rfl, rfl⟩ := NameForm.exists_of_spell_eq_append hname hr.1 hrest
    refine ⟨r.replacement ++ c, ⟨c, rfl, rfl, ?_⟩, form.spell_append _ _⟩
    cases hwildcard : r.wildcard with
    | true => simpa [inForm, hwildcard, NameForm.endsName_spell] using hends
    | false =>
      have hempty : form.spell c = "" := by simpa [inForm, hwildcard] using hends
      rw [← String.utf8ByteSize_eq_zero_iff, NameForm.utf8ByteSize_spell,
        String.utf8ByteSize_eq_zero_iff] at hempty
      simpa using hempty
  · rintro ⟨-, ⟨c, rfl, rfl, hends⟩, rfl⟩
    refine ⟨form.spell c, form.spell_append _ _, form.spell_append _ _, ?_⟩
    cases hwildcard : r.wildcard with
    | true => simpa [inForm, hwildcard, NameForm.endsName_spell] using hends
    | false =>
      have hempty : c = "" := by simpa [hwildcard] using hends
      rw [hempty]
      simp [inForm, hwildcard, NameForm.spell, Text.replaceChar]

/-- A way to apply rules of one kind gives the same in either form. -/
theorem apply_spell {apply : Rule → String → Option String} {wildcard : Bool}
    (happly : ∀ {r : Rule} {name new : String},
      apply r name = some new ↔ r.wildcard = wildcard ∧ r.Renames name new)
    (hr : r.Dotted) (hname : '/' ∉ name.toList) :
    apply (r.inForm form) (form.spell name) = (apply r name).map form.spell := by
  ext new
  simp only [happly, Option.map_eq_some_iff, renames_spell hr hname]
  constructor
  · rintro ⟨hkind, x, hx, e⟩
    exact ⟨x, ⟨hkind, hx⟩, e⟩
  · rintro ⟨x, ⟨hkind, hx⟩, e⟩
    exact ⟨hkind, x, hx, e⟩

/-- No slash comes into a name that is renamed with dots. -/
theorem Renames.slash_not_mem {new : String} (h : r.Renames name new) (hr : r.Dotted)
    (hname : '/' ∉ name.toList) : '/' ∉ new.toList := by
  obtain ⟨rest, rfl, rfl, -⟩ := h
  simp only [String.toList_append, List.mem_append, not_or] at hname ⊢
  exact ⟨hr.2, hname.2⟩

end Rule

/-! ## Tables -/

namespace Table

variable {t : Table} {name new : String}

theorem ordered_dotted (t : Table) : t.ordered .dotted = t.byLength := by
  refine (List.map_congr_left fun r _ => ?_).trans (List.map_id _)
  exact r.inForm_dotted

theorem mem_ordered_iff {form : NameForm} {r : Rule} :
    r ∈ t.ordered form ↔ r ∈ t.rules.map (Rule.inForm form) := by
  rw [mem_ordered, List.mem_map]

theorem candidate?_eq_longestMatch? (ht : t.WellFormed) (name : String) (form : NameForm) :
    t.candidate? name form = Rule.longestMatch? (t.rules.map (Rule.inForm form)) name := by
  cases h : Rule.longestMatch? (t.rules.map (Rule.inForm form)) name with
  | some new =>
    obtain ⟨r, hr, hrename, hfirst⟩ := Rule.exists_of_longestMatch? h
    refine (candidate?_eq_some ht).2 ⟨r, ?_, hrename⟩
    exact ht.selects (mem_ordered_iff.2 hr) hrename fun s hs => hfirst s (mem_ordered_iff.1 hs)
  | none =>
    have hnone := Rule.not_renames_of_longestMatch? h
    cases hcandidate : t.candidate? name form with
    | none => rfl
    | some new =>
      obtain ⟨r, hr, hrename⟩ := candidate?_selects ht hcandidate
      exact absurd hrename (hnone r (mem_ordered_iff.1 hr.mem) new)

theorem rename_eq_longestMatch? (ht : t.WellFormed) (name : String) (form : NameForm) :
    t.rename name form =
      (Rule.longestMatch? (t.rules.map (Rule.inForm form)) name).filter (· ≠ name) := by
  rw [rename, candidate?_eq_longestMatch? ht]

theorem WellFormed.dotted_of_mem (ht : t.WellFormed) {r : Rule} (hr : r ∈ t.byLength) :
    r.Dotted :=
  ht.dotted r (t.byLength_perm.mem_iff.1 hr)

theorem findSome?_spell (ht : t.WellFormed) (form : NameForm) (hname : '/' ∉ name.toList)
    {apply : Rule → String → Option String} {wildcard : Bool}
    (happly : ∀ {r : Rule} {name new : String},
      apply r name = some new ↔ r.wildcard = wildcard ∧ r.Renames name new) :
    ((t.ordered form).findSome? fun r => apply r (form.spell name)) =
      ((t.ordered .dotted).findSome? fun r => apply r name).map form.spell := by
  have hrules : t.byLength.filterMap (fun r => apply (r.inForm form) (form.spell name)) =
      t.byLength.filterMap fun r => (apply r name).map form.spell :=
    List.filterMap_congr fun r hr => Rule.apply_spell happly (ht.dotted_of_mem hr) hname
  rw [List.map_findSome?, ordered_dotted, ordered, List.findSome?_map]
  simp only [← List.head?_filterMap, Function.comp_def, hrules]

theorem candidate?_spell (ht : t.WellFormed) (form : NameForm) (hname : '/' ∉ name.toList) :
    t.candidate? (form.spell name) form = (t.candidate? name .dotted).map form.spell := by
  rw [candidate?, candidate?, Option.map_or,
    findSome?_spell ht form hname Rule.applyExactly?_eq_some,
    findSome?_spell ht form hname Rule.applyBelow?_eq_some]

/-- A package has the same new name in either form. -/
theorem rename_spell (ht : t.WellFormed) (form : NameForm) (hname : '/' ∉ name.toList) :
    t.rename (form.spell name) form = (t.rename name .dotted).map form.spell := by
  rw [rename, rename, candidate?_spell ht form hname, Option.filter_map]
  cases hcandidate : t.candidate? name .dotted with
  | none => rfl
  | some new =>
    have hnew : '/' ∉ new.toList := by
      obtain ⟨r, hr, hrename⟩ := candidate?_selects ht hcandidate
      obtain ⟨r, hrule, rfl⟩ := mem_ordered.1 hr.mem
      rw [Rule.inForm_dotted] at hrename
      exact hrename.slash_not_mem (ht.dotted r hrule) hname
    have hne : form.spell new = form.spell name ↔ new = name :=
      ⟨NameForm.spell_inj hnew hname, congrArg form.spell⟩
    simp [Option.filter, hne]

end Table

/-! ## Builders -/

namespace Builder

variable {b : Builder} {t : Table}

/-- The rules of the table that is built. -/
def tableRules (b : Builder) : List Rule := if b.inverts then b.rules.map Rule.flip else b.rules

theorem rules_of_build (h : b.build = .ok t) : t.rules = b.tableRules := by
  obtain ⟨t₀, hforward, h⟩ := build_eq_ok.1 h
  obtain ⟨-, -, hrules, -⟩ := Table.make_eq_ok.1 hforward
  unfold tableRules
  split at h
  · rename_i hinverts
    obtain ⟨-, -, hflipped, -⟩ := Table.inverted_eq_ok.1 h
    rw [if_pos hinverts, hflipped, hrules]
  · rename_i hinverts
    rw [if_neg hinverts, ← h, hrules]

/-- The table of a builder renames each package by the longest match, in either form alike. -/
theorem rename_of_build (hb : b.Collected) (h : b.build = .ok t) :
    (∀ name form, t.rename name form =
      (Rule.longestMatch? (b.tableRules.map (Rule.inForm form)) name).filter (· ≠ name)) ∧
    ∀ name, '/' ∉ name.toList →
      t.rename (NameForm.binary.spell name) .binary =
        (t.rename name .dotted).map NameForm.binary.spell := by
  have ht : t.WellFormed := (Table.Built.build hb h).wellFormed
  rw [← rules_of_build h]
  exact ⟨Table.rename_eq_longestMatch? ht, fun name => Table.rename_spell ht .binary⟩

/-- Two wildcards, one below the other, and an exact rule below both. -/
def nested : Builder :=
  ((Builder.rename {} "javax.*" "legacy.javax").rename "javax/ejb/*" "jakarta/ejb").rename
    "javax.ejb.spi" "jakarta.spi"

theorem rename_of_build_nested :
    nested.Collected ∧ ∃ t, nested.build = .ok t ∧
      t.rename "javax.ejb.spi" .dotted = some "jakarta.spi" ∧
      t.rename "javax.ejb.spi.x" .dotted = some "jakarta.ejb.spi.x" ∧
      t.rename "javax.ejbs" .dotted = some "legacy.javax.ejbs" ∧
      t.rename "javax/ejb/spi/x" .binary = some "jakarta/ejb/spi/x" := by
  have hcollected : nested.Collected := .rename _ _ (.rename _ _ (.rename _ _ .start))
  have hbuild : nested.build.toOption.isSome = true := by decide +kernel
  cases ht : nested.build with
  | error e => rw [ht] at hbuild; cases hbuild
  | ok t =>
    obtain ⟨hmatch, hforms⟩ := rename_of_build hcollected ht
    have hbelow : t.rename "javax.ejb.spi.x" .dotted = some "jakarta.ejb.spi.x" :=
      (hmatch _ _).trans (by decide +kernel)
    refine ⟨hcollected, t, rfl, ?_, hbelow, ?_, ?_⟩
    · exact (hmatch _ _).trans (by decide +kernel)
    · exact (hmatch _ _).trans (by decide +kernel)
    · have hbinary := hforms "javax.ejb.spi.x" (by decide)
      rw [hbelow] at hbinary
      exact hbinary

end Builder

end Repackage
