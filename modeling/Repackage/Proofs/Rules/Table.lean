import Mathlib.Data.List.Basic
import Repackage.Rules.Builder

/-!
# What tables hold

A table can be made exactly if its keys are neither empty nor given twice (`Table.make_eq_ok`). Its
rules are then tried by the size of their keys (`Table.sorted_ordered`).

Tables come from builders, or undo other tables (`Table.Built`). Builders spell packages with dots
only (`Table.Built.wellFormed`), so that keys which differ also differ with slashes
(`Table.WellFormed.nodup_ordered`) and are in the same order: it does not matter in which form the
rules are sorted (`Table.WellFormed.ordered_eq`).
-/

namespace Repackage

/-! ## The order of rules -/

namespace Rule

variable {r s u : Rule}

theorem precedes_iff : r.precedes s = true ↔ s.key.utf8ByteSize < r.key.utf8ByteSize ∨
    r.key.utf8ByteSize = s.key.utf8ByteSize ∧ r.key ≤ s.key := by
  simp [precedes]

theorem precedes_trans (h : r.precedes s = true) (h' : s.precedes u = true) :
    r.precedes u = true := by
  rw [precedes_iff] at *
  rcases h with h | ⟨hsize, hkey⟩ <;> rcases h' with h' | ⟨hsize', hkey'⟩
  · exact .inl (by omega)
  · exact .inl (by omega)
  · exact .inl (by omega)
  · exact .inr ⟨hsize.trans hsize', String.le_trans hkey hkey'⟩

theorem precedes_total (r s : Rule) : (r.precedes s || s.precedes r) = true := by
  rw [Bool.or_eq_true, precedes_iff, precedes_iff]
  rcases Nat.lt_trichotomy r.key.utf8ByteSize s.key.utf8ByteSize with h | h | h
  · exact .inr (.inl h)
  · exact (String.le_total r.key s.key).imp (fun hkey => .inr ⟨h, hkey⟩) fun hkey =>
      .inr ⟨h.symm, hkey⟩
  · exact .inl (.inl h)

theorem key_eq_of_precedes (h : r.precedes s = true) (h' : s.precedes r = true) :
    r.key = s.key := by
  rw [precedes_iff] at h h'
  rcases h with h | ⟨hsize, hkey⟩ <;> rcases h' with h' | ⟨hsize', hkey'⟩
  · omega
  · omega
  · omega
  · exact String.le_antisymm hkey hkey'

end Rule

/-! ## Spelling -/

namespace NameForm

variable {form : NameForm} {a b : String}

theorem utf8ByteSize_spell (form : NameForm) (name : String) :
    (form.spell name).utf8ByteSize = name.utf8ByteSize := by
  have hchar (c : Char) : (if c = '.' then form.separator else c).utf8Size = c.utf8Size := by
    split
    · rename_i hc
      cases form <;> rw [hc] <;> rfl
    · rfl
  have hchars (cs : List Char) :
      (String.ofList (Text.replaceChar '.' form.separator cs)).utf8ByteSize =
        (String.ofList cs).utf8ByteSize := by
    induction cs with
    | nil => rfl
    | cons c cs ih =>
      rw [Text.replaceChar] at ih
      rw [Text.replaceChar, List.map_cons, String.ofList_cons, String.ofList_cons,
        String.utf8ByteSize_append, String.utf8ByteSize_append, String.utf8ByteSize_singleton,
        String.utf8ByteSize_singleton, hchar, ih]
  rw [spell, hchars, String.ofList_toList]

/-- Without slashes, the dots can be put back. -/
theorem replaceChar_spell (form : NameForm) (h : '/' ∉ a.toList) :
    Text.replaceChar form.separator '.' (form.spell a).toList = a.toList := by
  rw [spell, String.toList_ofList, Text.replaceChar, Text.replaceChar, List.map_map]
  refine (List.map_congr_left fun c hc => ?_).trans (List.map_id _)
  have hslash : c ≠ '/' := fun e => h (e ▸ hc)
  cases form <;> simp only [separator, Function.comp_apply, id_eq] <;> split <;> simp_all

theorem spell_inj (ha : '/' ∉ a.toList) (hb : '/' ∉ b.toList) (h : form.spell a = form.spell b) :
    a = b := by
  rw [← String.toList_inj, ← replaceChar_spell form ha, h, replaceChar_spell form hb]

/-- A slash comes right after a dot, so to exchange the dots keeps the order of other characters. -/
theorem separator_lt (form : NameForm) {c d : Char} (hd : d ≠ '/') (h : c < d) :
    (if c = '.' then form.separator else c) < if d = '.' then form.separator else d := by
  have hdot (e : Char) : e = '.' ↔ e.toNat = 46 := Char.toNat_inj.symm
  have hslash : d.toNat ≠ 47 := fun e => hd (Char.toNat_inj.1 e)
  have hseparator : form.separator.toNat = 46 ∨ form.separator.toNat = 47 := by
    cases form <;> decide
  have h : c.toNat < d.toNat := h
  show Char.toNat _ < Char.toNat _
  simp only [hdot]
  split <;> split <;> omega

theorem replaceChar_lt (form : NameForm) {cs ds : List Char} (hds : '/' ∉ ds) (h : cs < ds) :
    Text.replaceChar '.' form.separator cs < Text.replaceChar '.' form.separator ds := by
  induction cs generalizing ds with
  | nil => cases ds <;> simp_all [Text.replaceChar]
  | cons c cs ih =>
    cases ds with
    | nil => simp at h
    | cons d ds =>
      rw [List.mem_cons, not_or] at hds
      unfold Text.replaceChar at ih ⊢
      rw [List.map_cons, List.map_cons, List.cons_lt_cons_iff]
      rcases List.cons_lt_cons_iff.1 h with hfirst | ⟨rfl, hrest⟩
      · exact .inl (separator_lt form (Ne.symm hds.1) hfirst)
      · exact .inr ⟨rfl, ih hds.2 hrest⟩

theorem spell_lt (hb : '/' ∉ b.toList) (h : a < b) : form.spell a < form.spell b := by
  rw [String.lt_iff, spell, spell, String.toList_ofList, String.toList_ofList]
  exact replaceChar_lt form hb h

/-- Without slashes, names are in the same order in either form. -/
theorem spell_le_iff (ha : '/' ∉ a.toList) (hb : '/' ∉ b.toList) :
    form.spell a ≤ form.spell b ↔ a ≤ b := by
  constructor
  · intro h
    exact String.not_lt.1 fun hlt => String.not_lt.2 h (spell_lt ha hlt)
  · intro h
    by_cases hlt : a < b
    · exact String.not_lt.1 (String.lt_asymm (spell_lt hb hlt))
    · cases String.le_antisymm h (String.not_lt.1 hlt)
      exact String.le_refl _

end NameForm

/-- The rule spells its packages with dots only. -/
def Rule.Dotted (r : Rule) : Prop := '/' ∉ r.key.toList ∧ '/' ∉ r.replacement.toList

theorem Rule.precedes_inForm {r s : Rule} (form : NameForm) (hr : r.Dotted) (hs : s.Dotted) :
    (r.inForm form).precedes (s.inForm form) = r.precedes s := by
  rw [Bool.eq_iff_iff, precedes_iff, precedes_iff, inForm, inForm, NameForm.utf8ByteSize_spell,
    NameForm.utf8ByteSize_spell, NameForm.spell_le_iff hr.1 hs.1]

/-! ## Making tables -/

namespace Table

variable {t t' : Table} {rules : List Rule} {direct versions : List (String × String)}
  {bundles : List (String × Bundle)}

/-- Keys that a table takes. -/
def KeysAllowed (keys : List String) : Prop := keys.Nodup ∧ "" ∉ keys

theorem checkKeys_iff {seen keys : List String} : checkKeys seen keys = .ok () ↔
    KeysAllowed keys ∧ ∀ key ∈ keys, key ∉ seen := by
  induction keys generalizing seen with
  | nil => simp [checkKeys, KeysAllowed]
  | cons key keys ih =>
    by_cases hempty : key = ""
    · simp [checkKeys, KeysAllowed, hempty]
    · by_cases hseen : key ∈ seen
      · simp [checkKeys, KeysAllowed, hempty, hseen]
      · simp only [checkKeys, String.isEmpty_iff, hempty, if_false, List.contains_iff_mem, hseen,
          ih, KeysAllowed]
        grind

theorem checkKeys_eq_ok {keys : List String} : checkKeys [] keys = .ok () ↔ KeysAllowed keys := by
  simp [checkKeys_iff]

/-- A table can be made from its parts if its keys are in order. -/
theorem make_parts (t : Table) (hkeys : checkKeys [] (t.rules.map Rule.key) = .ok ())
    (hvalues : checkKeys [] (t.direct.map Prod.fst) = .ok ()) :
    make t.rules t.direct t.versions t.bundles = .ok t := by
  obtain ⟨rules, direct, versions, bundles, byLength, rfl⟩ := t
  unfold make
  rw [hkeys, hvalues]
  rfl

theorem make_eq_ok : make rules direct versions bundles = .ok t ↔
    KeysAllowed (rules.map Rule.key) ∧ KeysAllowed (direct.map Prod.fst) ∧ t.rules = rules ∧
      t.direct = direct ∧ t.versions = versions ∧ t.bundles = bundles := by
  constructor
  · intro h
    unfold make at h
    cases hkeys : checkKeys [] (rules.map Rule.key) with
    | error e => rw [hkeys] at h; cases h
    | ok u =>
      cases hvalues : checkKeys [] (direct.map Prod.fst) with
      | error e => rw [hkeys, hvalues] at h; cases h
      | ok u' =>
        rw [hkeys, hvalues] at h
        cases h
        exact ⟨checkKeys_eq_ok.1 hkeys, checkKeys_eq_ok.1 hvalues, rfl, rfl, rfl, rfl⟩
  · rintro ⟨hkeys, hvalues, rfl, rfl, rfl, rfl⟩
    exact make_parts t (checkKeys_eq_ok.2 hkeys) (checkKeys_eq_ok.2 hvalues)

theorem inverted_eq_ok : t.inverted = .ok t' ↔
    KeysAllowed (t.rules.map Rule.replacement) ∧ KeysAllowed (t.direct.map Prod.snd) ∧
      t'.rules = t.rules.map Rule.flip ∧ t'.direct = t.direct.map Prod.swap ∧ t'.versions = [] ∧
      t'.bundles = [] := by
  have hkeys : (t.rules.map Rule.flip).map Rule.key = t.rules.map Rule.replacement := by
    rw [List.map_map]
    rfl
  have hvalues : (t.direct.map Prod.swap).map Prod.fst = t.direct.map Prod.snd := by
    rw [List.map_map]
    rfl
  rw [inverted, make_eq_ok, hkeys, hvalues]

theorem byLength_perm (t : Table) : t.byLength.Perm t.rules := by
  rw [t.byLength_eq]
  exact List.mergeSort_perm t.rules _

theorem mem_ordered {form : NameForm} {r : Rule} :
    r ∈ t.ordered form ↔ ∃ r' ∈ t.rules, r'.inForm form = r := by
  rw [ordered, List.mem_map]
  simp only [t.byLength_perm.mem_iff]

theorem pairwise_byLength (t : Table) : t.byLength.Pairwise fun r s => r.precedes s = true := by
  rw [t.byLength_eq]
  refine List.pairwise_mergeSort (fun r s u => ?_) Rule.precedes_total t.rules
  exact Rule.precedes_trans

/-- Rules with longer keys are tried first, in either form. -/
theorem sorted_ordered (t : Table) (form : NameForm) :
    (t.ordered form).Pairwise fun r s => s.key.utf8ByteSize ≤ r.key.utf8ByteSize := by
  refine List.pairwise_map.2 (t.pairwise_byLength.imp fun {r s} h => ?_)
  rw [Rule.inForm, Rule.inForm, NameForm.utf8ByteSize_spell, NameForm.utf8ByteSize_spell]
  rcases Rule.precedes_iff.1 h with h | ⟨h, -⟩
  · exact Nat.le_of_lt h
  · exact Nat.le_of_eq h.symm

end Table

/-! ## Where tables come from -/

/-- What a builder has been told, one thing after the other. -/
inductive Builder.Collected : Builder → Prop where
  | start : Collected {}
  | suffix {b : Builder} (text : String) : Collected b → Collected { b with wildcardSuffix := text }
  | rename {b : Builder} (key replacement : String) :
      Collected b → Collected (b.rename key replacement)
  | addDirect {b : Builder} (value replacement : String) :
      Collected b → Collected (b.addDirect value replacement)
  | addVersion {b : Builder} (package range : String) :
      Collected b → Collected (b.addVersion package range)
  | addBundle {b : Builder} (symbolicName : String) (bundle : Bundle) :
      Collected b → Collected (b.addBundle symbolicName bundle)
  | invert {b : Builder} (inverts : Bool) : Collected b → Collected { b with inverts }

theorem Builder.slash_not_mem_normalize (name : String) : '/' ∉ normalize name := by
  intro h
  obtain ⟨c, -, hc⟩ := List.mem_map.1 h
  split at hc
  · cases hc
  · exact absurd hc ‹_›

theorem mem_of_mem_getD_isSuffixOf? {suffix cs : List Char} {c : Char}
    (h : c ∈ (suffix.isSuffixOf? cs).getD cs) : c ∈ cs := by
  cases hs : suffix.isSuffixOf? cs with
  | none => rwa [hs] at h
  | some start =>
    rw [hs] at h
    rw [← List.isSuffixOf?_eq_some_iff_append_eq.1 hs]
    exact List.mem_append_left suffix h

theorem Builder.Collected.dotted {b : Builder} (h : b.Collected) : ∀ r ∈ b.rules, r.Dotted := by
  induction h with
  | start => exact fun _ hr => absurd hr List.not_mem_nil
  | rename key replacement _ ih =>
    intro r hr
    rcases List.mem_append.1 hr with hr | hr
    · exact ih r hr
    · cases List.mem_singleton.1 hr
      constructor
      · rw [String.toList_ofList]
        exact fun h => slash_not_mem_normalize key (mem_of_mem_getD_isSuffixOf? h)
      · rw [String.toList_ofList]
        exact fun h => slash_not_mem_normalize replacement (mem_of_mem_getD_isSuffixOf? h)
  | suffix _ _ ih => exact ih
  | addDirect _ _ _ ih => exact ih
  | addVersion _ _ _ ih => exact ih
  | addBundle _ _ _ ih => exact ih
  | invert _ _ ih => exact ih

theorem Builder.build_eq_ok {b : Builder} {t : Table} : b.build = .ok t ↔
    ∃ t₀, b.forward = .ok t₀ ∧ if b.inverts then t₀.inverted = .ok t else t₀ = t := by
  unfold build
  cases b.forward with
  | error e =>
    constructor
    · intro h
      cases h
    · rintro ⟨t₀, h, -⟩
      cases h
  | ok t₀ =>
    simp only [Except.ok.injEq, exists_eq_left']
    cases b.inverts with
    | false => exact ⟨Except.ok.inj, congrArg Except.ok⟩
    | true => exact Iff.rfl

/-- A builder that holds the parts of a table, and does not invert them, makes that table. -/
theorem Builder.build_of_parts {b : Builder} {t : Table} (hrules : b.rules = t.rules)
    (hkeys : Table.checkKeys [] (t.rules.map Rule.key) = .ok ())
    (hothers : (b.direct, b.versions, b.bundles) = (t.direct, t.versions, t.bundles))
    (hvalues : Table.checkKeys [] (t.direct.map Prod.fst) = .ok ())
    (hinverts : b.inverts = false) : b.build = .ok t := by
  simp only [Prod.mk.injEq] at hothers
  obtain ⟨hdirect, hversions, hbundles⟩ := hothers
  have hforward : b.forward = .ok t := by
    rw [forward, hrules, hdirect, hversions, hbundles, Table.make_parts t hkeys hvalues]
  exact build_eq_ok.2 ⟨t, hforward, by simp [hinverts]⟩

namespace Table

variable {t t' : Table}

/-- The ways to come by a table. -/
inductive Built : Table → Prop where
  | empty : Built Table.empty
  | build {b : Builder} {t : Table} : b.Collected → b.build = .ok t → Built t
  | inverted {t t' : Table} : Built t → t.inverted = .ok t' → Built t'

/-- No key is given twice, and all packages are spelled with dots only. -/
structure WellFormed (t : Table) : Prop where
  keys : (t.rules.map Rule.key).Nodup
  dotted : ∀ r ∈ t.rules, r.Dotted

theorem keysAllowed_of_inverted (h : t.inverted = .ok t') :
    KeysAllowed (t'.rules.map Rule.key) := by
  obtain ⟨hkeys, -, hrules, -⟩ := inverted_eq_ok.1 h
  rw [hrules, List.map_map]
  exact hkeys

theorem WellFormed.inverted (h : t.WellFormed) (hinverted : t.inverted = .ok t') :
    t'.WellFormed := by
  obtain ⟨-, -, hrules, -⟩ := inverted_eq_ok.1 hinverted
  refine ⟨(keysAllowed_of_inverted hinverted).1, fun r hr => ?_⟩
  rw [hrules] at hr
  obtain ⟨r', hr', rfl⟩ := List.mem_map.1 hr
  exact (h.dotted r' hr').symm

theorem Built.wellFormed (h : t.Built) : t.WellFormed := by
  induction h with
  | empty => exact ⟨List.nodup_nil, fun _ hr => absurd hr List.not_mem_nil⟩
  | inverted _ hinverted ih => exact ih.inverted hinverted
  | @build b t hb hbuild =>
    obtain ⟨t₀, hforward, hbuild⟩ := Builder.build_eq_ok.1 hbuild
    obtain ⟨hkeys, -, hrules, -⟩ := make_eq_ok.1 hforward
    have h₀ : t₀.WellFormed := ⟨hrules ▸ hkeys.1, hrules ▸ hb.dotted⟩
    split at hbuild
    · exact h₀.inverted hbuild
    · exact hbuild ▸ h₀

theorem Built.keysAllowed (h : t.Built) : KeysAllowed (t.rules.map Rule.key) := by
  cases h with
  | empty => exact ⟨List.nodup_nil, List.not_mem_nil⟩
  | inverted _ hinverted => exact keysAllowed_of_inverted hinverted
  | build _ hbuild =>
    obtain ⟨t₀, hforward, hbuild⟩ := Builder.build_eq_ok.1 hbuild
    obtain ⟨hkeys, -, hrules, -⟩ := make_eq_ok.1 hforward
    split at hbuild
    · exact keysAllowed_of_inverted hbuild
    · rw [← hbuild, hrules]
      exact hkeys

/-- The rules are sorted once, in dotted form. To sort them in each form gives the same. -/
theorem WellFormed.ordered_eq (h : t.WellFormed) (form : NameForm) :
    t.ordered form = (t.rules.map (Rule.inForm form)).mergeSort Rule.precedes := by
  rw [ordered, t.byLength_eq]
  refine List.map_mergeSort fun r hr s hs => ?_
  exact (Rule.precedes_inForm form (h.dotted r hr) (h.dotted s hs)).symm

/-- Keys differ in either form. -/
theorem WellFormed.nodup_ordered (h : t.WellFormed) (form : NameForm) :
    ((t.ordered form).map Rule.key).Nodup := by
  rw [h.ordered_eq, ((List.mergeSort_perm _ _).map Rule.key).nodup_iff, List.map_map]
  refine List.pairwise_map.2 ((List.pairwise_map.1 h.keys).imp_of_mem fun {r s} hr hs hne e => ?_)
  exact hne (NameForm.spell_inj (h.dotted r hr).1 (h.dotted s hs).1 e)

/-! ## Rules in order -/

/-- The table with these rules, which are in order. -/
def ofSorted (rules : List Rule)
    (h : rules.Pairwise fun r s => r.precedes s = true := by decide +kernel) : Table where
  rules
  direct := []
  versions := []
  bundles := []
  byLength := rules
  byLength_eq := (List.mergeSort_of_pairwise h).symm

end Table

end Repackage
