import Mathlib.Data.List.Nodup
import Repackage.Proofs.Renaming.Text
import Repackage.Proofs.Rules.Table

/-!
# The order in which rules are given

Rules are tried by the size of their keys and then by the keys themselves. No two keys are the same,
so this leaves one order only (`Table.byLength_eq_of_perm`), and a text that is replaced as a whole
has one replacement (`lookup_eq_of_perm`). Hence builders that were told the same in another order
build tables that give the same answers (`Builder.build_perm`).
-/

namespace Repackage

/-! ## Look-ups -/

section Lookup

variable {α β : Type} [BEq α] [LawfulBEq α] {xs ys : List (α × β)} {key : α} {value : β}

theorem lookup_eq_some_iff_mem (h : (xs.map Prod.fst).Nodup) :
    xs.lookup key = some value ↔ (key, value) ∈ xs := by
  induction xs with
  | nil => simp
  | cons x xs ih =>
    obtain ⟨k, v⟩ := x
    obtain ⟨hk, h⟩ := List.nodup_cons.1 h
    by_cases e : key = k
    · subst e
      have habsent : (key, value) ∉ xs := fun hx => hk (List.mem_map.2 ⟨_, hx, rfl⟩)
      simp [habsent, eq_comm]
    · simp [List.lookup_cons, beq_false_of_ne e, e, ih h]

theorem lookup_eq_of_perm (h : xs.Perm ys) (hxs : (xs.map Prod.fst).Nodup) :
    xs.lookup key = ys.lookup key := by
  have hys : (ys.map Prod.fst).Nodup := (h.map Prod.fst).nodup_iff.1 hxs
  refine Option.ext fun value => ?_
  rw [lookup_eq_some_iff_mem hxs, lookup_eq_some_iff_mem hys, h.mem_iff]

end Lookup

namespace Table

variable {t t' : Table}

/-- Rules with different keys are sorted in one way only. -/
theorem byLength_eq_of_perm (h : t.rules.Perm t'.rules) (hkeys : (t.rules.map Rule.key).Nodup) :
    t.byLength = t'.byLength := by
  have hperm : t.byLength.Perm t'.byLength := (t.byLength_perm.trans h).trans t'.byLength_perm.symm
  refine List.Perm.eq_of_pairwise ?_ t.pairwise_byLength t'.pairwise_byLength hperm
  intro r s hr hs hrs hsr
  have hr : r ∈ t.rules := t.byLength_perm.mem_iff.1 hr
  have hs : s ∈ t.rules := t.byLength_perm.mem_iff.1 (hperm.mem_iff.2 hs)
  exact List.inj_on_of_nodup_map hkeys hr hs (Rule.key_eq_of_precedes hrs hsr)

/-! ## Answers -/

/-- The tables give the same answers to all questions. -/
structure Agrees (t t' : Table) : Prop where
  rename : ∀ name form, t.rename name form = t'.rename name form
  renameType : ∀ name, t.renameType name = t'.renameType name
  replacePackages : ∀ text form, t.replacePackages text form = t'.replacePackages text form
  direct? : ∀ text, t.direct? text = t'.direct? text
  renameDescriptor : ∀ text, t.renameDescriptor text = t'.renameDescriptor text
  renameSignature : ∀ kind text, t.renameSignature kind text = t'.renameSignature kind text
  renameText : ∀ text, t.renameText text = t'.renameText text

theorem renameTypeChars_congr (h : t.rename = t'.rename)
    (name : List Char) : t.renameTypeChars name = t'.renameTypeChars name := by
  fun_induction renameTypeChars t name with
  | case1 rest hnone =>
    rw [renameTypeChars]
    split
    · rfl
    · rename_i element helement
      rw [hnone] at helement
      cases helement
  | case2 rest dimensions element helement ih =>
    rw [renameTypeChars]
    split
    · rename_i hnone
      rw [helement] at hnone
      cases hnone
    · rename_i element' helement'
      cases helement.symm.trans helement'
      rw [ih]
  | case3 name hname =>
    rw [renameTypeChars.eq_def]
    split
    · rename_i rest
      exact absurd rfl (hname rest)
    · simp only [h]

theorem Agrees.of_parts (hrules : t.byLength = t'.byLength)
    (hdirect : ∀ text, t.direct? text = t'.direct? text) : t.Agrees t' := by
  have hordered : t.ordered = t'.ordered := by
    funext form
    rw [ordered, ordered, hrules]
  have hrename : t.rename = t'.rename := by
    funext name form
    rw [Table.rename, Table.rename, candidate?, candidate?, hordered]
  have hreplace : t.replacePackages = t'.replacePackages := by
    funext text form
    rw [Table.replacePackages, Table.replacePackages, hordered]
  have htype : t.renameType = t'.renameType := by
    funext name
    rw [Table.renameType, Table.renameType, renameTypeChars_congr hrename]
  have htree : t.renameTree = t'.renameTree := by
    have hname : t.renameName = t'.renameName := by
      funext name
      rw [renameName, renameName, htype]
    have hnew : t.newName = t'.newName := by
      funext name
      rw [newName, newName, hname]
    funext d
    rw [renameTree_eq, renameTree_eq, hname, hnew]
  exact {
    rename := fun name form => by rw [hrename]
    renameType := fun name => by rw [htype]
    replacePackages := fun text form => by rw [hreplace]
    direct? := hdirect
    renameDescriptor := fun text => by rw [Table.renameDescriptor, Table.renameDescriptor, htree]
    renameSignature := fun kind text => by
      have hnew : t.newType = t'.newType := by
        funext name
        rw [newType, newType, htype]
      rw [Table.renameSignature, Table.renameSignature]
      simp only [renameSignatureTree_eq, htype, hnew]
    renameText := fun text => by
      rw [Table.renameText, Table.renameText, renameAsDescriptor, renameAsDescriptor, renameAsType,
        renameAsType, htree, htype, hreplace, hdirect] }

/-! ## Builders -/

/-- The tables were made of the same rules and direct texts. -/
structure Reorders (t t' : Table) : Prop where
  keys : KeysAllowed (t.rules.map Rule.key)
  values : KeysAllowed (t.direct.map Prod.fst)
  rules : t.rules.Perm t'.rules
  direct : t.direct.Perm t'.direct

theorem Reorders.agrees (h : t.Reorders t') : t.Agrees t' :=
  .of_parts (byLength_eq_of_perm h.rules h.keys.1) fun _ => lookup_eq_of_perm h.direct h.values.1

theorem KeysAllowed.perm {keys keys' : List String} (h : KeysAllowed keys)
    (hperm : keys.Perm keys') : KeysAllowed keys' :=
  ⟨hperm.nodup_iff.1 h.1, fun hempty => h.2 (hperm.mem_iff.2 hempty)⟩

theorem make_reorders {rules rules' : List Rule}
    {direct direct' versions versions' : List (String × String)}
    {bundles bundles' : List (String × Bundle)} (h : make rules direct versions bundles = .ok t)
    (hrules : rules.Perm rules') (hdirect : direct.Perm direct') :
    ∃ t', make rules' direct' versions' bundles' = .ok t' ∧ t.Reorders t' := by
  obtain ⟨hkeys, hvalues, rfl, rfl, -⟩ := make_eq_ok.1 h
  refine ⟨{ rules := rules', direct := direct', versions := versions', bundles := bundles' },
    make_eq_ok.2 ⟨?_, ?_, rfl, rfl, rfl, rfl⟩, hkeys, hvalues, hrules, hdirect⟩
  · exact hkeys.perm (hrules.map Rule.key)
  · exact hvalues.perm (hdirect.map Prod.fst)

end Table

namespace Builder

variable {b b' : Builder}

theorem build_reorders {t : Table} (h : b.build = .ok t) (hrules : b.rules.Perm b'.rules)
    (hdirect : b.direct.Perm b'.direct) (hinverts : b.inverts = b'.inverts) :
    ∃ t', b'.build = .ok t' ∧ t.Reorders t' := by
  obtain ⟨t₀, hforward, h⟩ := build_eq_ok.1 h
  obtain ⟨t₀', hforward', h₀⟩ := Table.make_reorders hforward hrules hdirect
  split at h
  · rename_i hinvert
    obtain ⟨t', hinverted, hreorders⟩ :=
      Table.make_reorders h (h₀.rules.map Rule.flip) (h₀.direct.map Prod.swap)
    refine ⟨t', build_eq_ok.2 ⟨t₀', hforward', ?_⟩, hreorders⟩
    rwa [← hinverts, if_pos hinvert]
  · rename_i hinvert
    subst h
    refine ⟨t₀', build_eq_ok.2 ⟨t₀', hforward', ?_⟩, h₀⟩
    rw [← hinverts, if_neg hinvert]

/-- The order in which a builder is told of rules and direct texts makes no difference. -/
theorem build_perm (hrules : b.rules.Perm b'.rules) (hdirect : b.direct.Perm b'.direct)
    (hinverts : b.inverts = b'.inverts) :
    ((∃ t, b.build = .ok t) ↔ ∃ t', b'.build = .ok t') ∧
      ∀ t t', b.build = .ok t → b'.build = .ok t' → t.Agrees t' := by
  refine ⟨⟨?_, ?_⟩, fun t t' ht ht' => ?_⟩
  · rintro ⟨t, ht⟩
    obtain ⟨t', ht', -⟩ := build_reorders ht hrules hdirect hinverts
    exact ⟨t', ht'⟩
  · rintro ⟨t, ht⟩
    obtain ⟨t', ht', -⟩ := build_reorders ht hrules.symm hdirect.symm hinverts.symm
    exact ⟨t', ht'⟩
  · obtain ⟨u, hu, hreorders⟩ := build_reorders ht hrules hdirect hinverts
    cases hu.symm.trans ht'
    exact hreorders.agrees

/-- A chain of rules with a wildcard and two direct texts, for the way back. -/
def chain : Builder where
  rules := (((Builder.rename {} "a.b.*" "d").rename "b" "c").rename "a" "b").rules
  direct := [("x", "y"), ("y", "z")]
  inverts := true

/-- The same backwards, and with another sign for wildcards. -/
def backwards : Builder where
  wildcardSuffix := "**"
  rules := (((Builder.rename { wildcardSuffix := "**" } " a" "b").rename "b" "c").rename
    "a/b**" "d").rules
  direct := [("y", "z"), ("x", "y")]
  inverts := true

theorem build_perm_backwards :
    chain.rules.Perm backwards.rules ∧ chain.direct.Perm backwards.direct ∧
      chain.inverts = backwards.inverts ∧
      ∃ t t', chain.build = .ok t ∧ backwards.build = .ok t' ∧ t.Agrees t' := by
  have hrules : chain.rules.Perm backwards.rules := by decide +kernel
  have hdirect : chain.direct.Perm backwards.direct := by decide +kernel
  obtain ⟨hsucceeds, hagrees⟩ := build_perm hrules hdirect rfl
  have hbuild : chain.build.toOption.isSome = true := by decide +kernel
  cases ht : chain.build with
  | error e => rw [ht] at hbuild; cases hbuild
  | ok t =>
    obtain ⟨t', ht'⟩ := hsucceeds.1 ⟨t, ht⟩
    exact ⟨hrules, hdirect, rfl, t, t', rfl, ht', hagrees t t' ht ht'⟩

end Builder

end Repackage
