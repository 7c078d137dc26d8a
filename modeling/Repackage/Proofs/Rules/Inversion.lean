import Repackage.Proofs.Rules.Selection

/-!
# The way back

The inverse of a table has the same rules the other way round. Forward, the keys decide which rule
goes first; on the way back the replacements do. So a renamed package finds the way back by the rule
it came by, unless that is a wildcard and another rule that leads to the same package goes before it
(`Table.rename_inverted`). Nothing checks for that: `Table.inverted` refuses two rules with the same
replacement, but not a replacement that lies below another.
-/

namespace Repackage

/-- The rule `s` leads to `new` too, and goes before `r` on the way back: it is exact, or has the
longer replacement. -/
def Rule.Overtakes (s r : Rule) (new : String) : Prop :=
  (∃ old, s.Renames old new) ∧ r.wildcard = true ∧
    (s.wildcard = true → r.replacement.utf8ByteSize < s.replacement.utf8ByteSize)

theorem Rule.overtakes_iff {s r : Rule} {new : String} :
    s.Overtakes r new ↔ (∃ old, s.flip.Renames new old) ∧ s.flip.Outranks r.flip :=
  and_congr_left' (exists_congr fun _ => Rule.renames_flip.symm)

namespace Table

variable {t t' : Table} {form : NameForm} {r s : Rule} {old new : String}

theorem flip_mem_ordered (hinverted : t.inverted = .ok t') :
    r.flip ∈ t'.ordered form ↔ r ∈ t.ordered form := by
  obtain ⟨-, -, hrules, -⟩ := inverted_eq_ok.1 hinverted
  rw [mem_ordered, mem_ordered, hrules]
  constructor
  · rintro ⟨r', hr', e⟩
    obtain ⟨u, hu, rfl⟩ := List.mem_map.1 hr'
    exact ⟨u, hu, congrArg Rule.flip e⟩
  · rintro ⟨u, hu, rfl⟩
    exact ⟨u.flip, List.mem_map_of_mem hu, rfl⟩

/-- A rule that renames `old` to `new` and goes first both ways is the only one that does. -/
theorem Selects.eq_of_flip (hr : t.Selects form old r) (hold : r.Renames old new)
    (hs : t'.Selects form new s.flip) (hnew : s.Renames old new)
    (hinverted : t.inverted = .ok t') : s = r := by
  by_contra hne
  have hmem := (flip_mem_ordered hinverted).1 hs.mem
  have hforward := hr.first s hmem hne new hnew
  have hback := hs.first r.flip ((flip_mem_ordered hinverted).2 hr.mem)
    (fun e => hne (congrArg Rule.flip e).symm) old (Rule.renames_flip.2 hold)
  -- the longer key leaves the shorter rest, and so does the longer replacement
  have hkeys := hforward.2 hback.1
  have hreplacements : r.replacement.utf8ByteSize < s.replacement.utf8ByteSize := hback.2 hforward.1
  have hr := hold.size
  have hs := hnew.size
  omega

/-- A renamed package gets its name back exactly if no rule overtakes the one it was renamed by. -/
theorem rename_inverted (ht : t.Built) (hinverted : t.inverted = .ok t')
    (h : t.rename old form = some new) :
    ∃ r, t.Selects form old r ∧ r.Renames old new ∧
      (t'.rename new form = some old ↔ ∀ s ∈ t.ordered form, ¬ s.Overtakes r new) := by
  have ht' : t'.WellFormed := (Built.inverted ht hinverted).wellFormed
  obtain ⟨hne, r, hr, hold⟩ := (rename_eq_some ht.wellFormed).1 h
  refine ⟨r, hr, hold, ?_⟩
  rw [rename_eq_some ht']
  constructor
  · rintro ⟨-, u, hu, hback⟩ s hs hovertakes
    obtain ⟨⟨x, hx⟩, hrank⟩ := Rule.overtakes_iff.1 hovertakes
    -- the rule that goes first on the way back is the one that went first before
    have e : u.flip = r := hr.eq_of_flip hold hu (Rule.renames_flip.1 hback) hinverted
    subst e
    have hfirst := hu.first s.flip ((flip_mem_ordered hinverted).2 hs) hrank.ne x hx
    exact hfirst.asymm hrank
  · intro hnone
    refine ⟨hne.symm, r.flip, ht'.selects ((flip_mem_ordered hinverted).2 hr.mem)
      (Rule.renames_flip.2 hold) ?_, Rule.renames_flip.2 hold⟩
    intro s hs x hx hrank
    refine hnone s.flip ((flip_mem_ordered hinverted).1 hs) ?_
    exact Rule.overtakes_iff.2 ⟨⟨x, hx⟩, hrank⟩

/-! ## Packages that become one -/

/-- All of `javax` goes to `jakarta`, and `legacy.mail` to a package there. -/
def merging : Table :=
  .ofSorted [⟨"legacy.mail", "jakarta.mail", false⟩, ⟨"javax", "jakarta", true⟩]

/-- What undoes `merging`. -/
def parting : Table :=
  .ofSorted [⟨"jakarta.mail", "legacy.mail", false⟩, ⟨"jakarta", "javax", true⟩]

theorem build_merging :
    ((Builder.rename {} "legacy.mail" "jakarta.mail").rename "javax.*" "jakarta").build =
      .ok merging :=
  Builder.build_of_parts (by decide +kernel) rfl rfl rfl rfl

theorem built_merging : merging.Built := .build (.rename _ _ (.rename _ _ .start)) build_merging

theorem inverted_merging : merging.inverted = .ok parting := make_parts parting rfl rfl

theorem rename_inverted_merging :
    merging.Built ∧ merging.inverted = .ok parting ∧
      merging.rename "javax/mail/event" .binary = some "jakarta/mail/event" ∧
      ∃ r, merging.Selects .binary "javax/mail/event" r ∧
        r.Renames "javax/mail/event" "jakarta/mail/event" ∧
        (parting.rename "jakarta/mail/event" .binary = some "javax/mail/event" ↔
          ∀ s ∈ merging.ordered .binary, ¬ s.Overtakes r "jakarta/mail/event") :=
  have h : merging.rename "javax/mail/event" .binary = some "jakarta/mail/event" := by
    decide +kernel
  ⟨built_merging, inverted_merging, h, rename_inverted built_merging inverted_merging h⟩

/-- The package `javax.mail` comes back as `legacy.mail`. -/
theorem rename_inverted_astray :
    ((Builder.rename {} "legacy.mail" "jakarta.mail").rename "javax.*" "jakarta").build =
        .ok merging ∧
      merging.inverted = .ok parting ∧
      merging.rename "javax.mail" .dotted = some "jakarta.mail" ∧
      parting.rename "jakarta.mail" .dotted = some "legacy.mail" :=
  ⟨build_merging, inverted_merging, by decide +kernel, by decide +kernel⟩

end Table

end Repackage
