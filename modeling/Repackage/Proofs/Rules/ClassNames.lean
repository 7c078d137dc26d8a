import Repackage.Proofs.Rules.LongestMatch
import Repackage.Proofs.Rules.Substitution
import Repackage.Proofs.Text.Segments

/-!
# The name of a class as a text

In the dotted name of a class, packages are written in lower case and the class is not. A rule then
finds its package only at the start, and exactly if it renames the package of the class
(`Rule.substitute?_dottedClass`). So the first rule to change the text is the one that the table
renames the package by (`Table.candidate?_eq_findSome?`).

But the rules after it go over the new name, and may find their package there. The text becomes the
renamed class exactly if they leave it alone and the first rule changed it
(`Table.replacePackages_dottedClass`).
-/

namespace Repackage

/-! ## Names by their case -/

/-- An identifier in lower case, as far as its first character goes. -/
def isPackageSegment (segment : List Char) : Bool :=
  segment.head?.any Text.isLowercase && segment.all isIdentifierPart

/-- Segments of packages with dots between them. -/
def isPackageName (name : String) : Bool :=
  (Text.segments '.' name.toList).all isPackageSegment

/-- An identifier that starts neither in lower case nor with a digit, as those in upper case do. -/
def isClassName (name : String) : Bool :=
  (name.toList.head?.any fun c => !(Text.isLowercase c || Text.isNumeric c)) &&
    name.toList.all isIdentifierPart

/-- The dotted name of a class in a package. -/
def dottedClass (package simple : String) : String := package ++ "." ++ simple

theorem toList_dottedClass (package simple : String) :
    (dottedClass package simple).toList = package.toList ++ '.' :: simple.toList := by
  rw [dottedClass, String.toList_append, String.toList_append, List.append_assoc]
  rfl

theorem isIdentifierPart_dot : isIdentifierPart '.' = false := by decide +kernel

section PackageNames

variable {name simple : String} {start rest : List Char} {c : Char}

theorem exists_of_isPackageSegment {segment : List Char} (h : isPackageSegment segment = true) :
    ∃ c cs, segment = c :: cs ∧ Text.isLowercase c = true ∧
      ∀ d ∈ segment, isIdentifierPart d = true := by
  obtain ⟨hfirst, hall⟩ := Bool.and_eq_true_iff.1 h
  cases segment with
  | nil => cases hfirst
  | cons c cs => exact ⟨c, cs, rfl, hfirst, List.all_eq_true.1 hall⟩

theorem exists_of_isPackageName (h : isPackageName name = true) :
    ∃ c cs, name.toList = c :: cs ∧ isIdentifierPart c = true := by
  obtain ⟨first, others, hsegments⟩ :=
    List.exists_cons_of_ne_nil (Text.segments_ne_nil '.' name.toList)
  have hfirst := List.all_eq_true.1 h first (by rw [hsegments]; exact List.mem_cons_self)
  obtain ⟨c, cs, rfl, -, hall⟩ := exists_of_isPackageSegment hfirst
  refine ⟨c, cs ++ others.flatMap ('.' :: ·), ?_, hall c List.mem_cons_self⟩
  rw [← Text.join_segments hsegments, List.cons_append]

theorem mem_of_isPackageName (h : isPackageName name = true) (hc : c ∈ name.toList) :
    isIdentifierPart c = true ∨ c = '.' := by
  by_cases hdot : c = '.'
  · exact .inr hdot
  · obtain ⟨segment, hsegment, hc⟩ := Text.mem_segments hc hdot
    obtain ⟨-, -, -, -, hall⟩ := exists_of_isPackageSegment (List.all_eq_true.1 h segment hsegment)
    exact .inl (hall c hc)

/-- After a dot a package goes on in lower case. -/
theorem isLowercase_of_isPackageName (h : isPackageName name = true)
    (hname : name.toList = start ++ '.' :: rest) :
    ∃ c cs, rest = c :: cs ∧ Text.isLowercase c = true := by
  obtain ⟨first, others, hsegments⟩ := List.exists_cons_of_ne_nil (Text.segments_ne_nil '.' rest)
  have hmem : first ∈ Text.segments '.' name.toList := by
    rw [hname, Text.segments_append_sep, hsegments]
    exact List.mem_append_right _ List.mem_cons_self
  obtain ⟨c, cs, rfl, hlower, -⟩ := exists_of_isPackageSegment (List.all_eq_true.1 h first hmem)
  exact ⟨c, cs ++ others.flatMap ('.' :: ·),
    by rw [← Text.join_segments hsegments, List.cons_append], hlower⟩

theorem exists_of_isClassName (h : isClassName simple = true) :
    ∃ c cs, simple.toList = c :: cs ∧ (Text.isLowercase c || Text.isNumeric c) = false ∧
      ∀ d ∈ simple.toList, isIdentifierPart d = true := by
  obtain ⟨hfirst, hall⟩ := Bool.and_eq_true_iff.1 h
  cases hchars : simple.toList with
  | nil => rw [hchars] at hfirst; cases hfirst
  | cons c cs =>
    rw [hchars] at hfirst hall
    exact ⟨c, cs, rfl, by simpa using hfirst, List.all_eq_true.1 hall⟩

/-- No name starts inside the name of a class. -/
theorem startsName_of_mem_dottedClass (hp : isPackageName name = true)
    (hs : isClassName simple = true) (hc : c ∈ (dottedClass name simple).toList) :
    startsName (some c) = false := by
  have hpart : isIdentifierPart c = true ∨ c = '.' := by
    rw [toList_dottedClass, List.mem_append, List.mem_cons] at hc
    rcases hc with hc | rfl | hc
    · exact mem_of_isPackageName hp hc
    · exact .inr rfl
    · obtain ⟨-, -, -, -, hall⟩ := exists_of_isClassName hs
      exact .inl (hall c hc)
  rcases hpart with hpart | rfl
  · simp [startsName, hpart]
  · simp [startsName]

/-- At the start of the class, a key ends as a whole name where a rule with it renames the package:
at the end of the package, or before a deeper one if the rule is a wildcard. -/
theorem endsName_class (hp : isPackageName name = true) (hs : isClassName simple = true)
    (hname : name.toList = start ++ rest) (deep : Bool) :
    endsName deep (rest ++ '.' :: simple.toList) = true ↔
      if deep then endsName true rest = true else rest = [] := by
  obtain ⟨d, ds, hsimple, hupper, -⟩ := exists_of_isClassName hs
  cases rest with
  | nil =>
    cases deep <;> simp [endsName, isIdentifierPart_dot, hsimple, hupper]
  | cons c rest =>
    by_cases hpart : isIdentifierPart c = true
    · cases deep <;> simp [endsName, hpart]
    · have hdot : c = '.' :=
        (mem_of_isPackageName hp (by rw [hname]; simp)).resolve_left hpart
      subst hdot
      obtain ⟨e, es, rfl, hlower⟩ := isLowercase_of_isPackageName hp hname
      cases deep <;> simp [endsName, hpart, hlower]

end PackageNames

/-! ## One rule -/

namespace Rule

variable {r : Rule} {package simple new : String}

/-- The new name of a package by one rule. -/
def newName? (r : Rule) (name : String) : Option String :=
  (r.applyExactly? name).or (r.applyBelow? name)

theorem newName?_eq_some {name : String} : r.newName? name = some new ↔ r.Renames name new := by
  rw [newName?, Option.or_eq_some_iff, applyExactly?_eq_some, applyBelow?_eq_some]
  cases hwildcard : r.wildcard with
  | false => simp
  | true =>
    have hnone : r.applyExactly? name = none := by simp [applyExactly?, hwildcard]
    simp [hnone]

theorem not_renames_of_newName? {name : String} (h : r.newName? name = none) :
    ¬ r.Renames name new := by
  intro hrename
  rw [newName?_eq_some.2 hrename] at h
  cases h

theorem Renames.key_le {name : String} (h : r.Renames name new) :
    r.key.utf8ByteSize ≤ name.utf8ByteSize := by
  obtain ⟨rest, rfl, -⟩ := h
  rw [String.utf8ByteSize_append]
  omega

/-- A key with which the name of a class starts ends inside the package. -/
theorem exists_of_append_eq {key : String} {after : List Char} (hkey : isPackageName key = true)
    (hs : isClassName simple = true)
    (htext : package.toList ++ '.' :: simple.toList = key.toList ++ after) :
    ∃ rest, package.toList = key.toList ++ rest ∧ after = rest ++ '.' :: simple.toList := by
  rcases List.append_eq_append_iff.1 htext with ⟨more, hmore, hafter⟩ | ⟨rest, hrest, hafter⟩
  · cases more with
    | nil => exact ⟨[], by rw [hmore, List.append_nil, List.append_nil], hafter.symm⟩
    | cons d more =>
      -- the key would go on with the class, which is not in lower case
      obtain ⟨rfl, hsimple⟩ := List.cons.inj hafter
      obtain ⟨c, cs, rfl, hlower⟩ := isLowercase_of_isPackageName hkey hmore
      obtain ⟨c', cs', hclass, hupper, -⟩ := exists_of_isClassName hs
      obtain ⟨rfl, -⟩ := List.cons.inj (hclass.symm.trans hsimple)
      rw [hlower, Bool.true_or] at hupper
      cases hupper
  · exact ⟨rest, hrest, hafter⟩

/-- A rule finds its package only at the start of a class, and only if it renames the package of the
class. -/
theorem exists_of_wholeAt_dottedClass {i : Nat} (hkey : isPackageName r.key = true)
    (hp : isPackageName package = true) (hs : isClassName simple = true)
    (h : r.wholeAt (dottedClass package simple) i = true) : ∃ new, r.Renames package new := by
  obtain ⟨before, after, htext, -, hstarts, hends⟩ := exists_of_wholeAt h
  have hbefore : before = [] := by
    cases hlast : before.getLast? with
    | none => exact List.getLast?_eq_none_iff.1 hlast
    | some c =>
      have hmem : c ∈ (dottedClass package simple).toList := by
        rw [htext]
        exact List.mem_append_left _ (List.mem_of_getLast? hlast)
      rw [hlast, startsName_of_mem_dottedClass hp hs hmem] at hstarts
      cases hstarts
  rw [hbefore, List.nil_append, toList_dottedClass] at htext
  obtain ⟨rest, hrest, rfl⟩ := exists_of_append_eq hkey hs htext
  rw [endsName_class hp hs hrest] at hends
  refine ⟨r.replacement ++ String.ofList rest, String.ofList rest, ?_, rfl, ?_⟩
  · rw [← String.toList_inj, String.toList_append, String.toList_ofList, hrest]
  · cases hwildcard : r.wildcard <;> simpa [hwildcard] using hends

/-- After its own place at the start of a class, a rule does not find its package again. -/
theorem substituteFrom?_after {k : Char} {ks rest replacement : List Char} {edge : Option Char}
    {deep : Bool} (hk : isIdentifierPart k = true) (hp : isPackageName package = true)
    (hs : isClassName simple = true) (hpackage : package.toList = k :: ks ++ rest)
    (hends : endsName deep (rest ++ '.' :: simple.toList) = true) :
    substituteFrom? k ks replacement deep edge (rest ++ '.' :: simple.toList) = none := by
  refine substituteFrom?_eq_none fun before after htext hstarts => ?_
  cases hlast : before.getLast? with
  | some c =>
    have hmem : c ∈ (dottedClass package simple).toList := by
      rw [toList_dottedClass, hpackage, List.append_assoc, htext]
      exact List.mem_append_right _ (List.mem_append_left _ (List.mem_of_getLast? hlast))
    rw [hlast, Option.some_or, startsName_of_mem_dottedClass hp hs hmem] at hstarts
    cases hstarts
  | none =>
    -- what ends a whole name does not start the key
    rw [List.getLast?_eq_none_iff.1 hlast, List.nil_append, List.cons_append] at htext
    rw [htext] at hends
    simp [endsName, hk] at hends

/-- In the name of a class, the package is replaced as the rule renames it. -/
theorem substitute?_dottedClass (hkey : isPackageName r.key = true)
    (hp : isPackageName package = true) (hs : isClassName simple = true) :
    r.substitute? (dottedClass package simple).toList =
      (r.newName? package).map fun new => (dottedClass new simple).toList := by
  cases hnew : r.newName? package with
  | none =>
    refine substitute?_eq_none fun i => Bool.eq_false_iff.2 fun hwhole => ?_
    obtain ⟨new, hrename⟩ := exists_of_wholeAt_dottedClass hkey hp hs hwhole
    exact not_renames_of_newName? hnew hrename
  | some new =>
    obtain ⟨rest, rfl, rfl, hrest⟩ := newName?_eq_some.1 hnew
    obtain ⟨k, ks, hks, hk⟩ := exists_of_isPackageName hkey
    have hpackage : (r.key ++ rest).toList = k :: ks ++ rest.toList := by
      rw [String.toList_append, hks]
    have hends : endsName r.wildcard (rest.toList ++ '.' :: simple.toList) = true := by
      rw [endsName_class hp hs hpackage]
      cases hwildcard : r.wildcard <;> simpa [hwildcard] using hrest
    have hwhole : (startsName none && endsName r.wildcard (rest.toList ++ '.' :: simple.toList)) =
        true := by rw [hends]; rfl
    rw [substitute?, hks, toList_dottedClass, hpackage, List.append_assoc]
    dsimp only
    rw [substituteFrom?_whole hwhole, substituteFrom?_after hk hp hs hpackage hends,
      Option.getD_none, Option.map_some, toList_dottedClass, String.toList_append,
      List.append_assoc]

end Rule

/-! ## All rules -/

namespace Table

variable {t : Table} {package simple : String}

/-- The rule that goes before all others comes first in the order of the rules. -/
theorem candidate?_eq_findSome? (ht : t.WellFormed) (name : String) (form : NameForm) :
    t.candidate? name form = (t.ordered form).findSome? fun r => r.newName? name := by
  cases h : (t.ordered form).findSome? fun r => r.newName? name with
  | none =>
    have hnone := List.findSome?_eq_none_iff.1 h
    cases hcandidate : t.candidate? name form with
    | none => rfl
    | some new =>
      obtain ⟨r, hr, hrename⟩ := candidate?_selects ht hcandidate
      exact absurd hrename (Rule.not_renames_of_newName? (hnone r hr.mem))
  | some new =>
    obtain ⟨earlier, r, later, hordered, hnew, hearlier⟩ := List.findSome?_eq_some_iff.1 h
    have hrename := Rule.newName?_eq_some.1 hnew
    have hr : r ∈ t.ordered form := by
      rw [hordered]
      exact List.mem_append_right _ List.mem_cons_self
    refine (candidate?_eq_some ht).2 ⟨r, ht.selects hr hrename fun s hs x hx hrank => ?_, hrename⟩
    have hle : s.key.utf8ByteSize ≤ r.key.utf8ByteSize := by
      have hsorted := t.sorted_ordered form
      rw [hordered] at hs hsorted
      rcases List.mem_append.1 hs with hs | hs
      · exact absurd hx (Rule.not_renames_of_newName? (hearlier s hs))
      · rcases List.mem_cons.1 hs with rfl | hs
        · exact Nat.le_refl _
        · exact List.rel_of_pairwise_cons (List.pairwise_append.1 hsorted).2.1 hs
    cases hws : s.wildcard with
    | true => exact absurd (hrank.2 hws) (Nat.not_lt.2 hle)
    | false =>
      -- the key of `r` is no longer than the package, which is the key of `s`
      have hge : r.key.utf8ByteSize ≤ s.key.utf8ByteSize := by
        rw [← hx.eq_key hws]
        exact hrename.key_le
      have hkeys := hrename.key_eq hx (Nat.le_antisymm hge hle)
      exact hrank.ne (ht.eq_of_key hs hr hkeys.symm)

/-- The rules after the one that renames a package. -/
def rulesAfter (t : Table) (package : String) : List Rule :=
  (t.byLength.dropWhile fun r => (r.newName? package).isNone).tail

/-- What the rules after the one that renames a package make of a text. -/
def replaceAfter (t : Table) (package text : String) : String :=
  String.ofList ((replaceAll text.toList (t.rulesAfter package)).getD text.toList)

theorem rulesAfter_append {r : Rule} {earlier later : List Rule} {new : String}
    (hrules : t.byLength = earlier ++ r :: later)
    (hearlier : ∀ s ∈ earlier, s.newName? package = none)
    (hr : r.newName? package = some new) : t.rulesAfter package = later := by
  rw [rulesAfter, hrules, List.dropWhile_append_of_pos fun s hs => by rw [hearlier s hs]; rfl,
    List.dropWhile_cons_of_neg (by simp [hr]), List.tail_cons]

theorem replacePackages_eq_candidate? (ht : t.WellFormed)
    (hkeys : ∀ r ∈ t.rules, isPackageName r.key = true) (hp : isPackageName package = true)
    (hs : isClassName simple = true) :
    t.replacePackages (dottedClass package simple) .dotted =
      (t.candidate? package .dotted).map fun new =>
        t.replaceAfter package (dottedClass new simple) := by
  have hsubstitute (r : Rule) (hr : r ∈ t.byLength) :=
    Rule.substitute?_dottedClass (hkeys r (t.byLength_perm.mem_iff.1 hr)) hp hs
  rw [replacePackages, candidate?_eq_findSome? ht, ordered_dotted]
  cases h : t.byLength.findSome? fun r => r.newName? package with
  | none =>
    have hnone := List.findSome?_eq_none_iff.1 h
    rw [replaceAll_eq_none fun r hr => by rw [hsubstitute r hr, hnone r hr, Option.map_none]]
    rfl
  | some new =>
    obtain ⟨earlier, r, later, hrules, hnew, hearlier⟩ := List.findSome?_eq_some_iff.1 h
    have hr : r.substitute? (dottedClass package simple).toList =
        some (dottedClass new simple).toList := by
      rw [hsubstitute r (by rw [hrules]; simp), hnew, Option.map_some]
    have hothers (s : Rule) (hs : s ∈ earlier) :
        s.substitute? (dottedClass package simple).toList = none := by
      rw [hsubstitute s (by rw [hrules]; simp [hs]), hearlier s hs, Option.map_none]
    rw [Option.map_some, replaceAfter, rulesAfter_append hrules hearlier hnew, hrules,
      replaceAll_append hothers hr, Option.map_some]

/-- The name of a class becomes, as a text, what the rule that renames its package makes of it and
then the rules after that. So it becomes the renamed class exactly if the rule changes the package
and those after it leave the new name alone. -/
theorem replacePackages_dottedClass (ht : t.Built)
    (hkeys : ∀ r ∈ t.rules, isPackageName r.key = true) (hp : isPackageName package = true)
    (hs : isClassName simple = true) :
    t.replacePackages (dottedClass package simple) .dotted =
        (t.candidate? package .dotted).map (fun new =>
          t.replaceAfter package (dottedClass new simple)) ∧
      (t.replacePackages (dottedClass package simple) .dotted =
          (t.rename package .dotted).map (dottedClass · simple) ↔
        ∀ new, t.candidate? package .dotted = some new →
          new ≠ package ∧ t.replaceAfter package (dottedClass new simple) =
            dottedClass new simple) := by
  have hreplace := replacePackages_eq_candidate? ht.wellFormed hkeys hp hs
  refine ⟨hreplace, ?_⟩
  rw [hreplace, rename]
  cases t.candidate? package .dotted with
  | none => simp
  | some new => by_cases hnew : new = package <;> simp [Option.filter, hnew]

/-- Two wildcards, one below the other. -/
def layered : Table :=
  .ofSorted [⟨"javax.ejb", "jakarta.ejb", true⟩, ⟨"javax", "legacy.javax", true⟩]

theorem built_layered : layered.Built :=
  .build (.rename "javax.*" "legacy.javax" (.rename "javax.ejb.*" "jakarta.ejb" .start))
    (Builder.build_of_parts (by decide +kernel) rfl rfl rfl rfl)

theorem replacePackages_dottedClass_layered :
    layered.Built ∧ (∀ r ∈ layered.rules, isPackageName r.key = true) ∧
      isPackageName "javax.ejb.spi" = true ∧ isClassName "Home" = true ∧
      layered.rename "javax.ejb.spi" .dotted = some "jakarta.ejb.spi" ∧
      layered.replacePackages (dottedClass "javax.ejb.spi" "Home") .dotted =
        some "jakarta.ejb.spi.Home" := by
  have hkeys : ∀ r ∈ layered.rules, isPackageName r.key = true := by decide +kernel
  have hpackage : isPackageName "javax.ejb.spi" = true := by decide +kernel
  have hclass : isClassName "Home" = true := by decide +kernel
  have hcandidate : layered.candidate? "javax.ejb.spi" .dotted = some "jakarta.ejb.spi" := by
    decide +kernel
  have hrename : layered.rename "javax.ejb.spi" .dotted = some "jakarta.ejb.spi" := by
    decide +kernel
  obtain ⟨-, hiff⟩ := replacePackages_dottedClass built_layered hkeys hpackage hclass
  refine ⟨built_layered, hkeys, hpackage, hclass, hrename, ?_⟩
  rw [hiff.2 fun new hnew => ?_, hrename]
  · rfl
  · rw [hcandidate, Option.some.injEq] at hnew
    subst hnew
    decide +kernel

/-- A rule that leads to the package of the next one, and a rule that leads nowhere. -/
def chained : Table :=
  .ofSorted [⟨"a.b", "b.c", false⟩, ⟨"b.c", "c.d", false⟩, ⟨"e.f", "e.f", false⟩]

/-- In a class, the package is renamed twice, and one that stays counts as replaced. -/
theorem replacePackages_chained :
    chained.Built ∧ chained.rename "a.b" .dotted = some "b.c" ∧
      chained.replacePackages (dottedClass "a.b" "Thing") .dotted = some "c.d.Thing" ∧
      chained.rename "e.f" .dotted = none ∧
      chained.replacePackages (dottedClass "e.f" "Thing") .dotted = some "e.f.Thing" := by
  have hbuilt : chained.Built :=
    .build (.rename "e.f" "e.f" (.rename "b.c" "c.d" (.rename "a.b" "b.c" .start)))
      (Builder.build_of_parts (by decide +kernel) rfl rfl rfl rfl)
  refine ⟨hbuilt, ?_, ?_, ?_, ?_⟩ <;> decide +kernel

end Table

end Repackage
