import Repackage.Proofs.Renaming.Distinct
import Repackage.Proofs.Renaming.Stability
import Repackage.Proofs.Text.Segments

/-!
# Names that stay inside

A renamed class is stored under a name below the output directory. The name is put together from
the directory of the resource, the replacement of a rule and what is left of the old name of the
class, and each of them can lead out: by a slash at the start, or by two dots for a directory on the
way (`Relocation.Inside` has neither). Rules that name packages (`Table.NamesPackages`) add neither.
Two dots that are on the way to the new class were on the way to the old one
(`Table.NamesPackages.renameTypeChars`), and if the resource lies at the path of its class they were
in its name.
-/

namespace Repackage

/-! ## Directories -/

namespace Text

/-- The names of the directories on the way to a resource. -/
def directories (cs : List Char) : List (List Char) := (segments '/' cs).dropLast

theorem directories_append_slash (a b : List Char) :
    directories (a ++ '/' :: b) = segments '/' a ++ directories b := by
  rw [directories, segments_append_sep, List.dropLast_append_of_ne_nil (segments_ne_nil _ b),
    directories]

/-- What stands after the last slash does not lead anywhere. -/
theorem directories_append {b : List Char} (h : '/' ∉ b) (a : List Char) :
    directories (a ++ b) = directories a := by
  rw [directories, segments_append, segments_of_not_mem h, List.modifyHead_cons,
    List.dropLast_concat, directories]

theorem directories_append_left {a : List Char} (h : '/' ∉ a) (b : List Char) :
    directories (a ++ b) = (directories b).modifyHead (a ++ ·) := by
  have hlast : lastSegment '/' a = a := by rw [lastSegment, segments_of_not_mem h]; rfl
  rw [directories, directories, segments_append, hlast, segments_of_not_mem h]
  cases hb : segments '/' b with
  | nil => rfl
  | cons s ss =>
    cases ss with
    | nil => rfl
    | cons s' ss => simp

/-- A text that a name can follow: nothing, or all up to a slash. -/
def IsDirectory (cs : List Char) : Prop := cs = [] ∨ cs.getLast? = some '/'

theorem IsDirectory.segments_append {a : List Char} (h : IsDirectory a) (b : List Char) :
    segments '/' (a ++ b) = directories a ++ segments '/' b := by
  rcases h with rfl | h
  · rfl
  · obtain ⟨start, rfl⟩ := List.getLast?_eq_some_iff.1 h
    rw [directories_append_slash, List.append_assoc, List.singleton_append, segments_append_sep]
    simp [directories, segments]

end Text

namespace Relocation

open Text

/-- The directory above. -/
def up : List Char := ['.', '.']

/-- The name leads to a place below the directory that it is taken from: it does not start at the
root and does not go up. -/
def Inside (name : List Char) : Prop := name.head? ≠ some '/' ∧ up ∉ segments '/' name

/-- The resource lies at the path of the class, perhaps under some directory. -/
def LiesAt (resource className : String) : Prop :=
  ∃ directory, IsDirectory directory ∧ resource.toList = directory ++ classPath className

theorem segments_classPath (className : String) :
    ∃ last, segments '/' (classPath className) = directories className.toList ++ [last] ∧
      last ≠ up := by
  refine ⟨lastSegment '/' className.toList ++ ".class".toList, ?_, ?_⟩
  · rw [classPath, segments_append]
    rfl
  · intro h
    have hlength := congrArg List.length h
    simp [up] at hlength

theorem up_mem_segments_classPath {className : String} :
    up ∈ segments '/' (classPath className) ↔ up ∈ directories className.toList := by
  obtain ⟨last, hsegments, hlast⟩ := segments_classPath className
  rw [hsegments, List.mem_append, List.mem_singleton, or_iff_left hlast.symm]

/-- The way to the class of a resource that lies at its path is a part of the way to the resource. -/
theorem LiesAt.segments {resource className : String} (h : LiesAt resource className)
    (hup : up ∈ directories className.toList) : up ∈ Text.segments '/' resource.toList := by
  obtain ⟨directory, hdirectory, hresource⟩ := h
  rw [hresource, hdirectory.segments_append]
  exact List.mem_append_right _ (up_mem_segments_classPath.2 hup)

theorem classDirectory_isDirectory (resource : List Char) :
    IsDirectory (classDirectory resource) ∧ ∃ rest, resource = classDirectory resource ++ rest := by
  unfold classDirectory
  split
  · rename_i hweb
    obtain ⟨rest, hrest⟩ := List.isPrefixOf_iff_prefix.1 hweb
    exact ⟨.inr rfl, rest, hrest.symm⟩
  · split
    · exact ⟨.inl rfl, resource, rfl⟩
    · rename_i rest hversions
      split
      · exact ⟨.inl rfl, resource, rfl⟩
      · rename_i release after hrelease
        refine ⟨.inr List.getLast?_concat, after, ?_⟩
        rw [← List.isPrefixOf?_eq_some_iff_append_eq.1 hversions, eq_of_splitFirst? hrelease]
        simp

/-- The new path is that of the new class, in a directory that the resource was in. -/
theorem target_eq (resource oldClass newClass : String) :
    ∃ directory rest, IsDirectory directory ∧ resource.toList = directory ++ rest ∧
      (target resource oldClass newClass).toList = directory ++ classPath newClass := by
  unfold target
  cases hplace : samePlace? resource oldClass newClass with
  | none =>
    obtain ⟨hdirectory, rest, hrest⟩ := classDirectory_isDirectory resource.toList
    exact ⟨_, rest, hdirectory, hrest, String.toList_ofList⟩
  | some path =>
    obtain ⟨directory, hsuffix, hplace⟩ := Option.bind_eq_some_iff.1 hplace
    split at hplace
    · rename_i hdirectory
      cases hplace
      refine ⟨directory, classPath oldClass, by simpa [IsDirectory] using hdirectory,
        (List.isSuffixOf?_eq_some_iff_append_eq.1 hsuffix).symm, String.toList_ofList⟩
    · cases hplace

theorem target_inside {resource oldClass newClass : String} (hresource : Inside resource.toList)
    (hstart : newClass.toList.head? ≠ some '/') (hup : up ∉ directories newClass.toList) :
    Inside (target resource oldClass newClass).toList := by
  obtain ⟨directory, rest, hdirectory, hrest, htarget⟩ := target_eq resource oldClass newClass
  obtain ⟨hroot, hsegments⟩ := hresource
  rw [hrest] at hroot hsegments
  rw [htarget]
  constructor
  · cases directory with
    | nil =>
      rw [List.nil_append, classPath, List.head?_append]
      cases hhead : newClass.toList.head? with
      | none => decide
      | some c => rwa [hhead] at hstart
    | cons c directory => exact hroot
  · rw [hdirectory.segments_append, List.mem_append, not_or] at hsegments ⊢
    exact ⟨hsegments.1, fun h => hup (up_mem_segments_classPath.1 h)⟩

end Relocation

namespace Table

open Text Relocation

variable {t : Table}

/-- The replacements are names of packages, as far as they decide where a class goes: they are not
empty and do not start with a separator, and those that something can follow do not end with one. -/
structure NamesPackages (t : Table) : Prop where
  nonempty : ∀ r ∈ t.rules, r.replacement ≠ ""
  start : ∀ r ∈ t.rules, (NameForm.binary.spell r.replacement).toList.head? ≠ some '/'
  wildcards : ∀ r ∈ t.rules, r.wildcard = true →
    (NameForm.binary.spell r.replacement).toList.getLast? ≠ some '/'

theorem dot_not_mem_spell (name : String) : '.' ∉ (NameForm.binary.spell name).toList := by
  rw [NameForm.spell, String.toList_ofList, replaceChar]
  intro h
  obtain ⟨c, -, hc⟩ := List.mem_map.1 h
  split at hc
  · cases hc
  · contradiction

theorem spell_ne_nil {name : String} (h : name ≠ "") :
    (NameForm.binary.spell name).toList ≠ [] := by
  simpa [NameForm.spell, replaceChar] using h

/-- The brackets of an array are a part of the first name. -/
theorem directories_array {dimensions : List Char} (h : ∀ c ∈ dimensions, c = '[')
    (element : List Char) : directories ('[' :: dimensions ++ 'L' :: element ++ [';']) =
      (directories element).modifyHead ('[' :: dimensions ++ ['L'] ++ ·) := by
  have hslash : '/' ∉ '[' :: dimensions ++ ['L'] := by
    intro hmem
    rcases List.mem_append.1 hmem with hmem | hmem
    · rcases List.mem_cons.1 hmem with hmem | hmem
      · cases hmem
      · cases h _ hmem
    · cases List.mem_singleton.1 hmem
  rw [directories_append (by decide), ← directories_append_left hslash, List.append_assoc,
    List.singleton_append]

namespace NamesPackages

theorem head_rename (ht : t.NamesPackages) {package new : String}
    (h : t.rename package .binary = some new) :
    ∃ c, new.toList.head? = some c ∧ c ≠ '/' := by
  obtain ⟨r, hr, rest, -, hnew, -⟩ := exists_rule_of_rename h
  obtain ⟨c, cs, hreplacement⟩ := List.exists_cons_of_ne_nil (spell_ne_nil (ht.nonempty r hr))
  have hstart := ht.start r hr
  rw [hreplacement, List.head?_cons, ne_eq, Option.some.injEq] at hstart
  refine ⟨c, ?_, hstart⟩
  rw [hnew]
  change ((NameForm.binary.spell r.replacement).toList ++ rest).head? = some c
  rw [hreplacement]
  rfl

/-- Two dots in the new name of a package were in the old one, and not at its start. -/
theorem segments_rename (ht : t.NamesPackages) {package new : String}
    (h : t.rename package .binary = some new) (hup : up ∈ segments '/' new.toList) :
    up ∈ (segments '/' package.toList).tail := by
  obtain ⟨r, hr, rest, hold, hnew, hrest⟩ := exists_rule_of_rename h
  have hdot : ∀ s ∈ segments '/' (NameForm.binary.spell r.replacement).toList, '.' ∉ s :=
    fun s hs hc => dot_not_mem_spell r.replacement (mem_of_mem_segments hs hc)
  rw [hnew] at hup
  rcases mem_segments_append hup with hup | ⟨first, hfirst, hup⟩ | hup
  · exact absurd List.mem_cons_self (hdot _ (List.mem_of_mem_dropLast hup))
  -- the replacement ends in a piece without dots, so both dots would have to follow a separator
  · have hlast := hdot _ (lastSegment_mem _)
    cases hend : lastSegment '/' (NameForm.binary.spell r.replacement).toList with
    | cons c cs =>
      have hc : c = '.' := (List.cons.inj (hup.trans (congrArg (· ++ first) hend))).1.symm
      rw [hend, hc] at hlast
      exact absurd List.mem_cons_self hlast
    | nil =>
      rcases hrest with rfl | ⟨hwildcard, -⟩
      · cases hfirst
        cases hup.trans (congrArg (· ++ []) hend)
      · exact absurd hend
          (lastSegment_ne_nil (spell_ne_nil (ht.nonempty r hr)) (ht.wildcards r hr hwildcard))
  · rw [hold]
    exact mem_tail_segments_append hup

/-- The new name of a class does not start at the root, and two dots for a directory on the way to
it were on the way to the class before. -/
theorem renameTypeChars (ht : t.NamesPackages) {name new : List Char}
    (h : t.renameTypeChars name = some new) :
    new.head? ≠ some '/' ∧ (up ∈ directories new → up ∈ (directories name).tail) := by
  fun_induction Table.renameTypeChars t name generalizing new with
  | case1 rest hnone => cases h
  | case2 rest dimensions element helement =>
    rename_i ih
    obtain ⟨renamed, hrenamed, rfl⟩ := Option.map_eq_some_iff.1 h
    have hrest : rest = dimensions ++ 'L' :: element ++ [';'] := by
      rw [List.append_assoc, ← eq_of_elementClass? helement, List.takeWhile_append_dropWhile]
    have hdimensions : ∀ c ∈ dimensions, c = '[' :=
      fun c hc => of_decide_eq_true (List.all_eq_true.1 List.all_takeWhile c hc)
    refine ⟨fun hhead => (by cases hhead), fun hup => ?_⟩
    rw [directories_array hdimensions] at hup
    rw [hrest, ← List.cons_append, ← List.cons_append, directories_array hdimensions,
      List.tail_modifyHead]
    -- the first directory starts with a bracket
    cases hdirectories : directories renamed with
    | nil =>
      rw [hdirectories] at hup
      cases hup
    | cons first others =>
      rw [hdirectories, List.modifyHead_cons] at hup
      rcases List.mem_cons.1 hup with hup | hup
      · cases hup
      · exact (ih hrenamed).2 (hdirectories ▸ List.mem_cons_of_mem _ hup)
  | case3 name _ =>
    obtain ⟨parts, hparts, h⟩ := Option.bind_eq_some_iff.1 h
    obtain ⟨package, hpackage, h⟩ := Option.bind_eq_some_iff.1 h
    cases h
    have hsimple := not_mem_of_splitLast? hparts
    obtain ⟨c, hhead, hc⟩ := ht.head_rename hpackage
    constructor
    · rw [List.head?_append, hhead]
      exact fun e => hc (Option.some.inj e)
    · rw [eq_of_splitLast? hparts, directories_append_slash, directories_append_slash, directories,
        segments_of_not_mem hsimple]
      intro hup
      have := ht.segments_rename hpackage (by simpa using hup)
      simpa using this

theorem renameType (ht : t.NamesPackages) {name new : String} (h : t.renameType name = some new) :
    new.toList.head? ≠ some '/' ∧
      (up ∈ directories new.toList → up ∈ directories name.toList) := by
  obtain ⟨cs, hcs, rfl⟩ := Option.map_eq_some_iff.1 h
  obtain ⟨hstart, hup⟩ := ht.renameTypeChars hcs
  rw [String.toList_ofList]
  exact ⟨hstart, fun h => List.mem_of_mem_tail (hup h)⟩

end NamesPackages

end Table

namespace Rewrite

/-- A resource moves only with its class, and then to where the new name of the class calls for. -/
theorem renameThis_resource {s s' : Rewriter} {i : Index} {resource name : String}
    {changes : Change String × Change String} (hs : s.pool.Indexed)
    (hname : s.pool.className i = .ok name)
    (h : (renameThis resource i name).outcome s = (.ok changes, s')) :
    changes.1.output = resource ∨ ∃ new, s.rules.renameType name = some new ∧
      changes.1.output = Relocation.target resource name new := by
  obtain ⟨changed, s₁, hclass, h⟩ := outcome_bind_eq_ok h
  cases changed with
  | false =>
    cases h
    exact .inl rfl
  | true =>
    obtain ⟨_, _, hget, h⟩ := outcome_bind_eq_ok h
    cases hget
    obtain ⟨new, s₂, hlift, h⟩ := outcome_bind_eq_ok h
    obtain ⟨hnew, rfl⟩ := outcome_lift_eq_ok hlift
    cases h
    obtain ⟨j, old, new', hi, hj, hgi, hgj, hr, hnew'⟩ := renameClass_renamed hs hclass
    cases hnew.symm.trans hnew'
    rw [Rewriter.KnownAs.of_className hname j old hi hj hgi hgj] at hr
    exact .inr ⟨new, hr, rfl⟩

theorem rewriteClassFile_resource {s s' : Rewriter} {resource : String} {c c' : ClassFile}
    {changes : Changes} (hs : s.pool.Indexed)
    (h : (rewriteClassFile resource c).outcome s = (.ok (c', changes), s')) :
    changes.resource.output = resource ∨ ∃ name new, s.pool.className c.thisClass = .ok name ∧
      s.rules.renameType name = some new ∧
      changes.resource.output = Relocation.target resource name new := by
  obtain ⟨hname, -, -, hthis, -⟩ := rewriteClassFile_stages h
  rcases renameThis_resource hs hname hthis with hout | ⟨new, hnew, hout⟩
  · exact .inl hout
  · exact .inr ⟨_, new, hname, hnew, hout⟩

end Rewrite

namespace Table

open Text Relocation

variable {t : Table} {resource : String} {bytes : Bytes} {out : Transformed}

theorem transform_name (h : (t.transform resource bytes).1 = .ok (some out)) :
    out.name = out.changes.resource.output := by
  unfold transform at h
  split at h
  · cases h
  · cases h
  · split at h
    · cases h
    · split at h
      · split at h
        · cases h
        · cases h
          rfl
      · cases h

/-- A resource keeps its name, or goes where the new name of its class calls for. -/
theorem transform_resource (h : (t.transform resource bytes).1 = .ok (some out)) :
    out.name = resource ∨ ∃ c name new, ClassFile.parse bytes = .ok c ∧ c.name = .ok name ∧
      t.renameType name = some new ∧ out.name = Relocation.target resource name new := by
  obtain ⟨c, c', hc, hr, -⟩ := transform_eq_ok h
  obtain ⟨c₁, s', ho, -⟩ := renameClassFile_eq_ok hr
  rw [transform_name h]
  rcases Rewrite.rewriteClassFile_resource (ClassFile.indexed_of_parse hc) ho with
    hout | ⟨name, new, hname, hnew, hout⟩
  · exact .inl hout
  · exact .inr ⟨c, name, new, hc, hname, hnew, hout⟩

/-- A resource that is renamed stays inside, unless its class leads up and lies elsewhere. -/
theorem transform_inside (ht : t.NamesPackages) (hresource : Inside resource.toList)
    (hclass : ∀ c name, ClassFile.parse bytes = .ok c → c.name = .ok name →
      up ∉ directories name.toList ∨ LiesAt resource name)
    (h : (t.transform resource bytes).1 = .ok (some out)) : Inside out.name.toList := by
  rcases transform_resource h with hout | ⟨c, name, new, hc, hname, hnew, hout⟩
  · rwa [hout]
  · obtain ⟨hstart, hup⟩ := ht.renameType hnew
    rw [hout]
    refine target_inside hresource hstart fun hmem => ?_
    rcases hclass c name hc hname with hnone | hlies
    · exact hnone (hup hmem)
    · exact hresource.2 (hlies.segments (hup hmem))

theorem transform_inside_lengthening :
    Inside "WEB-INF/classes/A.class".toList ∧
      ∃ out, (lengthening.transform "WEB-INF/classes/A.class" repeatedName).1 = .ok (some out) ∧
        out.name = "WEB-INF/classes/lib/inner/A.class" ∧ Inside out.name.toList := by
  have hrules : lengthening.NamesPackages :=
    ⟨by decide +kernel, by decide +kernel, by decide +kernel⟩
  have hresource : Inside "WEB-INF/classes/A.class".toList :=
    ⟨by decide +kernel, by decide +kernel⟩
  have hname : (ClassFile.parse repeatedName).toOption.bind (·.name.toOption) = some "p/q/A" := by
    decide +kernel
  have h : (lengthening.transform "WEB-INF/classes/A.class" repeatedName).1.toOption.join.map
      (·.name) = some "WEB-INF/classes/lib/inner/A.class" := by decide +kernel
  obtain ⟨out, hr, hout⟩ := exists_transformed h
  refine ⟨hresource, out, hr, hout, transform_inside hrules hresource (fun c name hc hn => ?_) hr⟩
  rw [hc] at hname
  change c.name.toOption = some "p/q/A" at hname
  rw [hn] at hname
  cases hname
  exact .inl (by decide +kernel)

/-! ## Ways out -/

/-- The rules `p.a` to `.q`, and `r.s` with all below it to `t.u`. -/
def leaving : Table := .ofSorted [⟨"p.a", ".q", false⟩, ⟨"r.s", "t.u", true⟩]

/-- The class `p.a.X`. -/
def plainClass : Bytes :=
  [0xCA, 0xFE, 0xBA, 0xBE, 0, 0, 0, 55, 0, 3,
   1, 0, 5, 0x70, 0x2F, 0x61, 0x2F, 0x58,
   7, 0, 1,
   0, 1, 0, 2, 0, 0, 0, 0, 0, 0, 0, 0, 0, 0]

/-- A class with the name `r/s/../../../Y`. -/
def climbingClass : Bytes :=
  [0xCA, 0xFE, 0xBA, 0xBE, 0, 0, 0, 55, 0, 3,
   1, 0, 14, 0x72, 0x2F, 0x73, 0x2F, 0x2E, 0x2E, 0x2F, 0x2E, 0x2E, 0x2F, 0x2E, 0x2E, 0x2F, 0x59,
   7, 0, 1,
   0, 1, 0, 2, 0, 0, 0, 0, 0, 0, 0, 0, 0, 0]

/-- A replacement can lead to the root, and a class that lies elsewhere can lead up. -/
theorem transform_outside :
    ((Builder.rename {} "p.a" ".q").rename "r.s.*" "t.u").build = .ok leaving ∧
      (Inside "p/a/X.class".toList ∧
        ∃ out, (leaving.transform "p/a/X.class" plainClass).1 = .ok (some out) ∧
          out.name = "/q/X.class" ∧ out.name.toList.head? = some '/') ∧
      Inside "X.class".toList ∧
        ∃ out, (leaving.transform "X.class" climbingClass).1 = .ok (some out) ∧
          out.name = "t/u/../../../Y.class" ∧ up ∈ segments '/' out.name.toList := by
  have hrules : ((Builder.rename {} "p.a" ".q").rename "r.s.*" "t.u").rules = leaving.rules := by
    decide +kernel
  have hforward : ((Builder.rename {} "p.a" ".q").rename "r.s.*" "t.u").forward = .ok leaving := by
    unfold Builder.forward
    rw [hrules]
    exact make_parts leaving rfl rfl
  have hbuild : ((Builder.rename {} "p.a" ".q").rename "r.s.*" "t.u").build = .ok leaving := by
    unfold Builder.build
    rw [hforward]
    rfl
  have hroot : (leaving.transform "p/a/X.class" plainClass).1.toOption.join.map (·.name) =
      some "/q/X.class" := by decide +kernel
  have hup : (leaving.transform "X.class" climbingClass).1.toOption.join.map (·.name) =
      some "t/u/../../../Y.class" := by decide +kernel
  obtain ⟨out, hr, hout⟩ := exists_transformed hroot
  obtain ⟨out', hr', hout'⟩ := exists_transformed hup
  refine ⟨hbuild, ⟨⟨by decide +kernel, by decide +kernel⟩, out, hr, hout, ?_⟩,
    ⟨by decide +kernel, by decide +kernel⟩, out', hr', hout', ?_⟩
  · rw [hout]
    decide +kernel
  · rw [hout']
    decide +kernel

end Table

end Repackage
