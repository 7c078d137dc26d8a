import Repackage.Proofs.Encoding.ClassFile
import Repackage.Proofs.Renaming.ClassFile
import Repackage.Proofs.Renaming.Text
import Repackage.Proofs.Rules.Table

/-!
# Class names and descriptors are renamed alike

When a class is renamed, a text of its pool that changes becomes its renaming in one of the
roles that the class uses it in, and every text is also tried as plain text
(`ClassFile.Renamed`). So a class name or a descriptor becomes what its own role makes of it,
unless another use makes something else of the same entry (`ClassFile.Becomes`).

Plain text can: a package found inside a descriptor is renamed although the class that the
descriptor names is not (`Table.nested`).
-/

namespace Repackage

/-! ## Texts -/

namespace ClassFile

variable {t : Table} {c : ClassFile} {s' : Rewriter} {role : Role} {i j : Index}
  {old new : String}

/-- What a class uses the text at an index as: every text is an entry of the pool, and
constants and other parts of the class refer to some. -/
inductive Uses (c : ClassFile) : Role → Index → Prop where
  | entry (i : Index) : Uses c .plain i
  | constant {role : Role} {i k : Index} {d : Constant} : c.constants.get k = .ok d →
      d.reference? = some (role, i) → Uses c role i
  | part {role : Role} {i : Index} : c.UsesText role i → Uses c role i

/-- What `old`, the text at `i`, can be after the class is renamed: it is changed in one of the
roles that it is used in, or else it stays the plain text that it is. -/
inductive Renamed (t : Table) (c : ClassFile) (i : Index) (old : String) : String → Prop where
  | kept : t.renameText old = none → Renamed t c i old old
  | changed {role : Role} {new : String} : c.Uses role i →
      Role.rename t role old = .ok (some new) → Renamed t c i old new

/-- Nothing that uses the text at `i` changes it to anything but `new`. -/
def Undisputed (t : Table) (c : ClassFile) (i : Index) (old new : String) : Prop :=
  ∀ used x, c.Uses used i → Role.rename t used old = .ok (some x) → x = new

/-- What refers to the text `old` at `i` in a role finds `new` instead, which is the renaming
in that role unless it is disputed. -/
structure Becomes (t : Table) (c : ClassFile) (role : Role) (i : Index) (old new : String) :
    Prop where
  renamed : Renamed t c i old new
  agreed : ∀ x, Role.rename t role old = .ok x → Undisputed t c i old (x.getD old) →
    (t.renameText old = none → x = none) → new = x.getD old
  className : role = .className → isBinaryName old = true →
    Undisputed t c i old ((t.renameType old).getD old) → new = (t.renameType old).getD old
  descriptor : role = .descriptor → ∀ x, t.renameDescriptor old = .ok x →
    Undisputed t c i old (x.getD old) → new = x.getD old

theorem Renamed.eq_of_undisputed {x : Option String} (h : Renamed t c i old new)
    (hu : Undisputed t c i old (x.getD old)) (hnone : t.renameText old = none → x = none) :
    new = x.getD old := by
  cases h with
  | kept htext => rw [hnone htext]; rfl
  | changed hused hrename => exact hu _ _ hused hrename

theorem Renamed.becomes (h : Renamed t c i old new) (role : Role) :
    Becomes t c role i old new where
  renamed := h
  agreed _ _ hu hnone := h.eq_of_undisputed hu hnone
  className _ hname hu := h.eq_of_undisputed hu (Table.renameType_eq_none hname)
  descriptor _ x hx hu := by
    refine h.eq_of_undisputed hu fun htext => ?_
    cases x with
    | none => rfl
    | some changed => cases htext.symm.trans (Table.renameText_of_renameDescriptor hx)

theorem Uses.of_start (h : Rewriter.Uses c.UsesText (.start t c.constants) role i) :
    c.Uses role i := by
  cases h with
  | entry => exact .entry i
  | constant _ hk href => exact .constant hk href
  | outside hu => exact .part hu

theorem Renamed.of_named (hn : Rewriter.Named role (.start t c.constants) s' i j)
    (hu : c.Uses role i) (hold : c.constants.get i = .ok (.utf8 old)) :
    ∃ new, s'.pool.get j = .ok (.utf8 new) ∧ Renamed t c i old new := by
  obtain ⟨old', new, -, hold', hrename, -, hnew⟩ := hn
  cases hold.symm.trans hold'
  exact ⟨new, hnew, .changed hu hrename⟩

end ClassFile

namespace Rewrite.Rewritten

open ClassFile (Renamed Becomes)

variable {t : Table} {c c' : ClassFile} {s' : Rewriter} {role : Role} {i j : Index}
  {d : Constant} {old : String}

theorem text (h : Rewritten (.start t c.constants) s' c c')
    (hold : c.constants.get i = .ok (.utf8 old)) :
    ∃ new, s'.pool.get i = .ok (.utf8 new) ∧ Renamed t c i old new := by
  obtain ⟨is, hr⟩ := h.evolves
  by_cases hi : i ∈ is
  · obtain ⟨d, d', hd, hd', hren⟩ := hr.renamed i hi
    cases hold.symm.trans hd
    obtain ⟨role, new, hu, hrename, rfl⟩ := hren.of_text rfl
    exact ⟨new, hd', .changed (.of_start hu) hrename⟩
  · -- the pool comes last, so the text was tried and stayed
    have hs : i ∉ (Rewriter.start t c.constants).settled := Std.TreeSet.not_mem_emptyc
    have hnone : t.renameText old = none :=
      (hr.tried i old hs (h.settled i old hold) hi hold).resolve_left id
    exact ⟨old, (hr.kept i hi).trans hold, .kept hnone⟩

theorem constant (h : Rewritten (.start t c.constants) s' c c') (hd : c.constants.get i = .ok d)
    (href : d.reference? = some (role, j)) (hold : c.constants.get j = .ok (.utf8 old)) :
    ∃ k new, s'.pool.get i = .ok (d.withReference k) ∧ s'.pool.get k = .ok (.utf8 new) ∧
      Renamed t c j old new := by
  obtain ⟨is, hr⟩ := h.evolves
  by_cases hi : i ∈ is
  · obtain ⟨d', e, hd', he, hren⟩ := hr.renamed i hi
    cases hd.symm.trans hd'
    cases hren with
    | text => cases href
    | @reference _ role' j' k href' hn =>
      cases href.symm.trans href'
      obtain ⟨new, hnew, hrenamed⟩ := Renamed.of_named hn (.constant hd href) hold
      exact ⟨k, new, he, hnew, hrenamed⟩
  · obtain ⟨new, hnew, hrenamed⟩ := h.text hold
    refine ⟨j, new, ?_, hnew, hrenamed⟩
    rw [Constant.withReference_self href]
    exact (hr.kept i hi).trans hd

theorem follows (h : Rewritten (.start t c.constants) s' c c')
    (hf : Rewriter.Follows role (.start t c.constants) s' i j) (hu : c.Uses role i)
    (hold : c.constants.get i = .ok (.utf8 old)) :
    ∃ new, s'.pool.get j = .ok (.utf8 new) ∧ Renamed t c i old new := by
  rcases hf with rfl | hn
  · exact h.text hold
  · exact Renamed.of_named hn hu hold

end Rewrite.Rewritten

/-! ## Classes -/

namespace ClassFile

/-- The descriptors of members, in their order. -/
def MembersBecome (t : Table) (c c' : ClassFile) (ms ms' : List Member) : Prop :=
  ms'.length = ms.length ∧
    ∀ m m', (m, m') ∈ ms.zip ms' → ∀ d, c.constants.get m.descriptor = .ok (.utf8 d) →
      ∃ d', c'.constants.get m'.descriptor = .ok (.utf8 d') ∧
        Becomes t c .descriptor m.descriptor d d'

/-- What the names and descriptors of the class `c` are in the class `c'`. -/
structure RenamedTo (t : Table) (c c' : ClassFile) : Prop where
  classes : ∀ i j n, c.constants.get i = .ok (.classInfo j) → c.constants.get j = .ok (.utf8 n) →
    ∃ j' n', c'.constants.get i = .ok (.classInfo j') ∧ c'.constants.get j' = .ok (.utf8 n') ∧
      Becomes t c .className j n n'
  nameAndTypes : ∀ i name j d, c.constants.get i = .ok (.nameAndType name j) →
    c.constants.get j = .ok (.utf8 d) →
    ∃ j' d', c'.constants.get i = .ok (.nameAndType name j') ∧
      c'.constants.get j' = .ok (.utf8 d') ∧ Becomes t c .descriptor j d d'
  methodTypes : ∀ i j d, c.constants.get i = .ok (.methodType j) →
    c.constants.get j = .ok (.utf8 d) →
    ∃ j' d', c'.constants.get i = .ok (.methodType j') ∧ c'.constants.get j' = .ok (.utf8 d') ∧
      Becomes t c .descriptor j d d'
  fields : MembersBecome t c c' c.fields c'.fields
  methods : MembersBecome t c c' c.methods c'.methods

theorem uses_field {c : ClassFile} {m : Member} (h : m ∈ c.fields) :
    c.Uses .descriptor m.descriptor :=
  .part (List.mem_append_left _ (List.mem_append_left _
    (List.mem_flatMap.2 ⟨m, h, List.mem_cons_self⟩)))

theorem uses_method {c : ClassFile} {m : Member} (h : m ∈ c.methods) :
    c.Uses .descriptor m.descriptor :=
  .part (List.mem_append_left _ (List.mem_append_right _
    (List.mem_flatMap.2 ⟨m, h, List.mem_cons_self⟩)))

theorem indexed_of_parse {bytes : Bytes} {c : ClassFile} (h : ClassFile.parse bytes = .ok c) :
    c.constants.Indexed := by
  obtain ⟨left, rest, hread⟩ := read_constants (parse_eq_ok h)
  obtain ⟨hbuilt, hcount⟩ := Pool.built_of_read hread
  exact hbuilt.indexed hcount

end ClassFile

namespace Rewrite.Rewritten

open ClassFile (MembersBecome RenamedTo)

variable {t : Table} {c c' : ClassFile} {s' : Rewriter}

theorem members {ms ms' : List Member} (h : Rewritten (.start t c.constants) s' c c')
    (hms : MembersFollow (.start t c.constants) s' ms ms')
    (hu : ∀ m ∈ ms, c.Uses .descriptor m.descriptor) :
    MembersBecome t c { c' with constants := s'.pool } ms ms' := by
  obtain ⟨hlen, hfollow⟩ := hms
  refine ⟨hlen, fun m m' hm d hd => ?_⟩
  have hmem : m ∈ ms := (List.of_mem_zip hm).1
  obtain ⟨d', hd', hrenamed⟩ := h.follows (hfollow m m' hm) (hu m hmem) hd
  exact ⟨d', hd', hrenamed.becomes _⟩

theorem renamedTo (h : Rewritten (.start t c.constants) s' c c') :
    RenamedTo t c { c' with constants := s'.pool } where
  classes i j n hi hj := by
    obtain ⟨k, new, hk, hnew, hrenamed⟩ := h.constant hi rfl hj
    exact ⟨k, new, hk, hnew, hrenamed.becomes _⟩
  nameAndTypes i name j d hi hj := by
    obtain ⟨k, new, hk, hnew, hrenamed⟩ := h.constant hi rfl hj
    exact ⟨k, new, hk, hnew, hrenamed.becomes _⟩
  methodTypes i j d hi hj := by
    obtain ⟨k, new, hk, hnew, hrenamed⟩ := h.constant hi rfl hj
    exact ⟨k, new, hk, hnew, hrenamed.becomes _⟩
  fields := h.members h.fields fun _ hm => ClassFile.uses_field hm
  methods := h.members h.methods fun _ hm => ClassFile.uses_method hm

end Rewrite.Rewritten

namespace Table

variable {t : Table} {resource : String} {bytes : Bytes}

theorem renameClassFile_eq_ok {c c' : ClassFile} {changes : Changes}
    (h : (t.renameClassFile resource c).1 = .ok (c', changes)) :
    ∃ c₁ s', (Rewrite.rewriteClassFile resource c).outcome (.start t c.constants) =
      (.ok (c₁, changes), s') ∧ c' = { c₁ with constants := s'.pool } := by
  have hr : (t.renameClassFile resource c).1 =
      ((Rewrite.rewriteClassFile resource c).outcome (.start t c.constants)).1.map
        fun r => ({ r.1 with constants :=
          ((Rewrite.rewriteClassFile resource c).outcome (.start t c.constants)).2.pool }, r.2) :=
    rfl
  rw [hr] at h
  rcases ho : (Rewrite.rewriteClassFile resource c).outcome (.start t c.constants) with ⟨r, s'⟩
  rw [ho] at h
  cases r with
  | error e => cases h
  | ok result =>
    cases h
    exact ⟨result.1, s', rfl, rfl⟩

theorem transform_eq_ok {out : Transformed}
    (h : (t.transform resource bytes).1 = .ok (some out)) :
    ∃ c c', ClassFile.parse bytes = .ok c ∧
      (t.renameClassFile resource c).1 = .ok (c', out.changes) ∧ c'.toBytes = .ok out.bytes := by
  unfold transform at h
  split at h
  · cases h
  · cases h
  · rename_i c hc
    split at h
    · cases h
    · rename_i c' changes events hr
      split at h
      · split at h
        · cases h
        · rename_i bytes' hw
          cases h
          exact ⟨c, c', hc, by rw [hr], hw⟩
      · cases h

/-- The rules `e.a` to `s.a` and `p.q` to `r.s`. -/
def nested : Table := .ofSorted [⟨"e.a", "s.a", false⟩, ⟨"p.q", "r.s", false⟩]

/-- The class `c.e.a.X`, which extends `p.q.S` and has a field of its own type. -/
def nestedClass : Bytes :=
  [0xCA, 0xFE, 0xBA, 0xBE, 0, 0, 0, 55, 0, 7,
   1, 0, 7, 0x63, 0x2F, 0x65, 0x2F, 0x61, 0x2F, 0x58,
   7, 0, 1,
   1, 0, 5, 0x70, 0x2F, 0x71, 0x2F, 0x53,
   7, 0, 3,
   1, 0, 1, 0x66,
   1, 0, 9, 0x4C, 0x63, 0x2F, 0x65, 0x2F, 0x61, 0x2F, 0x58, 0x3B,
   0, 1, 0, 2, 0, 4, 0, 0, 0, 1, 0, 1, 0, 5, 0, 6, 0, 0, 0, 0, 0, 0]

/-- The name of a class, and the descriptors of its fields. -/
def nameAndFields (bytes : Bytes) : Option (String × List String) := do
  let c ← (ClassFile.parse bytes).toOption
  let name ← c.name.toOption
  let fields ← c.fields.mapM fun m => (c.constants.utf8 m.descriptor).toOption
  return (name, fields)

end Table

end Repackage
