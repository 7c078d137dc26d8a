import Repackage.Files.Tree
import Repackage.Proofs.Encoding.Pieces

/-!
# What an action on files leaves as it was

Where a path leads is a matter of its names alone (`Path.destination`), as long as it leads
anywhere. `Alters places t t'` says that `t'` has all directories of `t` and the same files, but
for those at `places`: creating directories alters no place, and writing a file only its own. So
what a path reads stays the same under all that does not write where it leads
(`Alters.readFile`).
-/

namespace Repackage

namespace Path

/-- The place that a name leads to from a directory. -/
def enter (place : Place) (name : String) : Place :=
  if name = ".." then place.dropLast else place ++ [name]

/-- Where a path leads from a working directory, if it leads anywhere. -/
def destination (p : Path) (working : Place) : Place :=
  p.names.foldl enter (if p.absolute then [] else working)

end Path

namespace FileTree

variable {t t' t'' : FileTree} {p : Path} {place q : Place} {node : Node} {bytes : Bytes}

/-! ## Nodes -/

theorem node?_put_self (h : place ≠ []) : (t.put place node).node? place = some node := by
  rw [node?, if_neg (by simpa using h), put, List.lookup_cons_self]

theorem node?_put_of_ne (h : q ≠ place) : (t.put place node).node? q = t.node? q := by
  have hfilter : ∀ nodes : List (Place × Node),
      (nodes.filter (·.1 ≠ place)).lookup q = nodes.lookup q := by
    intro nodes
    induction nodes with
    | nil => rfl
    | cons entry nodes ih =>
      by_cases he : entry.1 = place
      · have hq : (q == entry.1) = false := beq_false_of_ne (he ▸ h)
        rw [List.filter_cons_of_neg (by simpa using he), ih, List.lookup_cons, hq]
      · rw [List.filter_cons_of_pos (by simpa using he), List.lookup_cons, List.lookup_cons, ih]
  unfold node? put
  rw [List.lookup_cons, beq_false_of_ne h, hfilter]

/-! ## Paths -/

theorem follow_cons_eq_ok {name : String} {names : List String} :
    t.follow place (name :: names) = .ok q ↔
      t.node? place = some .directory ∧ ¬ name.utf8ByteSize > maxName ∧
        t.follow (Path.enter place name) names = .ok q := by
  rw [follow, Path.enter]
  cases t.node? place with
  | none => simp
  | some node =>
    cases node with
    | file bytes => simp
    | directory =>
      by_cases hlength : name.utf8ByteSize > maxName
      · simp [hlength]
      · by_cases hup : name = ".."
        · rw [if_pos hup, if_pos hup]
          simp [hlength]
        · rw [if_neg hup, if_neg hup]
          simp [hlength]

theorem follow_eq_ok {names : List String} (h : t.follow place names = .ok q) :
    names.foldl Path.enter place = q := by
  induction names generalizing place with
  | nil =>
    cases h
    rfl
  | cons name names ih =>
    obtain ⟨-, -, h⟩ := follow_cons_eq_ok.1 h
    exact ih h

theorem locate_eq_ok : t.locate p = .ok q ↔
    ¬ p.text.toList.any (·.toNat = 0) = true ∧ ¬ p.text.utf8ByteSize > maxPath ∧
      t.follow (if p.absolute then [] else t.working) p.names = .ok q := by
  unfold locate
  by_cases hnull : p.text.toList.any (·.toNat = 0) = true
  · simp [hnull]
  · by_cases hlength : p.text.utf8ByteSize > maxPath
    · simp [hnull, hlength]
    · rw [if_neg hnull, if_neg hlength]
      exact ⟨fun h => ⟨hnull, hlength, h⟩, fun h => h.2.2⟩

theorem destination_of_locate (h : t.locate p = .ok q) : p.destination t.working = q := by
  obtain ⟨-, -, h⟩ := locate_eq_ok.1 h
  exact follow_eq_ok h

theorem readFile_eq_ok : t.readFile p = .ok bytes ↔
    ∃ q, t.locate p = .ok q ∧ t.node? q = some (.file bytes) ∧ p.isDirectory = false := by
  constructor
  · intro h
    obtain ⟨node, hstat, h⟩ := Writer.bind_eq_ok h
    obtain ⟨q, hq, hstat⟩ := Writer.bind_eq_ok hstat
    split at hstat
    · cases hstat
    · cases hstat
    · rename_i node' hnode hfile
      cases hstat
      split at h
      · cases h
        exact ⟨q, hq, hnode, eq_false_of_ne_true fun e => hfile _ e rfl⟩
      · cases h
  · rintro ⟨q, hq, hnode, hfile⟩
    unfold readFile stat
    simp only [hq, bind, Except.bind, hnode, hfile]
    rfl

/-! ## Trees that differ at some places -/

/-- The directories of `t` are there in `t'`, and the files are the same but for those at
`places`. -/
structure Alters (places : List Place) (t t' : FileTree) : Prop where
  working : t'.working = t.working
  directories : ∀ q, t.node? q = some .directory → t'.node? q = some .directory
  files : ∀ q bytes, q ∉ places → (t'.node? q = some (.file bytes) ↔ t.node? q = some (.file bytes))

namespace Alters

variable {places places' : List Place}

theorem refl (t : FileTree) : Alters [] t t := ⟨rfl, fun _ h => h, fun _ _ _ => .rfl⟩

theorem trans (h : Alters places t t') (h' : Alters places' t' t'') :
    Alters (places ++ places') t t'' where
  working := h'.working.trans h.working
  directories q hq := h'.directories q (h.directories q hq)
  files q bytes hq := by
    rw [List.mem_append, not_or] at hq
    exact (h'.files q bytes hq.2).trans (h.files q bytes hq.1)

theorem follow (h : Alters places t t') {names : List String}
    (hf : t.follow place names = .ok q) : t'.follow place names = .ok q := by
  induction names generalizing place with
  | nil => exact hf
  | cons name names ih =>
    obtain ⟨hdirectory, hlength, hf⟩ := follow_cons_eq_ok.1 hf
    exact follow_cons_eq_ok.2 ⟨h.directories place hdirectory, hlength, ih hf⟩

theorem locate (h : Alters places t t') (hp : t.locate p = .ok q) : t'.locate p = .ok q := by
  obtain ⟨hnull, hlength, hf⟩ := locate_eq_ok.1 hp
  refine locate_eq_ok.2 ⟨hnull, hlength, ?_⟩
  rw [h.working]
  exact h.follow hf

/-- A file stays as it is unless its place is written to. -/
theorem readFile (h : Alters places t t') (hr : t.readFile p = .ok bytes)
    (hp : p.destination t.working ∉ places) : t'.readFile p = .ok bytes := by
  obtain ⟨q, hq, hnode, hfile⟩ := readFile_eq_ok.1 hr
  rw [destination_of_locate hq] at hp
  exact readFile_eq_ok.2 ⟨q, h.locate hq, (h.files q bytes hp).2 hnode, hfile⟩

end Alters

theorem alters_put (h : t.node? place ≠ some .directory) (node : Node) :
    Alters [place] t (t.put place node) where
  working := rfl
  directories q hq := by
    have hne : q ≠ place := fun e => h (e ▸ hq)
    rwa [node?_put_of_ne hne]
  files q bytes hq := by
    rw [node?_put_of_ne fun e => hq (List.mem_singleton.2 e)]

/-! ## Actions -/

theorem writeFile_eq_ok (h : t.writeFile p bytes = .ok t') :
    Alters [p.destination t.working] t t' ∧ t'.readFile p = .ok bytes := by
  obtain ⟨q, hq, h⟩ := Writer.bind_eq_ok h
  split at h
  · cases h
  · rename_i hfree
    rw [Bool.or_eq_true, decide_eq_true_eq, not_or, Bool.not_eq_true] at hfree
    cases h
    have halters := alters_put hfree.1 (.file bytes)
    rw [destination_of_locate hq]
    refine ⟨halters, readFile_eq_ok.2 ⟨q, halters.locate hq, node?_put_self ?_, hfree.2⟩⟩
    rintro rfl
    exact hfree.1 rfl

theorem createDirectory_alters (h : t.createDirectory p = .ok t') : Alters [] t t' := by
  obtain ⟨q, hq, h⟩ := Writer.bind_eq_ok h
  split at h
  · cases h
  · rename_i hnone
    rw [Bool.not_eq_true, Option.isSome_eq_false_iff, Option.isNone_iff_eq_none] at hnone
    cases h
    have halters := alters_put (by rw [hnone]; nofun) .directory
    refine ⟨rfl, halters.directories, fun q' bytes _ => ?_⟩
    by_cases he : q' = q
    · subst he
      have hroot : q' ≠ [] := by
        rintro rfl
        cases hnone
      rw [node?_put_self hroot, hnone]
      simp
    · exact halters.files q' bytes fun hmem => he (List.mem_singleton.1 hmem)

theorem ensureDirectory_alters (t : FileTree) (p : Path) : Alters [] t (t.ensureDirectory p).1 := by
  unfold ensureDirectory
  split
  · rename_i hcreated
    exact createDirectory_alters hcreated
  · exact .refl t

theorem createDirectoriesAt_alters (t : FileTree) (pieces : List String) :
    Alters [] t (t.createDirectoriesAt pieces).1 := by
  induction pieces generalizing t with
  | nil => exact .refl t
  | cons piece above ih =>
    unfold createDirectoriesAt
    split
    · exact ih t
    · -- the directory itself, those above it, and the directory again
      have hfirst := ensureDirectory_alters t ⟨(piece :: above).reverse⟩
      simp only
      split
      · rename_i t₁ hmade
        rwa [hmade] at hfirst
      · rename_i t₁ e hmade
        rw [hmade] at hfirst
        split
        · have habove := hfirst.trans (ih t₁)
          split
          · rename_i t₂ hmade
            rw [hmade] at habove
            exact habove.trans (ensureDirectory_alters t₂ _)
          · rename_i t₂ e' hmade
            rwa [hmade] at habove
        · exact hfirst

theorem createDirectories_alters (t : FileTree) (p : Path) :
    Alters [] t (t.createDirectories p).1 :=
  createDirectoriesAt_alters t _

end FileTree

end Repackage
