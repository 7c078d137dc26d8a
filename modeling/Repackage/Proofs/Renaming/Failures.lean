import Repackage.Proofs.Encoding.Lengths
import Repackage.Proofs.Renaming.Changes

/-!
# When renaming a class fails

A class that cannot be read or renamed is passed through, so there are two errors only: a constant
of an unknown kind, and a class that changed but cannot be written. Renaming keeps the skeleton of a
class that was read, so all lengths in it stay as they were except for those of its texts: a text
that became too long is the one cause for a class not to be written (`Table.transform_fails`).
-/

namespace Repackage

theorem Pool.mem_constants_iff {p : Pool} {c : Constant} (hp : p.count ≤ 0x10000) :
    c ∈ p.toList ↔ ∃ i, p.get i = .ok c := by
  rw [toList_eq]
  constructor
  · intro h
    obtain ⟨⟨i, c⟩, hmem, rfl⟩ := List.mem_map.1 h
    exact ⟨i, get_of_mem_entries hp hmem⟩
  · rintro ⟨i, hi⟩
    exact List.mem_map.2 ⟨(i, c), mem_entries_of_get hi, rfl⟩

namespace Table

variable {t : Table} {resource : String} {bytes : Bytes} {c c' : ClassFile} {changes : Changes}

theorem transform_of_unknownConstantTag {tag : UInt8} {i : Index}
    (h : ClassFile.parse bytes = .error (.unknownConstantTag tag i)) :
    (t.transform resource bytes).1 = .error (.unknownConstantTag resource tag i) := by
  unfold transform
  rw [h]

theorem transform_of_toBytes_error {cause : LengthError} (hc : ClassFile.parse bytes = .ok c)
    (hr : (t.renameClassFile resource c).1 = .ok (c', changes)) (hany : changes.any = true)
    (hw : c'.toBytes = .error cause) :
    (t.transform resource bytes).1 = .error (.write resource cause) := by
  rcases h : t.renameClassFile resource c with ⟨result, events⟩
  rw [h] at hr
  cases hr
  unfold transform
  simp only [hc, h, hany, if_true, hw]

/-- The two ways to fail. -/
theorem transform_eq_error {e : TransformError} (h : (t.transform resource bytes).1 = .error e) :
    (∃ tag i, ClassFile.parse bytes = .error (.unknownConstantTag tag i) ∧
      e = .unknownConstantTag resource tag i) ∨
    ∃ c c' changes cause, ClassFile.parse bytes = .ok c ∧
      (t.renameClassFile resource c).1 = .ok (c', changes) ∧ changes.any = true ∧
      c'.toBytes = .error cause ∧ e = .write resource cause := by
  unfold transform at h
  split at h
  · rename_i tag i hparse
    cases h
    exact .inl ⟨tag, i, hparse, rfl⟩
  · cases h
  · rename_i c hc
    split at h
    · cases h
    · rename_i c' changes events hr
      split at h
      · rename_i hany
        split at h
        · rename_i cause hw
          cases h
          exact .inr ⟨c, c', changes, cause, hc, by rw [hr], hany, hw, rfl⟩
        · cases h
      · cases h

/-- What became of a class that was read cannot be written exactly if a text in it is too long. -/
theorem renameClassFile_toBytes_fails (hc : ClassFile.parse bytes = .ok c)
    (hr : (t.renameClassFile resource c).1 = .ok (c', changes)) :
    (∃ cause, c'.toBytes = .error cause) ↔
      ∃ i text, c'.constants.get i = .ok (.utf8 text) ∧
        65535 < (ModifiedUtf8.encode text).length := by
  have hread := ClassFile.readFrom_of_parse hc
  obtain ⟨hskeleton, hshape⟩ := renameClassFile_skeleton hc hr
  have hcount : c'.constants.count ≤ 0x10000 := Pool.count_eq_of_shape hshape ▸ hread.count
  rw [ClassFile.toBytes_fails hskeleton hread.written]
  constructor
  · rintro ⟨text, hmem, hlong⟩
    obtain ⟨i, hi⟩ := (Pool.mem_constants_iff hcount).1 hmem
    exact ⟨i, text, hi, hlong⟩
  · rintro ⟨i, text, hi, hlong⟩
    exact ⟨text, (Pool.mem_constants_iff hcount).2 ⟨i, hi⟩, hlong⟩

/-- Renaming a class fails exactly if the class has a constant of an unknown kind, or if it changes
and a text in it becomes too long. -/
theorem transform_fails (t : Table) (resource : String) (bytes : Bytes) :
    (∀ tag i, (t.transform resource bytes).1 = .error (.unknownConstantTag resource tag i) ↔
      ClassFile.parse bytes = .error (.unknownConstantTag tag i)) ∧
    ((∃ cause, (t.transform resource bytes).1 = .error (.write resource cause)) ↔
      ∃ c c' changes, ClassFile.parse bytes = .ok c ∧
        (t.renameClassFile resource c).1 = .ok (c', changes) ∧ changes.any = true ∧
        ∃ i text, c'.constants.get i = .ok (.utf8 text) ∧
          65535 < (ModifiedUtf8.encode text).length) ∧
    ∀ e, (t.transform resource bytes).1 = .error e →
      (∃ tag i, e = .unknownConstantTag resource tag i) ∨ ∃ cause, e = .write resource cause := by
  refine ⟨fun tag i => ⟨fun h => ?_, transform_of_unknownConstantTag⟩, ⟨?_, ?_⟩, fun e h => ?_⟩
  · rcases transform_eq_error h with ⟨tag', i', hparse, e⟩ | ⟨_, _, _, _, _, _, _, _, e⟩
    · cases e
      exact hparse
    · cases e
  · rintro ⟨cause, h⟩
    rcases transform_eq_error h with ⟨_, _, _, e⟩ | ⟨c, c', changes, cause', hc, hr, hany, hw, -⟩
    · cases e
    · exact ⟨c, c', changes, hc, hr, hany, (renameClassFile_toBytes_fails hc hr).1 ⟨cause', hw⟩⟩
  · rintro ⟨c, c', changes, hc, hr, hany, hlong⟩
    obtain ⟨cause, hw⟩ := (renameClassFile_toBytes_fails hc hr).2 hlong
    exact ⟨cause, transform_of_toBytes_error hc hr hany hw⟩
  · rcases transform_eq_error h with ⟨tag, i, -, e⟩ | ⟨_, _, _, cause, _, _, _, _, e⟩
    · exact .inl ⟨tag, i, e⟩
    · exact .inr ⟨cause, e⟩

end Table

end Repackage
