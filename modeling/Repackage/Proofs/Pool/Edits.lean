import Repackage.Proofs.Pool.Layout

/-!
# Edits of a pool

A pool grows from the empty one by edits: constants are added, or added unless they are there, or
put in the place of others. Whatever the edit, it adds constants at the end or replaces a single one
(`Pool.edit_cases`), so the pools that edits lead to are those that can be built
(`Pool.built_edited`).

A constant that is asked for is found under the index that is handed out for it, as long as indices
do not run out (`Pool.get_internUtf8`, `Pool.get_intern`).
-/

namespace Repackage

namespace Pool

variable {p p' : Pool} {i : Index} {c old : Constant} {text name descriptor : String}

/-- What can be done to a pool. -/
inductive Edit where
  | push (c : Constant)
  | internUtf8 (text : String)
  | internClass (name : String)
  | internNameAndType (name descriptor : String)
  | replace (i : Index) (c : Constant)

/-- The pool that an edit leaves, also if it is a replacement that fails. -/
def edit (p : Pool) : Edit → Pool
  | .push c => p.push c
  | .internUtf8 text => (p.internUtf8 text).1
  | .internClass name => (p.internClass name).1
  | .internNameAndType name descriptor => (p.internNameAndType name descriptor).1
  | .replace i c => (p.exchange i c).2

def edited (edits : List Edit) : Pool := edits.foldl edit empty

/-! ## What an edit does -/

theorem internUtf8_eq (p : Pool) (text : String) :
    ∃ cs : List Constant, (p.internUtf8 text).1 = cs.foldl push p := by
  unfold internUtf8
  split
  · exact ⟨[], rfl⟩
  · exact ⟨[.utf8 text], rfl⟩

theorem intern_eq (p : Pool) (c : Constant) :
    ∃ cs : List Constant, (p.intern c).1 = cs.foldl push p := by
  unfold intern
  split
  · exact ⟨[], rfl⟩
  · exact ⟨[c], rfl⟩

theorem internClass_eq (p : Pool) (name : String) :
    p.internClass name = (p.internUtf8 name).1.intern (.classInfo (p.internUtf8 name).2) := rfl

theorem internNameAndType_eq (p : Pool) (name descriptor : String) :
    p.internNameAndType name descriptor =
      ((p.internUtf8 name).1.internUtf8 descriptor).1.intern
        (.nameAndType (p.internUtf8 name).2 ((p.internUtf8 name).1.internUtf8 descriptor).2) := rfl

/-- An edit adds constants at the end, or it is a replacement that succeeds. -/
theorem edit_cases (p : Pool) (e : Edit) :
    (∃ cs : List Constant, p.edit e = cs.foldl push p) ∨
      ∃ i c old, e = .replace i c ∧ p.replace i c = .ok (old, p.edit e) := by
  cases e with
  | push c => exact .inl ⟨[c], rfl⟩
  | internUtf8 text => exact .inl (internUtf8_eq p text)
  | internClass name =>
    obtain ⟨cs, hcs⟩ := internUtf8_eq p name
    obtain ⟨ds, hds⟩ := intern_eq (p.internUtf8 name).1 (.classInfo (p.internUtf8 name).2)
    refine .inl ⟨cs ++ ds, ?_⟩
    rw [edit, internClass_eq, hds, List.foldl_append, ← hcs]
  | internNameAndType name descriptor =>
    obtain ⟨cs, hcs⟩ := internUtf8_eq p name
    obtain ⟨ds, hds⟩ := internUtf8_eq (p.internUtf8 name).1 descriptor
    obtain ⟨es, hes⟩ := intern_eq ((p.internUtf8 name).1.internUtf8 descriptor).1
      (.nameAndType (p.internUtf8 name).2 ((p.internUtf8 name).1.internUtf8 descriptor).2)
    refine .inl ⟨cs ++ ds ++ es, ?_⟩
    rw [edit, internNameAndType_eq, hes, List.foldl_append, List.foldl_append, ← hcs, ← hds]
  | replace i c =>
    cases h : p.replace i c with
    | error e => exact .inl ⟨[], by rw [edit, exchange_of_error h, List.foldl_nil]⟩
    | ok r =>
      obtain ⟨old, p'⟩ := r
      refine .inr ⟨i, c, old, rfl, ?_⟩
      rw [edit, replace_eq_ok_iff.1 h]
      exact h

theorem built_edit (hp : p.Built) (e : Edit) : (p.edit e).Built := by
  obtain ⟨cs, h⟩ | ⟨i, c, old, -, h⟩ := edit_cases p e
  · rw [h]
    exact built_foldl_push cs hp
  · exact hp.replace h

theorem count_le_edit (p : Pool) (e : Edit) : p.count ≤ (p.edit e).count := by
  obtain ⟨cs, h⟩ | ⟨i, c, old, -, h⟩ := edit_cases p e
  · rw [h]
    exact count_le_foldl_push cs p
  · exact Nat.le_of_eq (count_eq_of_shape (shape_replace h)).symm

theorem built_foldl_edit (hp : p.Built) (edits : List Edit) : (edits.foldl edit p).Built := by
  induction edits generalizing p with
  | nil => exact hp
  | cons e edits ih => exact ih (built_edit hp e)

theorem built_edited (edits : List Edit) : (edited edits).Built := built_foldl_edit .empty edits

theorem count_le_foldl_edit (edits : List Edit) (p : Pool) :
    p.count ≤ (edits.foldl edit p).count := by
  induction edits generalizing p with
  | nil => exact Nat.le_refl _
  | cons e edits ih => exact Nat.le_trans (count_le_edit p e) (ih (p.edit e))

/-! ## The index handed out -/

theorem count_lt_push (p : Pool) (c : Constant) : p.count < (p.push c).count := by
  rw [count_push]
  unfold Constant.width
  split <;> omega

theorem count_le_internUtf8 (p : Pool) (text : String) : p.count ≤ (p.internUtf8 text).1.count := by
  obtain ⟨cs, hcs⟩ := internUtf8_eq p text
  rw [hcs]
  exact count_le_foldl_push cs p

theorem count_le_intern (p : Pool) (c : Constant) : p.count ≤ (p.intern c).1.count := by
  obtain ⟨cs, hcs⟩ := intern_eq p c
  rw [hcs]
  exact count_le_foldl_push cs p

theorem get_foldl_push_of_get (cs : List Constant) (h : p.get i = .ok c) :
    (cs.foldl push p).get i = .ok c := by
  induction cs generalizing p with
  | nil => exact h
  | cons d cs ih => exact ih (get_push_of_get h)

theorem get_internUtf8_of_get (h : p.get i = .ok c) (text : String) :
    (p.internUtf8 text).1.get i = .ok c := by
  obtain ⟨cs, hcs⟩ := internUtf8_eq p text
  rw [hcs]
  exact get_foldl_push_of_get cs h

theorem get_intern_of_get (h : p.get i = .ok old) (c : Constant) :
    (p.intern c).1.get i = .ok old := by
  obtain ⟨cs, hcs⟩ := intern_eq p c
  rw [hcs]
  exact get_foldl_push_of_get cs h

theorem indexed_internUtf8 (hp : p.Indexed) (hcount : p.count < 0x10000) (text : String) :
    (p.internUtf8 text).1.Indexed := by
  unfold internUtf8
  split
  · exact hp
  · exact hp.push hcount (.utf8 text)

theorem get_internUtf8 (hp : p.Indexed) (hcount : (p.internUtf8 text).1.count ≤ 0x10000) :
    (p.internUtf8 text).1.get (p.internUtf8 text).2 = .ok (.utf8 text) := by
  unfold internUtf8 at hcount ⊢
  cases hfind : p.find? text with
  | some i => exact hp hfind
  | none =>
    simp only [hfind] at hcount
    exact get_push_nextIndex (Nat.lt_of_lt_of_le (count_lt_push p _) hcount)

theorem get_intern (hcount : (p.intern c).1.count ≤ 0x10000) :
    (p.intern c).1.get (p.intern c).2 = .ok c := by
  unfold intern at hcount ⊢
  cases hindex : p.indexOf? c with
  | some i =>
    simp only [hindex] at hcount
    obtain ⟨e, hfind, rfl⟩ := Option.map_eq_some_iff.1 hindex
    have he : e.2 = c := by simpa using List.find?_some hfind
    have hmem : (e.1, c) ∈ p.entries := by
      rw [← he]
      exact List.mem_of_find?_eq_some hfind
    exact get_of_mem_entries hcount hmem
  | none =>
    simp only [hindex] at hcount
    exact get_push_nextIndex (Nat.lt_of_lt_of_le (count_lt_push p c) hcount)

end Pool

end Repackage
