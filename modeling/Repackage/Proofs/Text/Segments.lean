import Repackage.Text.Cut

/-!
# Segments of a text

The segments of a text and the separators between them are the text (`Text.join_segments`), and
texts without separators are the segments of what they are joined to (`Text.segments_join`). When
two texts are put together, the last segment of the one goes on with the first of the other
(`Text.segments_append`).
-/

namespace Repackage.Text

variable {sep : Char} {cs first : List Char} {others : List (List Char)}

theorem segments_ne_nil (sep : Char) (cs : List Char) : segments sep cs ≠ [] := by
  cases cs with
  | nil => exact List.cons_ne_nil _ _
  | cons c cs =>
    unfold segments
    split
    · exact List.cons_ne_nil _ _
    · split
      · exact List.cons_ne_nil _ _
      · exact List.cons_ne_nil _ _

theorem segments_cons_self (cs : List Char) : segments sep (sep :: cs) = [] :: segments sep cs := by
  rw [segments, if_pos rfl]

theorem segments_cons_of_ne {c : Char} (h : c ≠ sep) (cs : List Char) :
    segments sep (c :: cs) = (segments sep cs).modifyHead (c :: ·) := by
  rw [segments, if_neg h]
  cases hs : segments sep cs with
  | nil => exact absurd hs (segments_ne_nil sep cs)
  | cons s ss => rfl

/-- What stands after the last separator. -/
def lastSegment (sep : Char) (cs : List Char) : List Char := (segments sep cs).getLast?.getD []

theorem segments_eq_dropLast (cs : List Char) :
    segments sep cs = (segments sep cs).dropLast ++ [lastSegment sep cs] := by
  have hne := segments_ne_nil sep cs
  rw [lastSegment, List.getLast?_eq_some_getLast hne, Option.getD_some,
    List.dropLast_concat_getLast]

/-- The last segment of a text goes on with the first of what follows. -/
theorem segments_append (a b : List Char) :
    segments sep (a ++ b) =
      (segments sep a).dropLast ++ (segments sep b).modifyHead (lastSegment sep a ++ ·) := by
  induction a with
  | nil =>
    change segments sep b = (segments sep b).modifyHead id
    rw [List.modifyHead_id, id]
  | cons c a ih =>
    have ha := segments_ne_nil sep a
    obtain ⟨s, ss, hs⟩ := List.exists_cons_of_ne_nil ha
    by_cases hc : c = sep
    · subst hc
      simp only [List.cons_append, lastSegment, segments_cons_self, ih, hs, List.dropLast_cons_cons,
        List.getLast?_cons_cons]
    · simp only [List.cons_append, lastSegment, segments_cons_of_ne hc, ih, hs]
      cases ss with
      | nil => simp [Function.comp_def]
      | cons s' ss => simp

theorem lastSegment_mem (cs : List Char) : lastSegment sep cs ∈ segments sep cs := by
  rw [segments_eq_dropLast cs]
  exact List.mem_append_right _ (List.mem_singleton_self _)

/-- A segment of two texts is one of either, or the one in which they meet. -/
theorem mem_segments_append {a b s : List Char} (h : s ∈ segments sep (a ++ b)) :
    s ∈ (segments sep a).dropLast ∨
      (∃ first, (segments sep b).head? = some first ∧ s = lastSegment sep a ++ first) ∨
      s ∈ (segments sep b).tail := by
  rw [segments_append] at h
  obtain ⟨first, others, hb⟩ := List.exists_cons_of_ne_nil (segments_ne_nil sep b)
  rw [hb, List.modifyHead_cons] at h
  rcases List.mem_append.1 h with h | h
  · exact .inl h
  · rcases List.mem_cons.1 h with rfl | h
    · exact .inr (.inl ⟨first, by rw [hb, List.head?_cons], rfl⟩)
    · exact .inr (.inr (by rwa [hb, List.tail_cons]))

/-- The segment in which two texts meet. -/
theorem lastSegment_append_mem (a : List Char) {b : List Char}
    (h : (segments sep b).head? = some first) :
    lastSegment sep a ++ first ∈ segments sep (a ++ b) := by
  obtain ⟨others, hb⟩ := List.head?_eq_some_iff.1 h
  rw [segments_append, hb, List.modifyHead_cons]
  exact List.mem_append_right _ List.mem_cons_self

theorem mem_tail_segments_append {a b s : List Char} (h : s ∈ (segments sep b).tail) :
    s ∈ (segments sep (a ++ b)).tail := by
  rw [segments_append]
  obtain ⟨first, others, hb⟩ := List.exists_cons_of_ne_nil (segments_ne_nil sep b)
  rw [hb, List.tail_cons] at h
  rw [hb, List.modifyHead_cons, List.tail_append]
  split
  · exact h
  · exact List.mem_append_right _ (List.mem_cons_of_mem _ h)

theorem segments_append_sep (a b : List Char) :
    segments sep (a ++ sep :: b) = segments sep a ++ segments sep b := by
  rw [segments_append, segments_cons_self, List.modifyHead_cons, List.append_nil,
    List.append_cons, ← segments_eq_dropLast]

theorem segments_of_not_mem {cs : List Char} (h : sep ∉ cs) : segments sep cs = [cs] := by
  induction cs with
  | nil => rfl
  | cons c cs ih =>
    rw [List.mem_cons, not_or] at h
    rw [segments_cons_of_ne (fun e => h.1 e.symm), ih h.2, List.modifyHead_cons]

theorem not_mem_of_mem_segments {s : List Char} (h : s ∈ segments sep cs) : sep ∉ s := by
  induction cs generalizing s with
  | nil =>
    cases List.mem_singleton.1 h
    exact List.not_mem_nil
  | cons c cs ih =>
    by_cases hc : c = sep
    · subst hc
      rw [segments_cons_self] at h
      rcases List.mem_cons.1 h with rfl | h
      · exact List.not_mem_nil
      · exact ih h
    · obtain ⟨first, others, hs⟩ := List.exists_cons_of_ne_nil (segments_ne_nil sep cs)
      rw [segments_cons_of_ne hc, hs, List.modifyHead_cons] at h
      rw [hs] at ih
      rcases List.mem_cons.1 h with rfl | h
      · rw [List.mem_cons, not_or]
        exact ⟨fun e => hc e.symm, ih List.mem_cons_self⟩
      · exact ih (List.mem_cons_of_mem _ h)

/-- With another separator the segments are the same. -/
theorem segments_replaceChar {old new : Char} (h : new ∉ cs) :
    segments new (replaceChar old new cs) = segments old cs := by
  induction cs with
  | nil => rfl
  | cons c cs ih =>
    rw [List.mem_cons, not_or] at h
    have ih := ih h.2
    rw [replaceChar] at ih
    rw [replaceChar, List.map_cons]
    by_cases hc : c = old
    · rw [if_pos hc, hc, segments_cons_self, segments_cons_self, ih]
    · rw [if_neg hc, segments_cons_of_ne (fun e => h.1 e.symm), segments_cons_of_ne hc, ih]

/-! ## Joining -/

/-- The segments with separators between them are the text. -/
theorem join_segments (h : segments sep cs = first :: others) :
    first ++ others.flatMap (sep :: ·) = cs := by
  induction cs generalizing first others with
  | nil =>
    cases h
    rfl
  | cons c cs ih =>
    obtain ⟨s, ss, hs⟩ := List.exists_cons_of_ne_nil (segments_ne_nil sep cs)
    by_cases hc : c = sep
    · subst hc
      rw [segments_cons_self, hs] at h
      cases h
      rw [List.nil_append, List.flatMap_cons, List.cons_append, ih hs]
    · rw [segments_cons_of_ne hc, hs, List.modifyHead_cons] at h
      cases h
      rw [List.cons_append, ih hs]

theorem segments_join (hfirst : sep ∉ first) (hothers : ∀ s ∈ others, sep ∉ s) :
    segments sep (first ++ others.flatMap (sep :: ·)) = first :: others := by
  induction others generalizing first with
  | nil => rw [List.flatMap_nil, List.append_nil, segments_of_not_mem hfirst]
  | cons s ss ih =>
    have hs := ih (hothers s List.mem_cons_self)
      fun s' hs' => hothers s' (List.mem_cons_of_mem _ hs')
    rw [List.flatMap_cons, List.cons_append, segments_append_sep, segments_of_not_mem hfirst, hs,
      List.singleton_append]

theorem mem_of_mem_segments {s : List Char} (hs : s ∈ segments sep cs) {c : Char} (hc : c ∈ s) :
    c ∈ cs := by
  obtain ⟨first, others, h⟩ := List.exists_cons_of_ne_nil (segments_ne_nil sep cs)
  rw [← join_segments h, List.mem_append, List.mem_flatMap]
  rw [h] at hs
  rcases List.mem_cons.1 hs with rfl | hs
  · exact .inl hc
  · exact .inr ⟨s, hs, List.mem_cons_of_mem _ hc⟩

/-- A character that is no separator is in some segment. -/
theorem mem_segments {c : Char} (h : c ∈ cs) (hc : c ≠ sep) : ∃ s ∈ segments sep cs, c ∈ s := by
  obtain ⟨first, others, hs⟩ := List.exists_cons_of_ne_nil (segments_ne_nil sep cs)
  rw [← join_segments hs, List.mem_append, List.mem_flatMap] at h
  rw [hs]
  rcases h with h | ⟨s, hmem, h⟩
  · exact ⟨first, List.mem_cons_self, h⟩
  · exact ⟨s, List.mem_cons_of_mem _ hmem, (List.mem_cons.1 h).resolve_left hc⟩

theorem lastSegment_ne_nil {cs : List Char} (hcs : cs ≠ []) (hlast : cs.getLast? ≠ some sep) :
    lastSegment sep cs ≠ [] := by
  obtain ⟨start, c, rfl⟩ := List.eq_nil_or_concat cs |>.resolve_left hcs
  rw [List.concat_eq_append, List.getLast?_concat, ne_eq, Option.some.injEq] at hlast
  have hc : sep ∉ [c] := fun h => hlast (List.mem_singleton.1 h).symm
  simp [lastSegment, segments_append, segments_of_not_mem hc]

/-! ## The first separator -/

theorem splitFirst?_of_not_mem (h : sep ∉ cs) : splitFirst? sep cs = none := by
  induction cs with
  | nil => rfl
  | cons c cs ih =>
    rw [List.mem_cons, not_or] at h
    rw [splitFirst?, if_neg (fun e => h.1 e.symm), ih h.2]
    rfl

theorem splitFirst?_append {a : List Char} (h : sep ∉ a) (b : List Char) :
    splitFirst? sep (a ++ sep :: b) = some (a, b) := by
  induction a with
  | nil => rw [List.nil_append, splitFirst?, if_pos rfl]
  | cons c a ih =>
    rw [List.mem_cons, not_or] at h
    rw [List.cons_append, splitFirst?, if_neg (fun e => h.1 e.symm), ih h.2]
    rfl

theorem eq_of_splitFirst? {cs before after : List Char}
    (h : splitFirst? sep cs = some (before, after)) : cs = before ++ sep :: after := by
  induction cs generalizing before with
  | nil => cases h
  | cons c cs ih =>
    unfold splitFirst? at h
    split at h
    · rename_i hc
      cases h
      rw [hc, List.nil_append]
    · obtain ⟨parts, hparts, h⟩ := Option.map_eq_some_iff.1 h
      cases h
      rw [ih hparts, List.cons_append]

end Repackage.Text
