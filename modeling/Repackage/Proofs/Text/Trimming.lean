import Repackage.Text.Blank
import Repackage.Text.Cut

/-!
# Trimmed texts

Blanks around a text do not matter to what is left of it when it is trimmed
(`Text.trim_append_left`, `Text.trim_append_right`), and nothing else is lost (`Text.mem_trim`). A
text that neither starts nor ends with a blank is left as it is (`Text.trim_of_isTrimmed`).
-/

namespace Repackage.Text

variable {a b cs : List Char} {c : Char}

/-! ## Blanks around a text -/

theorem trimStart_append (h : ∀ c ∈ a, isBlank c = true) (b : List Char) :
    trimStart (a ++ b) = trimStart b := List.dropWhile_append_of_pos h

theorem trimStart_eq_nil (h : ∀ c ∈ a, isBlank c = true) : trimStart a = [] := by
  simpa [trimStart] using trimStart_append h []

theorem trimEnd_append (a : List Char) (h : ∀ c ∈ b, isBlank c = true) :
    trimEnd (a ++ b) = trimEnd a := by
  unfold trimEnd
  rw [List.reverse_append, List.dropWhile_append_of_pos fun c hc => h c (List.mem_reverse.1 hc)]

theorem trimEnd_append_cons (a : List Char) (hc : isBlank c = false) (b : List Char) :
    trimEnd (a ++ c :: b) = a ++ c :: trimEnd b := by
  unfold trimEnd
  rw [List.reverse_append, List.reverse_cons, List.append_assoc, List.dropWhile_append]
  split
  · rename_i hb
    rw [List.isEmpty_iff.1 hb]
    simp [hc]
  · simp

theorem trim_append_left (h : ∀ c ∈ a, isBlank c = true) (b : List Char) :
    trim (a ++ b) = trim b := by
  unfold trim
  rw [trimStart_append h]

theorem trim_append_right (a : List Char) (h : ∀ c ∈ b, isBlank c = true) :
    trim (a ++ b) = trim a := by
  unfold trim trimStart
  rw [List.dropWhile_append]
  split
  · rename_i ha
    have hb : b.dropWhile isBlank = [] := trimStart_eq_nil h
    rw [hb, List.isEmpty_iff.1 ha]
  · exact trimEnd_append _ h

theorem trim_eq_nil (h : ∀ c ∈ a, isBlank c = true) : trim a = [] := by
  unfold trim
  rw [trimStart_eq_nil h]
  rfl

/-- What is dropped at the end is blank. -/
theorem exists_eq_trimEnd_append (cs : List Char) :
    ∃ b, cs = trimEnd cs ++ b ∧ ∀ c ∈ b, isBlank c = true := by
  refine ⟨(cs.reverse.takeWhile isBlank).reverse, ?_, fun c hc => ?_⟩
  · unfold trimEnd
    rw [← List.reverse_append, List.takeWhile_append_dropWhile, List.reverse_reverse]
  · exact List.all_eq_true.1 List.all_takeWhile c (List.mem_reverse.1 hc)

/-- Only blanks are lost. -/
theorem mem_trim (hc : isBlank c = false) (h : c ∈ cs) : c ∈ trim cs := by
  have hstart : c ∈ trimStart cs := by
    rw [← List.takeWhile_append_dropWhile (p := isBlank) (l := cs), List.mem_append] at h
    refine h.resolve_left fun hblank => ?_
    rw [List.all_eq_true.1 List.all_takeWhile c hblank] at hc
    cases hc
  obtain ⟨b, hb, hblank⟩ := exists_eq_trimEnd_append (trimStart cs)
  rw [hb, List.mem_append] at hstart
  refine hstart.resolve_right fun hmem => ?_
  rw [hblank c hmem] at hc
  cases hc

theorem trim_trimEnd (cs : List Char) : trim (trimEnd cs) = trim cs := by
  obtain ⟨b, hcs, hb⟩ := exists_eq_trimEnd_append cs
  conv => rhs; rw [hcs, trim_append_right _ hb]

theorem trim_dropReturn (line : List Char) : trim (dropReturn line) = trim line := by
  unfold dropReturn
  split
  · rename_i hlast
    obtain ⟨start, rfl⟩ := List.getLast?_eq_some_iff.1 hlast
    rw [List.dropLast_concat, trim_append_right]
    intro c hc
    rw [List.mem_singleton.1 hc]
    decide +kernel
  · rfl

/-! ## Texts without blanks around them -/

/-- The text neither starts nor ends with a blank. -/
def isTrimmed (cs : List Char) : Bool :=
  cs.head?.all (!isBlank ·) && cs.getLast?.all (!isBlank ·)

theorem trim_of_isTrimmed (h : isTrimmed cs = true) : trim cs = cs := by
  obtain ⟨hhead, hlast⟩ := Bool.and_eq_true_iff.1 h
  have hstart : trimStart cs = cs := by
    unfold trimStart
    cases cs with
    | nil => rfl
    | cons c cs => exact List.dropWhile_cons_of_neg (by simpa using hhead)
  rw [trim, hstart]
  rcases List.eq_nil_or_concat cs with rfl | ⟨start, c, rfl⟩
  · rfl
  · have hc : isBlank c = false := by simpa using hlast
    rw [List.concat_eq_append, trimEnd_append_cons start hc]
    rfl

end Repackage.Text
