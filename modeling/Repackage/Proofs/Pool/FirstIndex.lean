import Repackage.Proofs.Pool.Edits

/-!
# The first entry with a text

A text is looked up by the index under which it is remembered, which always is an index that holds
it (`Pool.Built.indexed`). As long as constants are only added it is the first one. Replacements
need not keep it so: a text that is taken from its first entry is forgotten, although a later one
may hold it too, and a text that is put before its first entry stays remembered under the later one.

A replacement that does neither spares the text (`Pool.Spares`). These are exactly the replacements
after which the text is still looked up at its first entry (`Pool.FindsFirst.replace_iff`), so that
a text which all replacements have spared is found where it first stands, and only there
(`Pool.find?_edited`).
-/

namespace Repackage

namespace Pool

variable {p p' : Pool} {i j k : Index} {c old : Constant} {text : String}

/-! ## First entries -/

/-- The entry `i` is the first with the text. -/
def FirstAt (p : Pool) (text : String) (i : Index) : Prop :=
  p.get i = .ok (.utf8 text) ∧ ∀ j, p.get j = .ok (.utf8 text) → i ≤ j

theorem FirstAt.eq (hi : p.FirstAt text i) (hj : p.FirstAt text j) : i = j :=
  UInt16.le_antisymm (hi.2 j hj.1) (hj.2 i hi.1)

theorem exists_firstAt {j : Index} (h : p.get j = .ok (.utf8 text)) : ∃ i, p.FirstAt text i := by
  by_cases hfirst : ∀ k, p.get k = .ok (.utf8 text) → j ≤ k
  · exact ⟨j, h, hfirst⟩
  · obtain ⟨k, hk⟩ := Classical.not_forall.1 hfirst
    obtain ⟨hk, hlt⟩ := Classical.not_imp.1 hk
    have hdecreasing : k.toNat < j.toNat := UInt16.lt_iff_toNat_lt.1 (UInt16.not_le.1 hlt)
    exact exists_firstAt hk
termination_by j.toNat

/-- The text is looked up at its first entry. -/
def FindsFirst (p : Pool) (text : String) : Prop := ∀ i, p.find? text = some i ↔ p.FirstAt text i

theorem findsFirst_iff :
    p.FindsFirst text ↔
      (∃ k, p.find? text = some k ∧ p.FirstAt text k) ∨
        (p.find? text = none ∧ ∀ j, p.get j ≠ .ok (.utf8 text)) := by
  constructor
  · intro h
    cases hfind : p.find? text with
    | some k => exact .inl ⟨k, rfl, (h k).1 hfind⟩
    | none =>
      refine .inr ⟨rfl, fun j hj => ?_⟩
      obtain ⟨i, hi⟩ := exists_firstAt hj
      cases hfind.symm.trans ((h i).2 hi)
  · rintro (⟨k, hfind, hk⟩ | ⟨hfind, hnone⟩) i
    · rw [hfind, Option.some_inj]
      exact ⟨fun e => e ▸ hk, hk.eq⟩
    · rw [hfind]
      constructor
      · intro e
        cases e
      · intro hi
        exact absurd hi.1 (hnone i)

/-! ## Adding constants -/

theorem get_push_eq_ok (hcount : p.count < 0x10000) {d : Constant} :
    (p.push c).get j = .ok d ↔ p.get j = .ok d ∨ (j = p.nextIndex ∧ c = d) := by
  have hnext : j.toNat = p.count ↔ j = p.nextIndex := by
    rw [← UInt16.toNat_inj, nextIndex, UInt16.toNat_ofNat_of_lt' hcount]
  rw [get_eq_ok, get_eq_ok, entries_table_push, List.mem_append, List.mem_singleton,
    Prod.mk.injEq, hnext, eq_comm (a := d)]

theorem FirstAt.push (hk : p.FirstAt text k) (hcount : p.count < 0x10000) (c : Constant) :
    (p.push c).FirstAt text k := by
  refine ⟨get_push_of_get hk.1, fun j hj => ?_⟩
  rcases (get_push_eq_ok hcount).1 hj with hj | ⟨rfl, -⟩
  · exact hk.2 j hj
  · have hlt := lt_count_of_get hk.1
    rw [UInt16.le_iff_toNat_le, nextIndex, UInt16.toNat_ofNat_of_lt' hcount]
    exact Nat.le_of_lt hlt

theorem FindsFirst.push (hp : p.FindsFirst text) (hcount : p.count < 0x10000) (c : Constant) :
    (p.push c).FindsFirst text := by
  rw [findsFirst_iff, find?_push]
  rcases findsFirst_iff.1 hp with ⟨k, hfind, hk⟩ | ⟨hfind, hnone⟩
  · exact .inl ⟨k, by simp [hfind], hk.push hcount c⟩
  · by_cases hc : c = .utf8 text
    · refine .inl ⟨p.nextIndex, by simp [hfind, hc], ?_, fun j hj => ?_⟩
      · rw [get_push_nextIndex hcount, hc]
      · rcases (get_push_eq_ok hcount).1 hj with hj | ⟨rfl, -⟩
        · exact absurd hj (hnone j)
        · exact UInt16.le_refl _
    · refine .inr ⟨by simp [hfind, hc], fun j hj => ?_⟩
      rcases (get_push_eq_ok hcount).1 hj with hj | ⟨-, hd⟩
      · exact hnone j hj
      · exact hc hd

theorem FindsFirst.foldl_push (hp : p.FindsFirst text) (cs : List Constant)
    (hcount : (cs.foldl Pool.push p).count ≤ 0xffff) : (cs.foldl Pool.push p).FindsFirst text := by
  induction cs generalizing p with
  | nil => exact hp
  | cons c cs ih =>
    have hlt := Nat.lt_of_lt_of_le (count_lt_push p c) (count_le_foldl_push cs (p.push c))
    exact ih (hp.push (by rw [List.foldl_cons] at hcount; omega) c) hcount

/-! ## Replacing a constant -/

/-- Putting `c` at `i` does not take the text from its first entry while another holds it, nor does
it put the text before its first entry. -/
structure Spares (p : Pool) (text : String) (i : Index) (c : Constant) : Prop where
  leaving : p.get i = .ok (.utf8 text) → c ≠ .utf8 text →
    ∀ j, p.get j = .ok (.utf8 text) → j ≠ i → ∃ k, k < i ∧ p.get k = .ok (.utf8 text)
  entering : c = .utf8 text →
    ∀ j, p.get j = .ok (.utf8 text) → ∃ k, k ≤ i ∧ p.get k = .ok (.utf8 text)

theorem spares_of_get (h : p.get k = .ok (.utf8 text)) (hlt : k < i) (c : Constant) :
    p.Spares text i c :=
  ⟨fun _ _ _ _ _ => ⟨k, hlt, h⟩, fun _ _ _ => ⟨k, UInt16.le_of_lt hlt, h⟩⟩

theorem get_replace_eq_ok (h : p.replace i c = .ok (old, p')) {d : Constant} :
    p'.get j = .ok d ↔ (j = i ∧ c = d) ∨ (j ≠ i ∧ p.get j = .ok d) := by
  rw [get_replace h]
  by_cases hj : j = i <;> simp [hj]

/-- The first entry with a text stays the first if it is another one that is replaced. -/
theorem FirstAt.replace (hk : p.FirstAt text k) (h : p.replace i c = .ok (old, p')) (hne : k ≠ i)
    (hle : c = .utf8 text → k ≤ i) : p'.FirstAt text k := by
  refine ⟨(get_replace_eq_ok h).2 (.inr ⟨hne, hk.1⟩), fun j hj => ?_⟩
  rcases (get_replace_eq_ok h).1 hj with ⟨rfl, hc⟩ | ⟨-, hj⟩
  · exact hle hc
  · exact hk.2 j hj

theorem firstAt_replace_self (h : p.replace i c = .ok (old, p')) (hc : c = .utf8 text)
    (hle : ∀ j, p.get j = .ok (.utf8 text) → i ≤ j) : p'.FirstAt text i := by
  refine ⟨hc ▸ get_replace_self h, fun j hj => ?_⟩
  rcases (get_replace_eq_ok h).1 hj with ⟨rfl, -⟩ | ⟨-, hj⟩
  · exact UInt16.le_refl _
  · exact hle j hj

theorem get_replace_ne (h : p.replace i c = .ok (old, p')) (hc : c ≠ .utf8 text)
    (hnone : ∀ j, j ≠ i → p.get j ≠ .ok (.utf8 text)) (j : Index) :
    p'.get j ≠ .ok (.utf8 text) := by
  intro hj
  rcases (get_replace_eq_ok h).1 hj with ⟨-, hd⟩ | ⟨hne, hj⟩
  · exact hc hd
  · exact hnone j hne hj

theorem FindsFirst.replace (hp : p.FindsFirst text) (h : p.replace i c = .ok (old, p'))
    (hs : p.Spares text i c) : p'.FindsFirst text := by
  obtain ⟨hold, -, -, -⟩ := replace_eq_ok h
  rw [findsFirst_iff, find?_replace h]
  rcases findsFirst_iff.1 hp with ⟨k, hfind, hk⟩ | ⟨hfind, hnone⟩
  · by_cases hki : k = i
    · -- the first entry itself is replaced, and its text forgotten
      subst hki
      have htext : old = .utf8 text := Except.ok.inj (hold.symm.trans hk.1)
      by_cases hc : c = .utf8 text
      · exact .inl ⟨k, by simp [htext, hfind, hc], firstAt_replace_self h hc hk.2⟩
      · refine .inr ⟨by simp [htext, hfind, hc], get_replace_ne h hc fun j hne hj => ?_⟩
        obtain ⟨m, hm, hget⟩ := hs.leaving hk.1 hc j hj hne
        exact absurd (hk.2 m hget) (UInt16.not_le.2 hm)
    · refine .inl ⟨k, by simp [hfind, hki], hk.replace h hki fun hc => ?_⟩
      obtain ⟨m, hm, hget⟩ := hs.entering hc k hk.1
      exact UInt16.le_trans (hk.2 m hget) hm
  · by_cases hc : c = .utf8 text
    · exact .inl ⟨i, by simp [hfind, hc],
        firstAt_replace_self h hc fun j hj => absurd hj (hnone j)⟩
    · exact .inr ⟨by simp [hfind, hc], get_replace_ne h hc fun j _ => hnone j⟩

theorem FindsFirst.spares (hp : p.FindsFirst text) (h : p.replace i c = .ok (old, p'))
    (hp' : p'.FindsFirst text) : p.Spares text i c where
  leaving hi hc j hj hne := by
    refine Classical.byContradiction fun hnone => ?_
    -- then `i` is the first entry with the text, which is forgotten, and `j` still holds it
    have hfirst : p.FirstAt text i :=
      ⟨hi, fun k hk => UInt16.not_lt.1 fun hlt => hnone ⟨k, hlt, hk⟩⟩
    obtain ⟨hold, -, -, -⟩ := replace_eq_ok h
    have htext : old = .utf8 text := Except.ok.inj (hold.symm.trans hi)
    have hfind : p'.find? text = none := by simp [find?_replace h, htext, (hp i).2 hfirst, hc]
    obtain ⟨k, hk⟩ := exists_firstAt ((get_replace_eq_ok h).2 (.inr ⟨hne, hj⟩))
    cases hfind.symm.trans ((hp' k).2 hk)
  entering hc j hj := by
    refine Classical.byContradiction fun hnone => ?_
    -- then the text stays remembered under an index that comes after `i`
    obtain ⟨k, hk⟩ := exists_firstAt hj
    have hlt : ¬ k ≤ i := fun hle => hnone ⟨k, hle, hk.1⟩
    have hki : k ≠ i := fun e => hlt (e ▸ UInt16.le_refl k)
    have hfind : p'.find? text = some k := by simp [find?_replace h, (hp k).2 hk, hki]
    exact hlt (((hp' k).1 hfind).2 i (hc ▸ get_replace_self h))

theorem FindsFirst.replace_iff (hp : p.FindsFirst text) (h : p.replace i c = .ok (old, p')) :
    p'.FindsFirst text ↔ p.Spares text i c :=
  ⟨hp.spares h, hp.replace h⟩

/-! ## After any edits -/

/-- All replacements that succeed among the edits spare the text. -/
def Sparing (text : String) : Pool → List Edit → Prop
  | _, [] => True
  | p, e :: edits =>
    (∀ i c r, e = .replace i c → p.replace i c = .ok r → p.Spares text i c) ∧
      Sparing text (p.edit e) edits

theorem FindsFirst.edit (hp : p.FindsFirst text) (e : Edit) (hcount : (p.edit e).count ≤ 0xffff)
    (hs : ∀ i c r, e = .replace i c → p.replace i c = .ok r → p.Spares text i c) :
    (p.edit e).FindsFirst text := by
  obtain ⟨cs, h⟩ | ⟨i, c, old, he, h⟩ := edit_cases p e
  · rw [h] at hcount ⊢
    exact hp.foldl_push cs hcount
  · exact hp.replace h (hs i c _ he h)

theorem FindsFirst.foldl_edit (hp : p.FindsFirst text) (edits : List Edit)
    (hcount : (edits.foldl Pool.edit p).count ≤ 0xffff) (hs : Sparing text p edits) :
    (edits.foldl Pool.edit p).FindsFirst text := by
  induction edits generalizing p with
  | nil => exact hp
  | cons e edits ih =>
    have hcount' := Nat.le_trans (count_le_foldl_edit edits (p.edit e)) hcount
    exact ih (hp.edit e hcount' hs.1) hcount hs.2

theorem findsFirst_empty (text : String) : empty.FindsFirst text := by
  refine findsFirst_iff.2 (.inr ⟨by simp [find?, empty], fun j hj => ?_⟩)
  have hmem : (j, Constant.utf8 text) ∈ ([] : List (Index × Constant)) := mem_entries_of_get hj
  cases hmem

/-- A text is only found where it stands. If all replacements have spared it, it is found where it
first stands, until one does not spare it. -/
theorem find?_edited (text : String) (edits : List Edit)
    (hcount : (edited edits).count ≤ 0xffff) :
    (∀ i, (edited edits).find? text = some i → (edited edits).get i = .ok (.utf8 text)) ∧
      (Sparing text empty edits →
        (∀ i, (edited edits).find? text = some i ↔ (edited edits).FirstAt text i) ∧
          ∀ i c old p', (edited edits).replace i c = .ok (old, p') →
            (p'.FindsFirst text ↔ (edited edits).Spares text i c)) := by
  refine ⟨fun i hi => (built_edited edits).indexed (Nat.lt_succ_of_le hcount) hi, fun hs => ?_⟩
  have hfirst := (findsFirst_empty text).foldl_edit edits hcount hs
  exact ⟨hfirst, fun i c old p' h => hfirst.replace_iff h⟩

/-- The text `a` leaves its only entry and comes back, and leaves a second entry for good. -/
def restored : List Edit :=
  [.push (.utf8 "a"), .replace 1 (.utf8 "b"), .replace 1 (.utf8 "a"), .push (.utf8 "a"),
    .replace 9 (.utf8 "a"), .internClass "a", .replace 2 (.utf8 "b")]

theorem sparing_restored : Sparing "a" empty restored := by
  refine ⟨?_, ?_, ?_, ?_, ?_, ?_, ?_, trivial⟩ <;> intro i c r he h <;> cases he
  · refine ⟨fun _ _ j hj hne => ?_, fun hc => absurd hc (by decide)⟩
    have hmem : (j, Constant.utf8 "a") ∈ [((1 : Index), Constant.utf8 "a")] := mem_entries_of_get hj
    exact absurd (congrArg Prod.fst (List.mem_singleton.1 hmem)) hne
  · refine ⟨fun _ hc => absurd rfl hc, fun _ j hj => ?_⟩
    have hentries : (edited [.push (.utf8 "a"), .replace 1 (.utf8 "b")]).entries =
        [(1, .utf8 "b")] := by decide +kernel
    have hmem : (j, Constant.utf8 "a") ∈
        (edited [.push (.utf8 "a"), .replace 1 (.utf8 "b")]).entries := mem_entries_of_get hj
    rw [hentries] at hmem
    have htext : Constant.utf8 "a" = .utf8 "b" := congrArg Prod.snd (List.mem_singleton.1 hmem)
    exact absurd htext (by decide)
  · have hfails : ((edited (restored.take 4)).replace 9 (.utf8 "a")).toBool = false := by
      decide +kernel
    replace h : (edited (restored.take 4)).replace 9 (.utf8 "a") = .ok r := h
    rw [h] at hfails
    cases hfails
  · have hget : (edited (restored.take 6)).get 1 = .ok (.utf8 "a") :=
      get_eq_ok.2 (by decide +kernel)
    exact spares_of_get hget (by decide) _

theorem find?_edited_restored :
    (edited restored).count ≤ 0xffff ∧ Sparing "a" empty restored ∧
      ∀ i, (edited restored).find? "a" = some i ↔ (edited restored).FirstAt "a" i :=
  have hcount : (edited restored).count ≤ 0xffff := by decide +kernel
  ⟨hcount, sparing_restored, ((find?_edited "a" restored hcount).2 sparing_restored).1⟩

/-- The text `b` is put in the place of the first `a`, and before the first `b`. -/
def stale : List Edit :=
  [.push (.utf8 "a"), .push (.utf8 "a"), .push (.utf8 "b"), .replace 1 (.utf8 "b")]

/-- The second `a` is not found any more, and `b` not at its first entry. -/
theorem find?_edited_stale :
    (edited stale).count ≤ 0xffff ∧
      ((edited stale).get 2 = .ok (.utf8 "a") ∧ (edited stale).find? "a" = none) ∧
      ((edited stale).get 1 = .ok (.utf8 "b") ∧ (edited stale).find? "b" = some 3) :=
  ⟨by decide +kernel, ⟨get_eq_ok.2 (by decide +kernel), by decide +kernel⟩,
    get_eq_ok.2 (by decide +kernel), by decide +kernel⟩

end Pool

end Repackage
