import Repackage.ClassFile.OffsetArray

/-!
# Looking up offsets

The entries of an array keep apart by their widths (`Consecutive.pairwise`), so their offsets
increase if no element has width 0. That is what the search by halving needs: an entry that it has
not found is before or after all that are left (`OffsetArray.search_holds`). Hence an element is
found under its own offset and under no other (`OffsetArray.get_eq_ok`).

An exchange is said once, in the three ways it can go (`OffsetArray.set_cases`). The elements alone
decide what the array is (`OffsetArray.eq_of_toList`).
-/

namespace Repackage

variable {α : Type} {width : α → Nat} {start next : Nat}

/-! ## Entries that follow each other -/

section Consecutive

variable {es : List (Nat × α)}

theorem Consecutive.bounds (h : Consecutive width start es next) :
    start ≤ next ∧ ∀ e ∈ es, start ≤ e.1 ∧ e.1 + width e.2 ≤ next := by
  induction es generalizing start with
  | nil =>
    cases h
    exact ⟨Nat.le_refl _, fun e he => by cases he⟩
  | cons d es ih =>
    obtain ⟨hd, hrest⟩ := h
    obtain ⟨hnext, hes⟩ := ih hrest
    refine ⟨by omega, fun e he => ?_⟩
    rcases List.mem_cons.1 he with rfl | he
    · omega
    · have := hes e he
      omega

theorem Consecutive.map (h : Consecutive width start es next) {f : α → α}
    (hf : ∀ a, width (f a) = width a) :
    Consecutive width start (es.map fun e => (e.1, f e.2)) next := by
  induction es generalizing start with
  | nil => exact h
  | cons e es ih => exact ⟨h.1, (hf e.2).symm ▸ ih h.2⟩

theorem Consecutive.pairwise (h : Consecutive width start es next) :
    es.Pairwise fun d e => d.1 + width d.2 ≤ e.1 := by
  induction es generalizing start with
  | nil => exact .nil
  | cons d es ih =>
    obtain ⟨hd, hrest⟩ := h
    refine .cons (fun e he => ?_) (ih hrest)
    rw [hd]
    exact (hrest.bounds.2 e he).1

theorem Consecutive.eq_of_toList {ds : List (Nat × α)} {next' : Nat}
    (hes : Consecutive width start es next) (hds : Consecutive width start ds next')
    (h : es.map Prod.snd = ds.map Prod.snd) : es = ds ∧ next = next' := by
  induction es generalizing start ds with
  | nil =>
    cases ds with
    | nil => exact ⟨rfl, Eq.trans hes hds.symm⟩
    | cons d ds => cases h
  | cons e es ih =>
    cases ds with
    | nil => cases h
    | cons d ds =>
      obtain ⟨he, hes⟩ := hes
      obtain ⟨hd, hds⟩ := hds
      obtain ⟨helement, hrest⟩ := List.cons.inj h
      rw [← helement] at hds
      obtain ⟨rfl, rfl⟩ := ih hes hds hrest
      exact ⟨congrArg (· :: es) (Prod.ext (he.trans hd.symm) helement), rfl⟩

end Consecutive

/-! ## Searching -/

namespace OffsetArray

/-- What a place tells about the entries. -/
def Place.Holds (entries : Array (Nat × α)) (offset : Nat) : Place entries.size → Prop
  | .found k => entries[k].1 = offset
  | .absent k => k ≤ entries.size ∧
      (∀ j (_ : j < entries.size), j < k → entries[j].1 < offset) ∧
      ∀ j (_ : j < entries.size), k ≤ j → offset < entries[j].1

theorem search_holds {entries : Array (Nat × α)} {offset lo hi : Nat} {hhi : hi ≤ entries.size}
    (hsorted : ∀ i j (_ : i < j) (_ : j < entries.size), entries[i].1 < entries[j].1)
    (hle : lo ≤ hi) (hbefore : ∀ j (_ : j < entries.size), j < lo → entries[j].1 < offset)
    (hafter : ∀ j (_ : j < entries.size), hi ≤ j → offset < entries[j].1) :
    (search entries offset lo hi hhi).Holds entries offset := by
  fun_induction search entries offset lo hi hhi with
  | case1 lo hi hhi hlt mid hmid hfound => exact hfound
  | case2 lo hi hhi hlt mid hmid hne hless ih =>
    -- all entries up to the middle are before the offset
    refine ih hsorted (by omega) (fun j hj hjmid => ?_) hafter
    rcases Nat.lt_or_eq_of_le (Nat.le_of_lt_succ hjmid) with hjmid | rfl
    · exact Nat.lt_trans (hsorted j mid hjmid hmid) hless
    · exact hless
  | case3 lo hi hhi hlt mid hmid hne hless ih =>
    refine ih hsorted (by omega) hbefore (fun j hj hjmid => ?_)
    have hmore : offset < entries[mid].1 := by omega
    rcases Nat.lt_or_eq_of_le hjmid with hjmid | rfl
    · exact Nat.lt_trans hmore (hsorted mid j hjmid hj)
    · exact hmore
  | case4 lo hi hhi hlt =>
    obtain rfl : lo = hi := by omega
    exact ⟨hhi, hbefore, hafter⟩

/-- Exchanges all elements for ones as wide. -/
def map (f : α → α) (hf : ∀ a, width (f a) = width a) (v : OffsetArray width start) :
    OffsetArray width start where
  entries := v.entries.map fun e => (e.1, f e.2)
  next := v.next
  consecutive := by
    rw [Array.toList_map]
    exact v.consecutive.map hf

section Lookup

variable {v w : OffsetArray width start} {offset k m : Nat} {a old : α} {e : OffsetError}

theorem eq_of_toList (h : v.toList = w.toList) : v = w := by
  obtain ⟨es, next, hes⟩ := v
  obtain ⟨ds, next', hds⟩ := w
  obtain ⟨hlist, rfl⟩ := hes.eq_of_toList hds h
  cases Array.toList_inj.1 hlist
  rfl

theorem toList_push (v : OffsetArray width start) (a : α) :
    (v.push a).toList = v.toList ++ [a] := by
  simp [toList, push]

theorem toList_map {f : α → α} (hf : ∀ a, width (f a) = width a) (v : OffsetArray width start) :
    (v.map f hf).toList = v.toList.map f := by
  simp [toList, map]

theorem sorted (hpos : ∀ a, 0 < width a) (v : OffsetArray width start) (i j : Nat) (hij : i < j)
    (hj : j < v.entries.size) : v.entries[i].1 < v.entries[j].1 := by
  have hapart := List.pairwise_iff_getElem.1 v.consecutive.pairwise i j
    (by simp only [Array.length_toList]; omega) (by simpa using hj) hij
  have := hpos v.entries[i].2
  simp only [Array.getElem_toList] at hapart
  omega

/-- No two entries have one offset. -/
theorem position_inj (hpos : ∀ a, 0 < width a) (hk : k < v.entries.size) (hm : m < v.entries.size)
    (h : v.entries[k].1 = v.entries[m].1) : k = m := by
  rcases Nat.lt_trichotomy k m with hlt | heq | hgt
  · have := v.sorted hpos k m hlt hm
    omega
  · exact heq
  · have := v.sorted hpos m k hgt hk
    omega

theorem locate_holds (hpos : ∀ a, 0 < width a) (v : OffsetArray width start) (offset : Nat) :
    (v.locate offset).Holds v.entries offset :=
  search_holds (v.sorted hpos) (Nat.zero_le _) (fun _ _ hj => absurd hj (Nat.not_lt_zero _))
    (fun _ hj hle => absurd hj (Nat.not_lt.2 hle))

/-- There is one place for an offset, and it is found. -/
theorem locate_eq_iff (hpos : ∀ a, 0 < width a) {place : Place v.entries.size} :
    v.locate offset = place ↔ place.Holds v.entries offset := by
  refine ⟨fun h => h ▸ v.locate_holds hpos offset, fun h => ?_⟩
  have hplace := v.locate_holds hpos offset
  cases hlocate : v.locate offset with
  | found k =>
    rw [hlocate] at hplace
    have hk : v.entries[k.1].1 = offset := hplace
    cases place with
    | found m => rw [Fin.ext (position_inj hpos k.isLt m.isLt (hk.trans h.symm))]
    | absent m =>
      obtain ⟨-, hbefore, hafter⟩ := h
      have := hbefore k k.isLt
      have := hafter k k.isLt
      omega
  | absent k =>
    rw [hlocate] at hplace
    obtain ⟨hk, hbefore, hafter⟩ := hplace
    cases place with
    | found m =>
      have hm : v.entries[m.1].1 = offset := h
      have := hbefore m m.isLt
      have := hafter m m.isLt
      omega
    | absent m =>
      obtain ⟨hm, hbefore', hafter'⟩ := h
      rcases Nat.lt_trichotomy k m with hlt | heq | hgt
      · exact absurd (hbefore' k (by omega) hlt) (Nat.lt_asymm (hafter k (by omega) (Nat.le_refl k)))
      · rw [heq]
      · exact absurd (hbefore m (by omega) hgt) (Nat.lt_asymm (hafter' m (by omega) (Nat.le_refl m)))

/-- An element is found just under its own offset. -/
theorem get_eq_ok (hpos : ∀ a, 0 < width a) :
    v.get offset = .ok (k, a) ↔ v.entries[k]? = some (offset, a) := by
  constructor
  · intro h
    unfold get at h
    cases hplace : v.locate offset with
    | found m =>
      rw [hplace] at h
      cases h
      have hm : v.entries[m.1].1 = offset := (locate_eq_iff hpos).1 hplace
      rw [← hm]
      exact Array.getElem?_eq_getElem m.isLt
    | absent m =>
      rw [hplace] at h
      cases h
  · intro h
    obtain ⟨hk, hentry⟩ := Array.getElem?_eq_some_iff.1 h
    have hplace : v.locate offset = .found ⟨k, hk⟩ :=
      (locate_eq_iff hpos).2 (show v.entries[k].1 = offset by rw [hentry])
    unfold get
    rw [hplace]
    show Except.ok (k, v.entries[k].2) = _
    rw [hentry]

theorem get_eq_error_iff_absent (hpos : ∀ a, 0 < width a) :
    v.get offset = .error e ↔ ∃ k, e = v.missing k ∧ (Place.absent k).Holds v.entries offset := by
  unfold get
  constructor
  · intro h
    cases hplace : v.locate offset with
    | found m =>
      rw [hplace] at h
      cases h
    | absent m =>
      rw [hplace] at h
      cases h
      exact ⟨m, rfl, (locate_eq_iff hpos).1 hplace⟩
  · rintro ⟨k, rfl, hk⟩
    rw [(locate_eq_iff hpos).2 hk]

/-- An offset is too large if all entries are before it. Else it is between entries, of which the
first after it is told. -/
theorem get_eq_error (hpos : ∀ a, 0 < width a) :
    v.get offset = .error e ↔
      (e = .tooLarge ∧ ∀ (k : Nat) d, v.entries[k]? = some d → d.1 < offset) ∨
        ∃ k d, e = .between k ∧ v.entries[k]? = some d ∧ offset < d.1 ∧
          ∀ j d, j < k → v.entries[j]? = some d → d.1 < offset := by
  rw [get_eq_error_iff_absent hpos]
  constructor
  · rintro ⟨k, rfl, hk, hbefore, hafter⟩
    have hbefore' (j : Nat) (d : Nat × α) (hj : j < k) (h : v.entries[j]? = some d) :
        d.1 < offset := by
      obtain ⟨hlt, rfl⟩ := Array.getElem?_eq_some_iff.1 h
      exact hbefore j hlt hj
    by_cases hsize : k = v.size
    · refine .inl ⟨if_pos hsize, fun j d h => hbefore' j d ?_ h⟩
      rw [hsize]
      exact (Array.getElem?_eq_some_iff.1 h).1
    · have hlt : k < v.entries.size := Nat.lt_of_le_of_ne hk hsize
      exact .inr ⟨k, v.entries[k], if_neg hsize, Array.getElem?_eq_getElem hlt,
        hafter k hlt (Nat.le_refl k), hbefore'⟩
  · rintro (⟨rfl, hall⟩ | ⟨k, d, rfl, hd, hless, hbefore⟩)
    · exact ⟨v.size, (if_pos rfl).symm, Nat.le_refl _,
        fun j hj _ => hall j _ (Array.getElem?_eq_getElem hj),
        fun j hj hle => absurd hj (Nat.not_lt.2 hle)⟩
    · obtain ⟨hk, rfl⟩ := Array.getElem?_eq_some_iff.1 hd
      refine ⟨k, (if_neg (Nat.ne_of_lt hk)).symm, Nat.le_of_lt hk,
        fun j hj hlt => hbefore j _ hlt (Array.getElem?_eq_getElem hj), fun j hj hle => ?_⟩
      rcases Nat.lt_or_eq_of_le hle with hlt | rfl
      · exact Nat.lt_trans hless (v.sorted hpos k j hlt hj)
      · exact hless

/-- An exchange replaces the element at the offset, or is refused for its width, or finds no
element there. -/
theorem set_cases (hpos : ∀ a, 0 < width a) (v : OffsetArray width start) (offset : Nat) (a : α) :
    (∃ k old w, v.get offset = .ok (k, old) ∧ width old = width a ∧
      v.set offset a = (.ok (k, old), w) ∧ w.next = v.next ∧
      w.entries.toList = v.entries.toList.map fun d => if d.1 = offset then (offset, a) else d) ∨
    (∃ k old, v.get offset = .ok (k, old) ∧ width old ≠ width a ∧
      v.set offset a = (.error (.incompatibleWidth (width a) (width old)), v)) ∨
    ∃ k, v.get offset = .error (v.missing k) ∧ v.set offset a = (.error (v.missing k), v) := by
  have hholds := v.locate_holds hpos offset
  unfold get set
  cases hplace : v.locate offset with
  | found k =>
    rw [hplace] at hholds
    replace hholds : v.entries[k.1].1 = offset := hholds
    by_cases hwidth : width v.entries[k].2 = width a
    · refine .inl ⟨k, v.entries[k].2, v.exchange k a hwidth, rfl, hwidth, ?_, rfl, ?_⟩
      · simp only [dif_pos hwidth]
      · refine List.ext_getElem (by simp [exchange]) fun m hm _ => ?_
        simp only [exchange, Array.toList_set, List.getElem_set, List.getElem_map,
          Array.getElem_toList]
        have hm' : m < v.entries.size := by simpa [exchange] using hm
        by_cases hkm : k.1 = m
        · subst hkm
          simp [hholds]
        · rw [if_neg hkm, if_neg fun h => hkm (position_inj hpos k.isLt hm' (hholds.trans h.symm))]
    · exact .inr (.inl ⟨k, _, rfl, hwidth, dif_neg hwidth⟩)
  | absent k => exact .inr (.inr ⟨k, rfl, rfl⟩)

end Lookup

end OffsetArray

end Repackage
