import Repackage.ClassFile.Pool
import Repackage.Proofs.Pool.Offsets

/-!
# Entries of a pool and its memory of texts

A constant is found under its offset (`Pool.get_eq_ok`). Replacing an entry changes what that entry
holds and nothing else (`Pool.get_replace`); offsets are neither gained nor lost. All ways in which a
replacement can go are in `Pool.exchange_cases`, and one that fails leaves the pool as it was. What
is remembered is said by `Pool.find?_push` and `Pool.find?_replace`.

`Pool.Built` are the pools that pushing and replacing constants can lead to. In all of them
that are small enough for an index, a text is remembered under an index that holds it
(`Built.indexed`).
-/

namespace Repackage

namespace Pool

variable {p p' : Pool} {i j : Index} {c old : Constant} {text : String} {e : Nat × Constant}

/-- The pools that can be built. -/
inductive Built : Pool → Prop where
  | empty : Built empty
  | push {p : Pool} (c : Constant) : Built p → Built (p.push c)
  | replace {p p' : Pool} {i : Index} {c old : Constant} :
      Built p → p.replace i c = .ok (old, p') → Built p'

/-- A text that is remembered is found where it is remembered. -/
def Indexed (p : Pool) : Prop := ∀ ⦃text i⦄, p.find? text = some i → p.get i = .ok (.utf8 text)

/-! ## Entries -/

theorem get_eq_ok : p.get i = .ok c ↔ (i.toNat, c) ∈ p.table.entries.toList := by
  unfold get
  constructor
  · intro h
    split at h
    · rename_i k d hd
      cases h
      rw [OffsetArray.get_eq_ok Constant.width_pos, ← Array.getElem?_toList] at hd
      exact List.mem_of_getElem? hd
    · cases h
  · intro h
    obtain ⟨k, hk⟩ := List.mem_iff_getElem?.1 h
    rw [Array.getElem?_toList, ← OffsetArray.get_eq_ok Constant.width_pos] at hk
    rw [hk]

theorem eq_missingConstant_of_get {e : ClassError} (h : p.get i = .error e) :
    e = .missingConstant i := by
  unfold get at h
  split at h
  · cases h
  · exact (Except.error.inj h).symm

/-- What an index finds is decided by the constants that it finds. -/
theorem get_congr (h : ∀ c, p'.get i = .ok c ↔ p.get i = .ok c) : p'.get i = p.get i := by
  cases hp : p.get i with
  | ok c => exact (h c).2 hp
  | error e =>
    cases hp' : p'.get i with
    | ok c => cases hp.symm.trans ((h c).1 hp')
    | error e' => rw [eq_missingConstant_of_get hp, eq_missingConstant_of_get hp']

theorem offset_lt_count (h : e ∈ p.table.entries.toList) : e.1 < p.count := by
  have hend : e.1 + e.2.width ≤ p.count := (p.table.consecutive.bounds.2 e h).2
  have hpos := e.2.width_pos
  omega

/-- The index of an entry is its offset, as long as indices do not run out. -/
theorem toNat_ofNat_offset (hc : p.count ≤ 0x10000) (h : e ∈ p.table.entries.toList) :
    (UInt16.ofNat e.1).toNat = e.1 :=
  UInt16.toNat_ofNat_of_lt' (Nat.lt_of_lt_of_le (offset_lt_count h) hc)

theorem lt_count_of_get (h : p.get i = .ok c) : i.toNat < p.count :=
  offset_lt_count (get_eq_ok.1 h)

theorem utf8_eq_ok : p.utf8 i = .ok text ↔ p.get i = .ok (.utf8 text) := by
  unfold utf8
  constructor
  · intro h
    cases hc : p.get i with
    | error e => rw [hc] at h; cases h
    | ok c =>
      rw [hc] at h
      cases c with
      | utf8 text => cases h; rfl
      | _ => cases h
  · intro h
    rw [h]
    rfl

theorem className_eq_ok :
    p.className i = .ok text ↔ ∃ j, p.get i = .ok (.classInfo j) ∧ p.get j = .ok (.utf8 text) := by
  unfold className classNameIndex
  constructor
  · intro h
    cases hc : p.get i with
    | error e => rw [hc] at h; cases h
    | ok c =>
      rw [hc] at h
      cases c with
      | classInfo j => exact ⟨j, rfl, utf8_eq_ok.1 h⟩
      | _ => cases h
  · rintro ⟨j, hi, hj⟩
    rw [hi]
    exact utf8_eq_ok.2 hj

theorem entries_table_push (p : Pool) (c : Constant) :
    (p.push c).table.entries.toList = p.table.entries.toList ++ [(p.count, c)] :=
  Array.toList_push

theorem get_push_of_get (h : p.get i = .ok old) : (p.push c).get i = .ok old := by
  rw [get_eq_ok] at h ⊢
  rw [entries_table_push]
  exact List.mem_append_left _ h

theorem get_push_nextIndex (hc : p.count < 0x10000) : (p.push c).get p.nextIndex = .ok c := by
  have hn : p.nextIndex.toNat = p.count := UInt16.toNat_ofNat_of_lt' hc
  rw [get_eq_ok, hn, entries_table_push]
  exact List.mem_append_right _ (List.mem_singleton.2 rfl)

/-- A constant is put in the place of one as wide, or refused for its width, or there is none at the
index. -/
theorem exchange_cases (p : Pool) (i : Index) (c : Constant) :
    (∃ old p', p.get i = .ok old ∧ old.width = c.width ∧ p.exchange i c = (.ok old, p') ∧
      p'.count = p.count ∧
      p'.table.entries.toList =
        (p.table.entries.toList.map fun e => if e.1 = i.toNat then (i.toNat, c) else e) ∧
      p'.utf8s = remember c i (forget old i p.utf8s)) ∨
    (∃ old, p.get i = .ok old ∧ old.width ≠ c.width ∧
      p.exchange i c = (.error (.incompatibleWidth i), p)) ∨
    (p.get i = .error (.missingConstant i) ∧
      p.exchange i c = (.error (.missingConstant i), p)) := by
  unfold get exchange
  obtain ⟨k, old, table, hget, hwidth, hset, hnext, hentries⟩ | ⟨k, old, hget, hwidth, hset⟩ |
    ⟨k, hget, hset⟩ := p.table.set_cases Constant.width_pos i.toNat c
  · rw [hget, hset]
    exact .inl ⟨old, _, rfl, hwidth, rfl, hnext, hentries, rfl⟩
  · rw [hget, hset]
    exact .inr (.inl ⟨old, rfl, hwidth, rfl⟩)
  · rw [hget, hset]
    have hmissing : p.table.missing k = .tooLarge ∨ p.table.missing k = .between k := by
      unfold OffsetArray.missing
      split
      · exact .inl rfl
      · exact .inr rfl
    refine .inr (.inr ⟨rfl, ?_⟩)
    rcases hmissing with h | h <;> rw [h]

theorem replace_eq_ok_iff : p.replace i c = .ok (old, p') ↔ p.exchange i c = (.ok old, p') := by
  unfold replace
  constructor
  · intro h
    split at h
    · rename_i hexchange
      cases h
      exact hexchange
    · cases h
  · intro h
    rw [h]

theorem replace_eq_ok (h : p.replace i c = .ok (old, p')) :
    p.get i = .ok old ∧ old.width = c.width ∧ p'.count = p.count ∧
      p'.table.entries.toList =
        (p.table.entries.toList.map fun e => if e.1 = i.toNat then (i.toNat, c) else e) ∧
      p'.utf8s = remember c i (forget old i p.utf8s) := by
  rw [replace_eq_ok_iff] at h
  obtain ⟨old', q, hget, hwidth, hexchange, hcount, hentries, hutf8s⟩ |
    ⟨old', -, -, hexchange⟩ | ⟨-, hexchange⟩ := exchange_cases p i c
  · cases hexchange.symm.trans h
    exact ⟨hget, hwidth, hcount, hentries, hutf8s⟩
  · cases hexchange.symm.trans h
  · cases hexchange.symm.trans h

/-- An exchange that fails leaves the pool as it was. -/
theorem exchange_of_error {e : ClassError} (h : p.replace i c = .error e) :
    p.exchange i c = (.error e, p) := by
  unfold replace at h
  obtain ⟨old, p', -, -, hexchange, -⟩ | ⟨old, -, -, hexchange⟩ | ⟨-, hexchange⟩ :=
    exchange_cases p i c
  · rw [hexchange] at h
    cases h
  · rw [hexchange] at h ⊢
    cases h
    rfl
  · rw [hexchange] at h ⊢
    cases h
    rfl

theorem get_replace (h : p.replace i c = .ok (old, p')) (j : Index) :
    p'.get j = if j = i then .ok c else p.get j := by
  obtain ⟨hget, -, -, hentries, -⟩ := replace_eq_ok h
  by_cases hji : j = i
  · subst hji
    rw [if_pos rfl, get_eq_ok, hentries]
    exact List.mem_map.2 ⟨(j.toNat, old), get_eq_ok.1 hget, if_pos rfl⟩
  · have hne : ¬ j.toNat = i.toNat := fun e => hji (UInt16.toNat_inj.1 e)
    rw [if_neg hji]
    refine get_congr fun d => ?_
    rw [get_eq_ok, get_eq_ok, hentries, List.mem_map]
    constructor
    · rintro ⟨e, he, hd⟩
      split at hd
      · exact absurd (congrArg Prod.fst hd).symm hne
      · rwa [← hd]
    · exact fun hd => ⟨_, hd, if_neg hne⟩

theorem get_replace_self (h : p.replace i c = .ok (old, p')) : p'.get i = .ok c := by
  rw [get_replace h, if_pos rfl]

theorem get_replace_of_ne (h : p.replace i c = .ok (old, p')) (hne : j ≠ i) :
    p'.get j = p.get j := by
  rw [get_replace h, if_neg hne]

/-! ## Offsets -/

theorem count_push (p : Pool) (c : Constant) : (p.push c).count = p.count + c.width := rfl

/-- The offsets of the constants, and the next one. -/
def shape (p : Pool) : List Nat × Nat := (p.table.entries.toList.map Prod.fst, p.count)

theorem shape_replace (h : p.replace i c = .ok (old, p')) : p'.shape = p.shape := by
  obtain ⟨-, -, hcount, hentries, -⟩ := replace_eq_ok h
  unfold shape
  rw [hcount, hentries, List.map_map]
  refine congrArg (·, p.count) (List.map_congr_left fun e _ => ?_)
  by_cases he : e.1 = i.toNat <;> simp [he]

theorem count_eq_of_shape (h : p'.shape = p.shape) : p'.count = p.count := congrArg Prod.snd h

theorem size_eq_of_shape (h : p'.shape = p.shape) : p'.size = p.size := by
  have hlength := congrArg (fun s => s.1.length) h
  simpa [shape, size, OffsetArray.size] using hlength

/-- The indices of a pool. -/
theorem indices_eq_of_shape (h : p'.shape = p.shape) :
    p'.entries.map Prod.fst = p.entries.map Prod.fst := by
  have hindices (q : Pool) : q.entries.map Prod.fst = q.shape.1.map UInt16.ofNat := by
    simp [entries, shape]
  rw [hindices, hindices, h]

theorem mem_entries_of_get (h : p.get i = .ok c) : (i, c) ∈ p.entries :=
  List.mem_map.2 ⟨(i.toNat, c), get_eq_ok.1 h, by simp⟩

theorem get_of_mem_entries (hc : p.count ≤ 0x10000) (h : (i, c) ∈ p.entries) :
    p.get i = .ok c := by
  obtain ⟨e, he, hentry⟩ := List.mem_map.1 h
  cases hentry
  rw [get_eq_ok, toNat_ofNat_offset hc he]
  exact he

theorem mem_indices_of_get (h : p.get i = .ok c) : i ∈ p.entries.map Prod.fst :=
  List.mem_map.2 ⟨(i, c), mem_entries_of_get h, rfl⟩

theorem toList_eq (p : Pool) : p.toList = p.entries.map Prod.snd := by
  simp [toList, OffsetArray.toList, entries]

/-! ## Texts -/

theorem getElem?_remember (c : Constant) (i : Index) (utf8s : Std.TreeMap String Index)
    (text : String) :
    (remember c i utf8s)[text]? = utf8s[text]?.or (if c = .utf8 text then some i else none) := by
  unfold remember
  split
  · rename_i new
    rw [Std.TreeMap.getElem?_insertIfNew]
    by_cases hnew : new = text
    · subst hnew
      rw [if_pos rfl]
      by_cases hmem : new ∈ utf8s
      · rw [if_neg (fun h => h.2 hmem), Std.TreeMap.getElem?_eq_some_getElem hmem]
        rfl
      · rw [if_pos ⟨Std.ReflCmp.compare_self, hmem⟩, Std.TreeMap.getElem?_eq_none hmem,
          Option.none_or]
    · have hc : ¬ Constant.utf8 new = .utf8 text := fun h => hnew (Constant.utf8.inj h)
      rw [if_neg fun h => hnew (Std.LawfulEqCmp.eq_of_compare h.1), if_neg hc, Option.or_none]
  · rename_i hc
    rw [if_neg (hc text), Option.or_none]

theorem getElem?_forget (old : Constant) (i : Index) (utf8s : Std.TreeMap String Index)
    (text : String) :
    (forget old i utf8s)[text]? =
      if old = .utf8 text ∧ utf8s[text]? = some i then none else utf8s[text]? := by
  unfold forget
  split
  · rename_i held
    by_cases hheld : held = text
    · subst hheld
      by_cases h : utf8s[held]? = some i
      · rw [if_pos h, if_pos ⟨rfl, h⟩, Std.TreeMap.getElem?_erase_self]
      · rw [if_neg h, if_neg fun e => h e.2]
    · have hold : ¬ (Constant.utf8 held = .utf8 text ∧ utf8s[text]? = some i) :=
        fun h => hheld (Constant.utf8.inj h.1)
      rw [if_neg hold]
      split
      · rw [Std.TreeMap.getElem?_erase, if_neg fun h => hheld (Std.LawfulEqCmp.eq_of_compare h)]
      · rfl
  · rename_i hold
    rw [if_neg fun h => hold text h.1]

theorem find?_push (p : Pool) (c : Constant) (text : String) :
    (p.push c).find? text = (p.find? text).or (if c = .utf8 text then some p.nextIndex else none) :=
  getElem?_remember c p.nextIndex p.utf8s text

theorem find?_replace (h : p.replace i c = .ok (old, p')) (text : String) :
    p'.find? text =
      (if old = .utf8 text ∧ p.find? text = some i then none else p.find? text).or
        (if c = .utf8 text then some i else none) := by
  obtain ⟨-, -, -, -, hu⟩ := replace_eq_ok h
  rw [find?, hu, getElem?_remember, getElem?_forget]
  rfl

theorem Indexed.replace (hp : p.Indexed) (h : p.replace i c = .ok (old, p')) : p'.Indexed := by
  obtain ⟨hg, -⟩ := replace_eq_ok h
  intro text j hj
  rw [find?_replace h, Option.or_eq_some_iff] at hj
  rcases hj with hj | ⟨-, hj⟩
  · obtain ⟨hkept, hfind⟩ := Option.ite_none_left_eq_some.1 hj
    have hget := hp hfind
    -- the text of the entry itself is not remembered any more
    have hne : j ≠ i := by
      rintro rfl
      exact hkept ⟨Except.ok.inj (hg.symm.trans hget), hfind⟩
    rwa [get_replace_of_ne h hne]
  · obtain ⟨hc, hi⟩ := Option.ite_none_right_eq_some.1 hj
    cases hi
    rw [get_replace_self h, hc]

theorem Indexed.push (hp : p.Indexed) (hcount : p.count < 0x10000) (c : Constant) :
    (p.push c).Indexed := by
  intro text j hj
  rw [find?_push, Option.or_eq_some_iff] at hj
  rcases hj with hj | ⟨-, hj⟩
  · exact get_push_of_get (hp hj)
  · obtain ⟨hc, hi⟩ := Option.ite_none_right_eq_some.1 hj
    cases hi
    rw [get_push_nextIndex hcount, hc]

theorem Built.indexed (hp : p.Built) (hc : p.count < 0x10000) : p.Indexed := by
  induction hp with
  | empty =>
    intro text i hf
    simp [find?, Pool.empty] at hf
  | push c _ ih =>
    rw [count_push] at hc
    have hlt := Nat.lt_of_le_of_lt (Nat.le_add_right _ c.width) hc
    exact (ih hlt).push hlt c
  | replace _ h ih =>
    rw [count_eq_of_shape (shape_replace h)] at hc
    exact (ih hc).replace h

theorem built_foldl_push (cs : List Constant) (hp : p.Built) : (cs.foldl push p).Built := by
  induction cs generalizing p with
  | nil => exact hp
  | cons c cs ih => exact ih (hp.push c)

theorem built_ofList (cs : List Constant) : (ofList cs).Built := built_foldl_push cs .empty

end Pool

end Repackage
