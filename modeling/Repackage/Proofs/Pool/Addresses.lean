import Mathlib.Algebra.BigOperators.Ring.Finset
import Repackage.Proofs.Pool.Edits

/-!
# Indices and widths

A constant gets the index after those that the constants before it take, and an eight-byte number
takes two. So an index is one more than the widths of the constants before it, and the next index
one more than all widths. The constant at an offset is found by halving the entries, and an index
that is no entry's finds nothing, whether it is 0, the second of a wide constant or past the end
(`Pool.Addressed`).

This holds of all pools that edits lead to, as long as indices do not run out. What is added is then
found where it is said to be (`Pool.Resolves`), and an exchange changes one entry or fails and leaves
the pool as it was (`Pool.Exchanges`).
-/

namespace Repackage

namespace Pool

variable {p p' : Pool} {i j : Index} {c d old : Constant} {start next : Nat}

/-! ## Consecutive indices -/

/-- How many indices constants take. -/
def widths (cs : List Constant) : Nat := (cs.map Constant.width).sum

theorem next_eq {es : List (Nat × Constant)} (h : Consecutive Constant.width start es next) :
    next = start + widths (es.map Prod.snd) := by
  induction es generalizing start with
  | nil => exact h
  | cons e es ih =>
    rw [ih h.2]
    simp only [widths, List.map_cons, List.sum_cons, Nat.add_assoc]

theorem offset_eq {before after : List (Nat × Constant)} {offset : Nat}
    (h : Consecutive Constant.width start (before ++ (offset, c) :: after) next) :
    offset = start + widths (before.map Prod.snd) := by
  induction before generalizing start with
  | nil => exact h.1
  | cons e before ih =>
    rw [ih h.2]
    simp only [widths, List.map_cons, List.sum_cons, Nat.add_assoc]

theorem count_eq (p : Pool) : p.count = 1 + widths p.toList := next_eq p.table.consecutive

/-- An entry is stored with its index. -/
theorem mem_table_of_mem_entries (hcount : p.count ≤ 0x10000) (h : (i, c) ∈ p.entries) :
    (i.toNat, c) ∈ p.table.entries.toList := get_eq_ok.1 (get_of_mem_entries hcount h)

theorem index_eq (hcount : p.count ≤ 0x10000) {before after : List (Index × Constant)}
    (h : p.entries = before ++ (i, c) :: after) :
    i.toNat = 1 + widths (before.map Prod.snd) := by
  obtain ⟨es, ds, htable, hbefore, hrest⟩ := List.map_eq_append_iff.1 h
  obtain ⟨e, rest, rfl, hentry, -⟩ := List.map_eq_cons_iff.1 hrest
  cases hentry
  have hspaced := p.table.consecutive
  rw [htable] at hspaced
  have hoffset := offset_eq hspaced
  have hmem : e ∈ p.table.entries.toList := by
    rw [htable]
    exact List.mem_append_right _ List.mem_cons_self
  have hsame : before.map Prod.snd = es.map Prod.snd := by
    rw [← hbefore, List.map_map]
    rfl
  rw [toNat_ofNat_offset hcount hmem, hsame]
  exact hoffset

theorem bounds (hcount : p.count ≤ 0x10000) (hi : (i, c) ∈ p.entries) :
    1 ≤ i.toNat ∧ i.toNat + c.width ≤ p.count :=
  p.table.consecutive.bounds.2 _ (mem_table_of_mem_entries hcount hi)

/-- Two entries do not share an index, nor does one have the second index of the other. -/
theorem apart (hcount : p.count ≤ 0x10000) (hi : (i, c) ∈ p.entries) (hj : (j, d) ∈ p.entries) :
    (j, d) = (i, c) ∨ j.toNat + d.width ≤ i.toNat ∨ i.toNat + c.width ≤ j.toNat := by
  obtain ⟨k, hk, hik⟩ := List.mem_iff_getElem.1 (mem_table_of_mem_entries hcount hi)
  obtain ⟨m, hm, hjm⟩ := List.mem_iff_getElem.1 (mem_table_of_mem_entries hcount hj)
  have hpairwise := List.pairwise_iff_getElem.1 p.table.consecutive.pairwise
  rcases Nat.lt_trichotomy k m with hlt | rfl | hgt
  · have hafter := hpairwise k m hk hm hlt
    rw [hik, hjm] at hafter
    exact .inr (.inr hafter)
  · obtain ⟨hindex, rfl⟩ := Prod.mk.inj (hjm.symm.trans hik)
    rw [UInt16.toNat_inj.1 hindex]
    exact .inl rfl
  · have hbefore := hpairwise m k hm hk hgt
    rw [hik, hjm] at hbefore
    exact .inr (.inl hbefore)

/-! ## Looking up -/

theorem get_of_forall_not_mem (h : ∀ c, (i, c) ∉ p.entries) :
    p.get i = .error (.missingConstant i) := by
  cases hget : p.get i with
  | ok c => exact absurd (mem_entries_of_get hget) (h c)
  | error e => rw [eq_missingConstant_of_get hget]

/-- Entries follow each other by their widths, and an index finds its entry or nothing. -/
structure Addressed (p : Pool) : Prop where
  index : ∀ before i c after, p.entries = before ++ (i, c) :: after →
    i.toNat = 1 + widths (before.map Prod.snd)
  count : p.count = 1 + widths (p.entries.map Prod.snd)
  /-- The search finds the entry at an offset, and its position. -/
  found : ∀ offset k c, p.table.get offset = .ok (k, c) ↔ p.table.entries[k]? = some (offset, c)
  /-- The search fails at an offset past all entries, or else names the first entry after it. -/
  missed : ∀ offset e, p.table.get offset = .error e ↔
    (e = .tooLarge ∧ ∀ (k : Nat) d, p.table.entries[k]? = some d → d.1 < offset) ∨
      ∃ k d, e = .between k ∧ p.table.entries[k]? = some d ∧ offset < d.1 ∧
        ∀ j d, j < k → p.table.entries[j]? = some d → d.1 < offset
  entry : ∀ i c, p.get i = .ok c ↔ (i, c) ∈ p.entries
  other : ∀ i, i ∉ p.entries.map Prod.fst → p.get i = .error (.missingConstant i)
  zero : p.get 0 = .error (.missingConstant 0)
  second : ∀ i c, (i, c) ∈ p.entries → c.isWide = true →
    p.get (i + 1) = .error (.missingConstant (i + 1))
  beyond : ∀ i, p.count ≤ i.toNat → p.get i = .error (.missingConstant i)

theorem addressed (hcount : p.count ≤ 0xffff) : p.Addressed := by
  have hle : p.count ≤ 0x10000 := Nat.le_succ_of_le hcount
  exact {
    index := fun _ _ _ _ h => index_eq hle h
    count := by rw [← toList_eq, count_eq]
    found := fun _ _ _ => OffsetArray.get_eq_ok Constant.width_pos
    missed := fun _ _ => OffsetArray.get_eq_error Constant.width_pos
    entry := fun _ _ => ⟨mem_entries_of_get, get_of_mem_entries hle⟩
    other := fun i hi => get_of_forall_not_mem fun c hc => hi (List.mem_map.2 ⟨(i, c), hc, rfl⟩)
    zero := get_of_forall_not_mem fun c hc => absurd (bounds hle hc).1 (by decide)
    second := fun i c hi hwide => by
      refine get_of_forall_not_mem fun d hd => ?_
      have hwidth : c.width = 2 := by simp [Constant.width, hwide]
      have hbound := (bounds hle hi).2
      have hnext : (i + 1).toNat = i.toNat + 1 := by
        rw [UInt16.toNat_add, UInt16.toNat_one]
        omega
      have hpos := d.width_pos
      rcases apart hle hi hd with h | h | h
      · have := congrArg (fun e => e.1.toNat) h
        simp only at this
        omega
      · omega
      · omega
    beyond := fun i hi => get_of_forall_not_mem fun c hc => by
      have hbound := (bounds hle hc).2
      have hpos := c.width_pos
      omega }

/-! ## Indices handed out -/

/-- The index that is handed out for a constant is that of the constant. -/
structure Resolves (p : Pool) : Prop where
  push : ∀ c, (p.push c).get p.nextIndex = .ok c
  utf8 : ∀ text p' i, p.internUtf8 text = (p', i) → p'.utf8 i = .ok text
  classInfo : ∀ name p' i, p.internClass name = (p', i) → p'.count ≤ 0x10000 →
    p'.className i = .ok name
  nameAndType : ∀ name descriptor p' i, p.internNameAndType name descriptor = (p', i) →
    p'.count ≤ 0x10000 → ∃ n d, p'.nameAndType i = .ok (n, d) ∧ p'.utf8 n = .ok name ∧
      p'.utf8 d = .ok descriptor

theorem nameAndType_of_get {name descriptor : Index}
    (h : p.get i = .ok (.nameAndType name descriptor)) :
    p.nameAndType i = .ok (name, descriptor) := by
  unfold nameAndType
  rw [h]
  rfl

theorem Indexed.className_internClass (hp : p.Indexed) (name : String)
    (hcount : (p.internClass name).1.count ≤ 0x10000) :
    (p.internClass name).1.className (p.internClass name).2 = .ok name := by
  rw [internClass_eq] at hcount ⊢
  have hname := get_internUtf8 hp (Nat.le_trans (count_le_intern _ _) hcount)
  exact className_eq_ok.2 ⟨_, get_intern hcount, get_intern_of_get hname _⟩

theorem Indexed.nameAndType_internNameAndType (hp : p.Indexed) (hlt : p.count < 0x10000)
    (name descriptor : String)
    (hcount : (p.internNameAndType name descriptor).1.count ≤ 0x10000) :
    ∃ n d, (p.internNameAndType name descriptor).1.nameAndType
        (p.internNameAndType name descriptor).2 = .ok (n, d) ∧
      (p.internNameAndType name descriptor).1.utf8 n = .ok name ∧
      (p.internNameAndType name descriptor).1.utf8 d = .ok descriptor := by
  rw [internNameAndType_eq] at hcount ⊢
  have hcount₂ := Nat.le_trans (count_le_intern _ _) hcount
  have hcount₁ := Nat.le_trans (count_le_internUtf8 _ _) hcount₂
  have hname := get_internUtf8 hp hcount₁
  have hdescriptor := get_internUtf8 (indexed_internUtf8 hp hlt name) hcount₂
  refine ⟨_, _, nameAndType_of_get (get_intern hcount), ?_, ?_⟩
  · exact utf8_eq_ok.2 (get_intern_of_get (get_internUtf8_of_get hname descriptor) _)
  · exact utf8_eq_ok.2 (get_intern_of_get hdescriptor _)

theorem Indexed.resolves (hp : p.Indexed) (hcount : p.count ≤ 0xffff) : p.Resolves where
  push c := get_push_nextIndex (by omega)
  utf8 text p' i h := by
    have hcount' : (p.internUtf8 text).1.count ≤ 0x10000 := by
      unfold internUtf8
      split
      · exact Nat.le_succ_of_le hcount
      · rw [count_push]
        exact Nat.succ_le_succ hcount
    have hget := get_internUtf8 hp hcount'
    rw [h] at hget
    exact utf8_eq_ok.2 hget
  classInfo name p' i h hcount' := by
    have hname := hp.className_internClass name
    rw [h] at hname
    exact hname hcount'
  nameAndType name descriptor p' i h hcount' := by
    have hparts := hp.nameAndType_internNameAndType (Nat.lt_succ_of_le hcount) name descriptor
    rw [h] at hparts
    exact hparts hcount'

/-! ## Exchanges -/

/-- A constant goes to the index of an entry as wide, and no other entry changes. Else the exchange
fails and changes nothing, neither the entries nor what is remembered. -/
structure Exchanges (p : Pool) : Prop where
  succeeds : ∀ i c, (∃ old p', p.exchange i c = (.ok old, p')) ↔
    ∃ old, (i, old) ∈ p.entries ∧ old.width = c.width
  changes : ∀ i c old p', p.exchange i c = (.ok old, p') →
    (i, old) ∈ p.entries ∧ p'.count = p.count ∧
      p'.entries = p.entries.map fun e => if e.1 = i then (i, c) else e
  fails : ∀ i c e p', p.exchange i c = (.error e, p') → p' = p ∧
    (e = .missingConstant i ∧ i ∉ p.entries.map Prod.fst ∨
      e = .incompatibleWidth i ∧ ∃ old, (i, old) ∈ p.entries ∧ old.width ≠ c.width)

theorem entries_replace (hcount : p.count ≤ 0x10000) (h : p.replace i c = .ok (old, p')) :
    p'.entries = p.entries.map fun e => if e.1 = i then (i, c) else e := by
  obtain ⟨-, -, -, hentries, -⟩ := replace_eq_ok h
  rw [entries, entries, hentries, List.map_map, List.map_map]
  refine List.map_congr_left fun e he => ?_
  have hiff : UInt16.ofNat e.1 = i ↔ e.1 = i.toNat := by
    rw [← UInt16.toNat_inj, toNat_ofNat_offset hcount he]
  by_cases he : e.1 = i.toNat
  · simp [he]
  · simp [he, hiff]

theorem exchanges (hcount : p.count ≤ 0x10000) : p.Exchanges where
  succeeds i c := by
    obtain ⟨old, p', hget, hwidth, hexchange, -⟩ | ⟨old, hget, hwidth, hexchange⟩ |
      ⟨hget, hexchange⟩ := exchange_cases p i c
    · exact ⟨fun _ => ⟨old, mem_entries_of_get hget, hwidth⟩, fun _ => ⟨old, p', hexchange⟩⟩
    · constructor
      · rintro ⟨_, _, h⟩
        cases hexchange.symm.trans h
      · rintro ⟨_, hmem, hsame⟩
        cases hget.symm.trans (get_of_mem_entries hcount hmem)
        exact absurd hsame hwidth
    · constructor
      · rintro ⟨_, _, h⟩
        cases hexchange.symm.trans h
      · rintro ⟨_, hmem, -⟩
        cases hget.symm.trans (get_of_mem_entries hcount hmem)
  changes i c old p' h := by
    have hreplace := replace_eq_ok_iff.2 h
    obtain ⟨hget, -, hkept, -, -⟩ := replace_eq_ok hreplace
    exact ⟨mem_entries_of_get hget, hkept, entries_replace hcount hreplace⟩
  fails i c e p' h := by
    obtain ⟨old, q, -, -, hexchange, -⟩ | ⟨old, hget, hwidth, hexchange⟩ | ⟨hget, hexchange⟩ :=
      exchange_cases p i c
    · cases hexchange.symm.trans h
    · cases hexchange.symm.trans h
      exact ⟨rfl, .inr ⟨rfl, old, mem_entries_of_get hget, hwidth⟩⟩
    · cases hexchange.symm.trans h
      refine ⟨rfl, .inl ⟨rfl, fun hmem => ?_⟩⟩
      obtain ⟨⟨_, old⟩, hentry, rfl⟩ := List.mem_map.1 hmem
      cases hget.symm.trans (get_of_mem_entries hcount hentry)

/-! ## After any edits -/

/-- Whatever the edits, constants stand where their indices say and are replaced there. -/
theorem addressed_edited (edits : List Edit) (hcount : (edited edits).count ≤ 0xffff) :
    (edited edits).Addressed ∧ (edited edits).Resolves ∧ (edited edits).Exchanges :=
  have hbuilt := built_edited edits
  ⟨addressed hcount, (hbuilt.indexed (Nat.lt_succ_of_le hcount)).resolves hcount,
    exchanges (Nat.le_succ_of_le hcount)⟩

/-- Two wide constants, the last one at the end, and replacements that are refused: at the second
index of the first, past the end, and by one that is narrower. -/
def gapped : List Edit :=
  [.internClass "a", .push (.long 7), .internNameAndType "f" "J", .replace 4 (.utf8 "b"),
    .replace 9 (.utf8 "b"), .replace 3 (.utf8 "b"), .replace 3 (.double 0), .push (.double 1)]

theorem addressed_edited_gapped :
    (edited gapped).count ≤ 0xffff ∧ (edited gapped).Addressed ∧ (edited gapped).Resolves ∧
      (edited gapped).Exchanges :=
  have hcount : (edited gapped).count ≤ 0xffff := by decide +kernel
  ⟨hcount, addressed_edited gapped hcount⟩

end Pool

end Repackage
