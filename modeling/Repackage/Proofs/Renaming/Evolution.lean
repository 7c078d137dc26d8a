import Repackage.Proofs.Pool.Lookup
import Repackage.Renaming.Rewriter

/-!
# How a rewriter evolves

`Rewriter.Replaces failed U is s s'` is all that renaming can do between two states of a
rewriter: the entries `is`, none of them settled before, are replaced once each and settled,
by a renaming of what they hold, and every other entry stays. The relation composes
(`Replaces.trans`): a settled entry is never replaced again, and the entries that are not
settled still hold what they held at first.

`U` says what texts are used as by all that is not a constant of the pool. `failed` tells
whether a step has failed on the way: only then may a text be settled without having been
tried.
-/

namespace Repackage

namespace Constant

/-- The text that a constant refers to, and what it uses it as. -/
def reference? : Constant → Option (Role × Index)
  | .classInfo name => some (.className, name)
  | .nameAndType _ descriptor => some (.descriptor, descriptor)
  | .methodType descriptor => some (.descriptor, descriptor)
  | .string text => some (.plain, text)
  | _ => none

/-- The constant with another index in the place of that text's. -/
def withReference : Constant → Index → Constant
  | .classInfo _, j => .classInfo j
  | .nameAndType name _, j => .nameAndType name j
  | .methodType _, j => .methodType j
  | .string _, j => .string j
  | c, _ => c

theorem withReference_self {c : Constant} {role : Role} {j : Index}
    (h : c.reference? = some (role, j)) : c.withReference j = c := by
  cases c <;> cases h <;> rfl

theorem reference?_withReference {c : Constant} {role : Role} {j : Index}
    (h : c.reference? = some (role, j)) (k : Index) :
    (c.withReference k).reference? = some (role, k) := by
  cases c <;> cases h <;> rfl

end Constant

namespace Rewriter

variable {failed failed₁ failed₂ : Prop} {U : Role → Index → Prop} {is js : List Index}
  {s s₁ s₂ : Rewriter} {role : Role} {i j k : Index} {c d : Constant} {old new : String}

/-- A rewriter that has renamed nothing yet. -/
def start (t : Table) (p : Pool) : Rewriter := { rules := t, pool := p }

/-- The text at `i` is not settled in `s`, and `j` holds its new form, settled, in `s'`. -/
def Named (role : Role) (s s' : Rewriter) (i j : Index) : Prop :=
  ∃ old new, i ∉ s.settled ∧ s.pool.get i = .ok (.utf8 old) ∧
    role.rename s.rules old = .ok (some new) ∧ j ∈ s'.settled ∧ s'.pool.get j = .ok (.utf8 new)

/-- What the text at an index can be renamed as. -/
inductive Uses (U : Role → Index → Prop) (s : Rewriter) : Role → Index → Prop where
  | entry (i : Index) : Uses U s .plain i
  | constant {role : Role} {i k : Index} {c : Constant} : k ∉ s.settled →
      s.pool.get k = .ok c → c.reference? = some (role, i) → Uses U s role i
  | outside {role : Role} {i : Index} : U role i → Uses U s role i

/-- Texts may be used in every way. -/
def AnyUse (_ : Role) (_ : Index) : Prop := True

/-- What can take the place of the constant at `i`. -/
inductive Renames (U : Role → Index → Prop) (s s' : Rewriter) (i : Index) :
    Constant → Constant → Prop where
  | text {role : Role} {old new : String} : Uses U s role i →
      role.rename s.rules old = .ok (some new) → Renames U s s' i (.utf8 old) (.utf8 new)
  | reference {c : Constant} {role : Role} {j k : Index} : c.reference? = some (role, j) →
      Named role s s' j k → Renames U s s' i c (c.withReference k)

structure Replaces (failed : Prop) (U : Role → Index → Prop) (is : List Index)
    (s s' : Rewriter) : Prop where
  rules : s'.rules = s.rules
  shape : s'.pool.shape = s.pool.shape
  indexed : s'.pool.Indexed
  settled : ∀ i ∈ s.settled, i ∈ s'.settled
  history : s'.replaced = is ++ s.replaced
  nodup : is.Nodup
  fresh : ∀ i ∈ is, i ∉ s.settled
  done : ∀ i ∈ is, i ∈ s'.settled
  renamed : ∀ i ∈ is, ∃ c d, s.pool.get i = .ok c ∧ s'.pool.get i = .ok d ∧ Renames U s s' i c d
  kept : ∀ i, i ∉ is → s'.pool.get i = s.pool.get i
  tried : ∀ i text, i ∉ s.settled → i ∈ s'.settled → i ∉ is → s.pool.get i = .ok (.utf8 text) →
    failed ∨ s.rules.renameText text = none

theorem mem_settle {settled : Std.TreeSet Index} : j ∈ settled.insert i ↔ j = i ∨ j ∈ settled := by
  rw [Std.TreeSet.mem_insert, Std.LawfulEqCmp.compare_eq_iff_eq, eq_comm]

theorem Renames.of_text (h : Renames U s s₁ i c d) (hc : c = .utf8 old) :
    ∃ role new, Uses U s role i ∧ role.rename s.rules old = .ok (some new) ∧ d = .utf8 new := by
  cases h with
  | text hu hr =>
    cases hc
    exact ⟨_, _, hu, hr, rfl⟩
  | reference href =>
    subst hc
    cases href

theorem Renames.to_text (h : Renames U s s₁ i c d) (hd : d = .utf8 new) :
    ∃ role old, c = .utf8 old ∧ Role.rename s.rules role old = .ok (some new) := by
  cases h with
  | text hu hr =>
    cases hd
    exact ⟨_, _, rfl, hr⟩
  | reference href => cases c <;> cases href <;> cases hd

theorem Replaces.text (h : Replaces failed U is s s₁) (hold : s.pool.get i = .ok (.utf8 old)) :
    ∃ text, s₁.pool.get i = .ok (.utf8 text) := by
  by_cases hi : i ∈ is
  · obtain ⟨c, d, hc, hd, hr⟩ := h.renamed i hi
    cases hold.symm.trans hc
    obtain ⟨role, new, -, -, rfl⟩ := hr.of_text rfl
    exact ⟨new, hd⟩
  · exact ⟨old, (h.kept i hi).trans hold⟩

/-! ## Composition -/

theorem Replaces.get_of_settled (h : Replaces failed U is s s₁) (hi : i ∈ s.settled) :
    s₁.pool.get i = s.pool.get i :=
  h.kept i fun hm => h.fresh i hm hi

theorem Replaces.not_settled (h : Replaces failed U is s s₁) (hi : i ∉ s₁.settled) :
    i ∉ s.settled :=
  fun hm => hi (h.settled i hm)

theorem Replaces.get_of_not_settled (h : Replaces failed U is s s₁) (hi : i ∉ s₁.settled) :
    s₁.pool.get i = s.pool.get i :=
  h.kept i fun hm => hi (h.done i hm)

theorem Named.later (hn : Named role s s₁ i j) (h : Replaces failed U is s₁ s₂) :
    Named role s s₂ i j := by
  obtain ⟨old, new, hi, hold, hrename, hj, hnew⟩ := hn
  exact ⟨old, new, hi, hold, hrename, h.settled j hj, (h.get_of_settled hj).trans hnew⟩

theorem Named.earlier (h : Replaces failed U is s s₁) (hn : Named role s₁ s₂ i j) :
    Named role s s₂ i j := by
  obtain ⟨old, new, hi, hold, hrename, hj, hnew⟩ := hn
  rw [h.get_of_not_settled hi] at hold
  rw [h.rules] at hrename
  exact ⟨old, new, h.not_settled hi, hold, hrename, hj, hnew⟩

theorem Uses.earlier (h : Replaces failed U is s s₁) (hu : Uses U s₁ role i) :
    Uses U s role i := by
  cases hu with
  | entry => exact .entry i
  | constant hk hc href =>
    rw [h.get_of_not_settled hk] at hc
    exact .constant (h.not_settled hk) hc href
  | outside hu => exact .outside hu

theorem Renames.later (hr : Renames U s s₁ i c d) (h : Replaces failed U is s₁ s₂) :
    Renames U s s₂ i c d := by
  cases hr with
  | text hu hrename => exact .text hu hrename
  | reference href hn => exact .reference href (hn.later h)

theorem Renames.earlier (h : Replaces failed U is s s₁) (hr : Renames U s₁ s₂ i c d) :
    Renames U s s₂ i c d := by
  cases hr with
  | text hu hrename =>
    rw [h.rules] at hrename
    exact .text (hu.earlier h) hrename
  | reference href hn => exact .reference href (hn.earlier h)

theorem Replaces.trans (h₁ : Replaces failed U is s s₁) (h₂ : Replaces failed U js s₁ s₂) :
    Replaces failed U (js ++ is) s s₂ where
  rules := h₂.rules.trans h₁.rules
  shape := h₂.shape.trans h₁.shape
  indexed := h₂.indexed
  settled i hi := h₂.settled i (h₁.settled i hi)
  history := by rw [h₂.history, h₁.history, List.append_assoc]
  nodup := by
    refine List.nodup_append.2 ⟨h₂.nodup, h₁.nodup, ?_⟩
    rintro i hj _ hi rfl
    exact h₂.fresh i hj (h₁.done i hi)
  fresh i hi := by
    rcases List.mem_append.1 hi with hj | hi
    · exact h₁.not_settled (h₂.fresh i hj)
    · exact h₁.fresh i hi
  done i hi := by
    rcases List.mem_append.1 hi with hj | hi
    · exact h₂.done i hj
    · exact h₂.settled i (h₁.done i hi)
  renamed i hi := by
    -- what is replaced later is as it was at first, what is replaced first stays so
    rcases List.mem_append.1 hi with hj | hi
    · obtain ⟨c, d, hc, hd, hr⟩ := h₂.renamed i hj
      rw [h₁.get_of_not_settled (h₂.fresh i hj)] at hc
      exact ⟨c, d, hc, hd, hr.earlier h₁⟩
    · obtain ⟨c, d, hc, hd, hr⟩ := h₁.renamed i hi
      rw [← h₂.get_of_settled (h₁.done i hi)] at hd
      exact ⟨c, d, hc, hd, hr.later h₂⟩
  kept i hi := by
    rw [List.mem_append, not_or] at hi
    rw [h₂.kept i hi.1, h₁.kept i hi.2]
  tried i text hi hi' hm hg := by
    rw [List.mem_append, not_or] at hm
    by_cases hmid : i ∈ s₁.settled
    · exact h₁.tried i text hi hmid hm.2 hg
    · rw [← h₁.kept i hm.2] at hg
      rw [← h₁.rules]
      exact h₂.tried i text hmid hi' hm.1 hg

theorem Replaces.imp (h : Replaces failed₁ U is s s₁) (hf : failed₁ → failed₂) :
    Replaces failed₂ U is s s₁ :=
  { h with tried := fun i text hi hi' hm hg => (h.tried i text hi hi' hm hg).imp_left hf }

/-! ## Single changes -/

/-- Entries are settled but none is replaced. -/
theorem Replaces.none {settled : Std.TreeSet Index} {events : Array Event} (hs : s.pool.Indexed)
    (hgrows : ∀ i ∈ s.settled, i ∈ settled)
    (htried : ∀ i ∈ settled, i ∉ s.settled → ∀ text, s.pool.get i = .ok (.utf8 text) →
      failed ∨ s.rules.renameText text = none) :
    Replaces failed U [] s { s with settled, events } where
  rules := rfl
  shape := rfl
  indexed := hs
  settled := hgrows
  history := rfl
  nodup := .nil
  fresh _ hi := by cases hi
  done _ hi := by cases hi
  renamed _ hi := by cases hi
  kept _ _ := rfl
  tried i text hi hi' _ hg := htried i hi' hi text hg

/-- One entry is replaced. Of all that is settled with it no other is a text. -/
theorem Replaces.one {settled : Std.TreeSet Index} {p : Pool} {events : Array Event}
    (hs : s.pool.Indexed) (hi : i ∉ s.settled) (h : s.pool.replace i d = .ok (c, p))
    (hgrows : ∀ j ∈ s.settled, j ∈ settled) (hdone : i ∈ settled)
    (htexts : ∀ j ∈ settled, j ∉ s.settled → j ≠ i → ∀ text, s.pool.get j ≠ .ok (.utf8 text))
    (hr : Renames U s { s with pool := p, settled, replaced := i :: s.replaced, events } i c d) :
    Replaces failed U [i] s { s with pool := p, settled, replaced := i :: s.replaced, events } where
  rules := rfl
  shape := Pool.shape_replace h
  indexed := hs.replace h
  settled := hgrows
  history := rfl
  nodup := List.pairwise_singleton _ i
  fresh j hj := by rwa [List.mem_singleton.1 hj]
  done j hj := by rwa [List.mem_singleton.1 hj]
  renamed j hj := by
    cases List.mem_singleton.1 hj
    exact ⟨c, d, (Pool.replace_eq_ok h).1, Pool.get_replace_self h, hr⟩
  kept j hj := Pool.get_replace_of_ne h fun e => hj (List.mem_singleton.2 e)
  tried j text hj hj' hne hg :=
    absurd hg (htexts j hj' hj (fun e => hne (List.mem_singleton.2 e)) text)

/-- Some entries are replaced. -/
def Evolves (failed : Prop) (U : Role → Index → Prop) (s s' : Rewriter) : Prop :=
  ∃ is, Replaces failed U is s s'

theorem Evolves.tell (hs : s.pool.Indexed) (events : Array Event) :
    Evolves failed U s { s with events } :=
  ⟨[], .none hs (fun _ hi => hi) fun _ hi hn => absurd hi hn⟩

theorem Evolves.refl (hs : s.pool.Indexed) : Evolves failed U s s := .tell hs s.events

theorem Evolves.settle (hs : s.pool.Indexed)
    (htried : i ∉ s.settled → ∀ text, s.pool.get i = .ok (.utf8 text) →
      failed ∨ s.rules.renameText text = none) (events : Array Event) :
    Evolves failed U s { s with settled := s.settled.insert i, events } := by
  refine ⟨[], .none hs (fun j hj => mem_settle.2 (.inr hj)) fun j hj hn text hg => ?_⟩
  rcases mem_settle.1 hj with rfl | h
  · exact htried hn text hg
  · exact absurd h hn

/-- An entry is replaced, and nothing else is settled with it. -/
theorem Evolves.replace {p : Pool} {events : Array Event} (hs : s.pool.Indexed)
    (hi : i ∉ s.settled) (h : s.pool.replace i d = .ok (c, p))
    (hr : Renames U s
      { s with pool := p, settled := s.settled.insert i, replaced := i :: s.replaced, events }
      i c d) :
    Evolves failed U s
      { s with pool := p, settled := s.settled.insert i, replaced := i :: s.replaced, events } := by
  refine ⟨[i], .one hs hi h (fun j hj => mem_settle.2 (.inr hj)) (mem_settle.2 (.inl rfl)) ?_ hr⟩
  intro j hj hn hne
  exact absurd ((mem_settle.1 hj).resolve_left hne) hn

theorem Evolves.trans (h₁ : Evolves failed U s s₁) (h₂ : Evolves failed U s₁ s₂) :
    Evolves failed U s s₂ := by
  obtain ⟨is, h₁⟩ := h₁
  obtain ⟨js, h₂⟩ := h₂
  exact ⟨js ++ is, h₁.trans h₂⟩

theorem Evolves.imp (h : Evolves failed₁ U s s₁) (hf : failed₁ → failed₂) :
    Evolves failed₂ U s s₁ := by
  obtain ⟨is, h⟩ := h
  exact ⟨is, h.imp hf⟩

theorem Evolves.indexed (h : Evolves failed U s s₁) : s₁.pool.Indexed := by
  obtain ⟨is, h⟩ := h
  exact h.indexed

end Rewriter

end Repackage
