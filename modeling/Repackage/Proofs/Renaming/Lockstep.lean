import Repackage.Proofs.Renaming.Changes
import Repackage.Proofs.Renaming.Traversal

/-!
# Renaming a class once more

A class is renamed, and its result is renamed with the same table. The second run does the same
steps on the same indices, or on those that the first run has put in their place, and finds the
pool that the first run has left. `Paired` relates the states of the two runs: all that the second
has settled the first had settled, and what only the first had settled are texts that it has
replaced.

So a text that the second run tries in some role is one that the first run has tried in that role
and left alone, or one that it has replaced. If no text that was replaced changes again
(`ClassFile.Conclusive`), the second run changes nothing (`Repeats`).
-/

namespace Repackage

/-- A text that one use of its entry has changed is changed by no use of the entry again. -/
def ClassFile.Conclusive (t : Table) (c : ClassFile) : Prop :=
  ∀ ⦃i old new used role x⦄, c.constants.get i = .ok (.utf8 old) → c.Uses used i → c.Uses role i →
    Role.rename t used old = .ok (some new) → Role.rename t role new ≠ .ok (some x)

namespace Rewriter

variable {t : Table} {c : ClassFile} {s s' s₁ s₁' s₂ final : Rewriter} {role : Role}
  {i j : Index} {old text x : String} {d : Constant} {is : List Index}

/-! ## States -/

/-- The entry `i` is used in a role, and after that `j` is used in its place: `i` itself, which was
left alone, or an entry with the new form. -/
def Handled (role : Role) (s s' : Rewriter) (i j : Index) : Prop :=
  j = i ∧ Rewrite.Stays role i s ∨ Named role s s' i j

/-- An entry that is settled first and is another one makes no difference. -/
theorem Handled.unsettle {k : Index}
    (h : Handled role { s with settled := s.settled.insert i } s' j k) (hk : k ≠ i) :
    Handled role s s' j k := by
  rcases h with ⟨rfl, hstays⟩ | ⟨old, new, hj, hold, hr, hk, hnew⟩
  · exact .inl ⟨rfl, hstays.imp_left fun hk' => (mem_settle.1 hk').resolve_left hk⟩
  · exact .inr ⟨old, new, fun hj' => hj (mem_settle.2 (.inr hj')), hold, hr, hk, hnew⟩

/-- The state `s₁` in a run that renames the class `c` and ends in the state `final`, and the state
`s₂` in a run on its result, where both have done the same parts. -/
structure Paired (t : Table) (c : ClassFile) (final s₁ s₂ : Rewriter) : Prop where
  since : Evolves False c.UsesText (.start t c.constants) s₁
  rules : s₂.rules = t
  table : s₂.pool.table = final.pool.table
  settled : ∀ i ∈ s₂.settled, i ∈ s₁.settled
  ahead : ∀ i ∈ s₁.settled, i ∉ s₂.settled →
    i ∈ s₁.replaced ∧ ∃ old, c.constants.get i = .ok (.utf8 old)

theorem Paired.get (h : Paired t c final s₁ s₂) (i : Index) : s₂.pool.get i = final.pool.get i := by
  rw [Pool.get, Pool.get, h.table]

/-- Until it is settled, an entry holds what it held at first. -/
theorem Paired.get_of_not_settled (h : Paired t c final s₁ s₂) (hi : i ∉ s₁.settled) :
    s₁.pool.get i = c.constants.get i := by
  obtain ⟨is, h⟩ := h.since
  exact h.get_of_not_settled hi

theorem Paired.start {p : Pool} (hc : c.constants.Indexed) (hp : p.table = final.pool.table) :
    Paired t c final (.start t c.constants) (.start t p) where
  since := .refl hc
  rules := rfl
  table := hp
  settled _ hi := hi
  ahead _ hi hi' := absurd hi hi'

/-- A step of both runs. What the first settles and the second does not is a text that is
replaced. -/
theorem Paired.next (h : Paired t c final s₁ s₂) (h₁ : Evolves False c.UsesText s₁ s₁')
    {settled : Std.TreeSet Index} {events : Array Event} (hgrows : ∀ i ∈ s₂.settled, i ∈ settled)
    (hback : ∀ i ∈ settled, i ∈ s₁'.settled)
    (hahead : ∀ i ∈ s₁'.settled, i ∉ s₁.settled → i ∉ settled →
      i ∈ s₁'.replaced ∧ ∃ old, s₁.pool.get i = .ok (.utf8 old)) :
    Paired t c final s₁' { s₂ with settled, events } where
  since := h.since.trans h₁
  rules := h.rules
  table := h.table
  settled := hback
  ahead i hi hi' := by
    by_cases hs : i ∈ s₁.settled
    · obtain ⟨hreplaced, htext⟩ := h.ahead i hs fun hi => hi' (hgrows i hi)
      obtain ⟨is, h₁⟩ := h₁
      exact ⟨h₁.history ▸ List.mem_append_right is hreplaced, htext⟩
    · rw [← h.get_of_not_settled hs]
      exact hahead i hi hs hi'

theorem Paired.told (h : Paired t c final s₁ s₂) {events events' : Array Event} :
    Paired t c final { s₁ with events } { s₂ with events := events' } :=
  h.next (.tell h.since.indexed events) (fun _ hi => hi) h.settled fun _ hi hi' => absurd hi hi'

/-- What only the first run has settled is a text, and refers to none. -/
theorem Paired.settled_of_reference (h : Paired t c final s₁ s₂)
    (hlater : Evolves False c.UsesText s₁ final) (hi : i ∈ s₁.settled)
    (hd : s₂.pool.get i = .ok d) (href : d.reference? = some (role, j)) : i ∈ s₂.settled := by
  by_contra hi₂
  obtain ⟨-, old, hold⟩ := h.ahead i hi hi₂
  obtain ⟨text, htext⟩ := (h.since.trans hlater).text hold
  rw [h.get] at hd
  exact Rewrite.ne_utf8_of_reference? href text (Except.ok.inj (hd.symm.trans htext))

theorem Conclusive.of_replaced (hc : c.Conclusive t)
    (h : Replaces False c.UsesText is (.start t c.constants) s) (hi : i ∈ is)
    (hu : c.Uses role i) (htext : s.pool.get i = .ok (.utf8 text)) :
    role.rename t text ≠ .ok (some x) := by
  obtain ⟨d, d', hd, hd', hr⟩ := h.renamed i hi
  cases htext.symm.trans hd'
  obtain ⟨-, old, rfl, -⟩ := hr.to_text rfl
  obtain ⟨used, new, hused, hrename, hnew⟩ := hr.of_text rfl
  cases hnew
  exact hc hd (.of_start hused) hu hrename

/-- What the second run finds in the place of a text does not change in its role. -/
theorem Paired.quiet (hc : c.Conclusive t) (h : Paired t c final s₁ s₂)
    (h₁ : Evolves False c.UsesText s₁ s₁') (h₂ : Evolves False c.UsesText s₁' final)
    (hu : c.Uses role i) (hhandled : Handled role s₁ s₁' i j) (hj : j ∉ s₂.settled)
    (htext : s₂.pool.get j = .ok (.utf8 text)) : role.rename s₂.rules text ≠ .ok (some x) := by
  rw [h.get] at htext
  rw [h.rules]
  obtain ⟨is₁, hsince⟩ := h.since
  rcases hhandled with ⟨rfl, hstays⟩ | hnamed
  · obtain ⟨is₂, hlater⟩ := h₁.trans h₂
    have hall := hsince.trans hlater
    by_cases hi : j ∈ is₂ ++ is₁
    · exact Conclusive.of_replaced hc hall hi hu htext
    · -- the text has never changed, so it was not settled when it was tried
      rw [List.mem_append, not_or] at hi
      rcases hstays with hs | hnone
      · refine absurd ?_ hi.2
        have hreplaced := (h.ahead j hs hj).1
        rw [hsince.history] at hreplaced
        exact (List.mem_append.1 hreplaced).resolve_right List.not_mem_nil
      · rw [hlater.kept j hi.1] at htext
        have hkept := hnone text htext
        rw [hsince.rules] at hkept
        rw [show t = (Rewriter.start t c.constants).rules from rfl, hkept]
        nofun
  · obtain ⟨is₂, hlater⟩ := h₂
    obtain ⟨old, new, -, hold, hrename, -, hnew⟩ := (hnamed.later hlater).earlier hsince
    cases htext.symm.trans hnew
    exact hc hold hu hu hrename

end Rewriter

namespace Rewrite

open Rewriter

variable {α β γ δ : Type} {t : Table} {c : ClassFile} {final s s' s₁ s₁' s₂ s₂' : Rewriter}
  {role : Role} {i j : Index} {d : Constant}

/-! ## Single steps -/

theorem outcome_constant_eq_ok (h : (constant i).outcome s = (.ok d, s')) :
    s.pool.get i = .ok d ∧ s = s' :=
  Prod.mk.inj h

theorem Renaming.handled {new : Option Index} (hs : s.pool.Indexed)
    (h : Renaming role i s (.ok new) s') : Handled role s s' i (new.getD i) := by
  cases new with
  | some j => exact .inr (h.named hs)
  | none =>
    cases h with
    | kept hstays => exact .inl ⟨rfl, hstays⟩

/-- Texts are settled when they are replaced. -/
theorem Renaming.settles {r : Except ClassError (Option Index)} (h : Renaming role i s r s')
    (hj : j ∈ s'.settled) (hj' : j ∉ s.settled) :
    j ∈ s'.replaced ∧ ∃ old, s.pool.get j = .ok (.utf8 old) := by
  cases h with
  | overwritten _ hold =>
    cases (mem_settle.1 hj).resolve_right hj'
    exact ⟨List.mem_cons_self, _, hold⟩
  | _ => exact absurd hj hj'

theorem Repointing.settles {r : Except ClassError Bool} (h : Repointing role i j d s r s')
    {k : Index} (hk : k ∈ s'.settled) (hk' : k ∉ s.settled) :
    k ∈ s'.replaced ∧ ∃ old, s.pool.get k = .ok (.utf8 old) := by
  cases h with
  | overwritten _ hold =>
    cases (mem_settle.1 hk).resolve_right hk'
    exact ⟨List.mem_cons_self, _, hold⟩
  | _ => exact absurd hk hk'

theorem Repointing.handled {changed : Bool} (hs : s.pool.Indexed) (hd : s.pool.get i = .ok d)
    (href : d.reference? = some (role, j)) (h : Repointing role i j d s (.ok changed) s') :
    ∃ k, s'.pool.get i = .ok (d.withReference k) ∧ Handled role s s' j k := by
  have hself := Constant.withReference_self href
  cases h with
  | kept hstays => exact ⟨j, by rw [hself]; exact hd, .inl ⟨rfl, hstays⟩⟩
  | @shared old new k p events hj hold hr hf hk hp =>
    have hki : k ≠ i := by
      rintro rfl
      exact ne_utf8_of_reference? href new (Except.ok.inj (hd.symm.trans (hs hf)))
    refine ⟨k, Pool.get_replace_self hp, .inr ⟨old, new, hj, hold, hr, hk, ?_⟩⟩
    exact (Pool.get_replace_of_ne hp hki).trans (hs hf)
  | @overwritten old new p events hj hold hr hp =>
    have hij : i ≠ j := by
      rintro rfl
      exact ne_utf8_of_reference? href old (Except.ok.inj (hd.symm.trans hold))
    refine ⟨j, by rw [hself]; exact (Pool.get_replace_of_ne hp hij).trans hd, .inr ?_⟩
    exact ⟨old, new, hj, hold, hr, mem_settle.2 (.inl rfl), Pool.get_replace_self hp⟩

theorem Repointing.grows {r : Except ClassError Bool} (h : Repointing role i j d s r s') :
    ∀ k ∈ s.settled, k ∈ s'.settled := by
  cases h with
  | overwritten => exact fun k hk => mem_settle.2 (.inr hk)
  | _ => exact fun k hk => hk

/-- The second run does not change an entry that refers to a text. -/
theorem Repointing.again {changed changed' : Bool} {d' : Constant} {j' : Index}
    (hc : c.Conclusive t) (hs : s₁.pool.Indexed) (hi : i ∉ s₁.settled)
    (hd : s₁.pool.get i = .ok d) (href : d.reference? = some (role, j))
    (h : Repointing role i j d { s₁ with settled := s₁.settled.insert i } (.ok changed) s₁')
    (hlater : Evolves False c.UsesText s₁' final) (hpair : Paired t c final s₁ s₂)
    (hd' : s₂.pool.get i = .ok d') (href' : d'.reference? = some (role, j'))
    (h' : Repointing role i j' d' { s₂ with settled := s₂.settled.insert i } (.ok changed') s₂') :
    changed' = false ∧ Paired t c final s₁' s₂' := by
  have h₁ : Evolves False c.UsesText s₁ s₁' := h.evolves hs hi hd href
  have hu : c.Uses role j := .constant ((hpair.get_of_not_settled hi).symm.trans hd) href
  obtain ⟨k, hk, hhandled⟩ :=
    h.handled (s := { s₁ with settled := s₁.settled.insert i }) hs hd href
  -- the entry is settled now, so the second run finds what it refers to in the end
  have hfinal : final.pool.get i = .ok (d.withReference k) := by
    obtain ⟨is, hlater⟩ := hlater
    exact (hlater.get_of_settled (h.grows i (mem_settle.2 (.inl rfl)))).trans hk
  rw [hpair.get] at hd'
  cases hd'.symm.trans hfinal
  cases href'.symm.trans (Constant.reference?_withReference href k)
  have hquiet {old x : String} (hj : j' ∉ s₂.settled.insert i)
      (hold : s₂.pool.get j' = .ok (.utf8 old)) : role.rename s₂.rules old ≠ .ok (some x) :=
    hpair.quiet hc h₁ hlater hu (hhandled.unsettle fun e => hj (mem_settle.2 (.inl e)))
      (fun hj' => hj (mem_settle.2 (.inr hj'))) hold
  cases h' with
  | kept =>
    refine ⟨rfl, hpair.next h₁ (fun k hk => mem_settle.2 (.inr hk)) (fun k hk => ?_)
      fun k hk hk' hn => h.settles hk fun hk => ?_⟩
    · exact h.grows k (mem_settle.2 ((mem_settle.1 hk).imp_right (hpair.settled k)))
    · exact hn (mem_settle.2 (.inl ((mem_settle.1 hk).resolve_right hk')))
  | shared hj hold hr => exact absurd hr (hquiet hj hold)
  | overwritten hj hold hr => exact absurd hr (hquiet hj hold)

theorem Rewording.handled {changed : Bool} (h : Rewording i s (.ok changed) s') :
    Handled .plain s s' i i := by
  cases h with
  | kept hnone =>
    by_cases hi : i ∈ s.settled
    · exact .inl ⟨rfl, .inl hi⟩
    · exact .inl ⟨rfl, .inr fun old hold => congrArg Except.ok (hnone hi old hold)⟩
  | renamed hi hr hp =>
    exact .inr ⟨_, _, hi, (Pool.replace_eq_ok hp).1, congrArg Except.ok hr,
      mem_settle.2 (.inl rfl), Pool.get_replace_self hp⟩

theorem Rewording.settles {changed : Bool} (h : Rewording i s (.ok changed) s') :
    j ∈ s'.settled ↔ j = i ∨ j ∈ s.settled := by
  cases h <;> exact mem_settle

/-! ## Runs -/

/-- Where `m` is done in the first run with the result `a`, and `again a` in the second, they leave
their states paired, and the result of the second is `quiet`. -/
def Repeats (t : Table) (c : ClassFile) (final : Rewriter) (m : Rewrite α) (again : α → Rewrite β)
    (quiet : β → Prop) : Prop :=
  ∀ ⦃s₁ a s₁'⦄, s₁.pool.Indexed → m.outcome s₁ = (.ok a, s₁') →
    Evolves False c.UsesText s₁ s₁' ∧
      ∀ ⦃s₂ b s₂'⦄, Evolves False c.UsesText s₁' final → Paired t c final s₁ s₂ →
        (again a).outcome s₂ = (.ok b, s₂') → quiet b ∧ Paired t c final s₁' s₂'

variable {m : Rewrite α} {again : α → Rewrite β} {P : β → Prop} {n : Rewrite γ}
  {again' : γ → Rewrite δ} {Q : δ → Prop}

theorem Repeats.pure {a : α} {b : β} (hagain : again a = pure b) (h : P b) :
    Repeats t c final (pure a) again P := by
  intro s₁ a' s₁' hs hm
  cases hm
  refine ⟨.refl hs, fun s₂ b' s₂' _ hpair hm' => ?_⟩
  rw [hagain] at hm'
  cases hm'
  exact ⟨h, hpair⟩

/-- A result that is made from that of one step. -/
theorem Repeats.map (h : Repeats t c final m again P) (f : α → γ) (g : α → β → δ)
    (hn : n = do return f (← m)) (hagain : ∀ a, again' (f a) = do return g a (← again a))
    (hg : ∀ a b, P b → Q (g a b)) : Repeats t c final n again' Q := by
  intro s₁ x s₁' hs hm
  rw [hn] at hm
  obtain ⟨a, s, ha, hm⟩ := outcome_bind_eq_ok hm
  cases hm
  obtain ⟨h₁, hrepeats⟩ := h hs ha
  refine ⟨h₁, fun s₂ y s₂' hlater hpair hm' => ?_⟩
  rw [hagain] at hm'
  obtain ⟨b, s', hb, hm'⟩ := outcome_bind_eq_ok hm'
  cases hm'
  obtain ⟨hP, hpair'⟩ := hrepeats hlater hpair hb
  exact ⟨hg a b hP, hpair'⟩

/-- Two steps, one after the other. -/
theorem Repeats.seq (h : Repeats t c final m again P) (h' : Repeats t c final n again' Q) :
    Repeats t c final (do let a ← m; let b ← n; return (a, b))
      (fun r => do let a ← again r.1; let b ← again' r.2; return (a, b))
      fun r => P r.1 ∧ Q r.2 := by
  intro s₁ x s₁' hs hm
  obtain ⟨a, s, ha, hm⟩ := outcome_bind_eq_ok hm
  obtain ⟨b, s'', hb, hm⟩ := outcome_bind_eq_ok hm
  cases hm
  obtain ⟨h₁, hrepeats⟩ := h hs ha
  obtain ⟨h₂, hrepeats'⟩ := h' h₁.indexed hb
  refine ⟨h₁.trans h₂, fun s₂ y s₂' hlater hpair hm' => ?_⟩
  obtain ⟨a', s', ha', hm'⟩ := outcome_bind_eq_ok hm'
  obtain ⟨b', s₃, hb', hm'⟩ := outcome_bind_eq_ok hm'
  cases hm'
  obtain ⟨hP, hpair⟩ := hrepeats (h₂.trans hlater) hpair ha'
  obtain ⟨hQ, hpair⟩ := hrepeats' hlater hpair hb'
  exact ⟨⟨hP, hQ⟩, hpair⟩

variable (hc : c.Conclusive t)

include hc

theorem Repeats.renameUtf8 (hu : c.UsesText role i) :
    Repeats t c final (renameUtf8 role i) (fun new => renameUtf8 role (new.getD i)) (· = none) := by
  intro s₁ new s₁' hs hm
  obtain ⟨r, s, hm', hren⟩ := renameUtf8_renaming role i s₁
  cases hm'.symm.trans hm
  have h₁ : Evolves False c.UsesText s₁ s₁' := hren.evolves hs (.outside hu)
  refine ⟨h₁, fun s₂ new' s₂' hlater hpair hm₂ => ?_⟩
  obtain ⟨r, s, hm₂', hren₂⟩ := renameUtf8_renaming role (new.getD i) s₂
  cases hm₂'.symm.trans hm₂
  have hquiet {old x : String} (hj : new.getD i ∉ s₂.settled)
      (hold : s₂.pool.get (new.getD i) = .ok (.utf8 old)) :
      role.rename s₂.rules old ≠ .ok (some x) :=
    hpair.quiet hc h₁ hlater (.part hu) (hren.handled hs) hj hold
  cases hren₂ with
  | kept =>
    refine ⟨rfl, hpair.next h₁ (fun _ hi => hi) (fun j hj => h₁.settled (hpair.settled j hj)) ?_⟩
    exact fun j hj hj' _ => hren.settles hj hj'
  | shared hi hold hr => exact absurd hr (hquiet hi hold)
  | overwritten hi hold hr => exact absurd hr (hquiet hi hold)

theorem Repeats.of_referring {m : Rewrite Bool} (h : ∀ s, Referring role m i s) :
    Repeats t c final m (fun _ => m) (· = false) := by
  intro s₁ changed s₁' hs hm
  cases h s₁ with
  | settled hi hm' =>
    cases hm'.symm.trans hm
    have h₁ : Evolves False c.UsesText s₁ { s₁ with settled := s₁.settled.insert i } :=
      .settle hs (fun hn => absurd hi hn) _
    refine ⟨h₁, fun s₂ changed s₂' hlater hpair hm₂ => ?_⟩
    cases h s₂ with
    | settled _ hm₂' =>
      cases hm₂'.symm.trans hm₂
      refine ⟨rfl, hpair.next h₁ (fun j hj => mem_settle.2 (.inr hj)) (fun j hj => ?_) ?_⟩
      · exact mem_settle.2 ((mem_settle.1 hj).imp_right (hpair.settled j))
      · exact fun j hj hj' hn => absurd (mem_settle.2 ((mem_settle.1 hj).imp_right (absurd · hj'))) hn
    | failed hm₂' => cases hm₂'.symm.trans hm₂
    | refers hi₂ hd href =>
      exact absurd (hpair.settled_of_reference (h₁.trans hlater) hi hd href) hi₂
  | failed hm' => cases hm'.symm.trans hm
  | refers hi hd href hm' hrep =>
    cases hm'.symm.trans hm
    refine ⟨hrep.evolves hs hi hd href, fun s₂ changed' s₂' hlater hpair hm₂ => ?_⟩
    cases h s₂ with
    | settled hi₂ => exact absurd (hpair.settled i hi₂) hi
    | failed hm₂' => cases hm₂'.symm.trans hm₂
    | refers _ hd₂ href₂ hm₂' hrep₂ =>
      cases hm₂'.symm.trans hm₂
      exact hrep.again hc hs hi hd href hlater hpair hd₂ href₂ hrep₂

theorem Repeats.renameEntry (i : Index) :
    Repeats t c final (renameEntry i) (fun _ => renameEntry i) (· = false) := by
  intro s₁ changed s₁' hs hm
  have h₁ : Evolves False c.UsesText s₁ s₁' := (Walks.renameEntry i).succeeds hs hm
  refine ⟨h₁, fun s₂ changed' s₂' hlater hpair hm₂ => ?_⟩
  obtain ⟨r, s, hm', hrew⟩ := renameEntry_rewording i s₁
  cases hm'.symm.trans hm
  obtain ⟨r, s, hm₂', hrew₂⟩ := renameEntry_rewording i s₂
  cases hm₂'.symm.trans hm₂
  cases hrew₂ with
  | kept =>
    refine ⟨rfl, hpair.next h₁ (fun j hj => mem_settle.2 (.inr hj)) (fun j hj => ?_)
      fun j hj hj' hn => ?_⟩
    · exact hrew.settles.2 ((mem_settle.1 hj).imp_right (hpair.settled j))
    · exact absurd (mem_settle.2 (.inl ((hrew.settles.1 hj).resolve_right hj'))) hn
  | renamed hi hr hp =>
    exact absurd (congrArg Except.ok hr) (hpair.quiet hc h₁ hlater (.entry i) hrew.handled hi
      (Pool.replace_eq_ok hp).1)

omit hc in
/-- A step that depends on the kind of a constant, which the first run keeps. -/
theorem Repeats.constant {f : Constant → Rewrite Bool}
    (hf : ∀ d, Repeats t c final (f d) (fun _ => f d) (· = false))
    (hkind : ∀ d : Constant, f d.skeleton = f d) (i : Index) :
    Repeats t c final (do f (← constant i)) (fun _ => do f (← constant i)) (· = false) := by
  intro s₁ changed s₁' hs hm
  obtain ⟨d, s, hconstant, hm⟩ := outcome_bind_eq_ok hm
  obtain ⟨hd, rfl⟩ := outcome_constant_eq_ok hconstant
  obtain ⟨h₁, hrepeats⟩ := hf d hs hm
  refine ⟨h₁, fun s₂ changed' s₂' hlater hpair hm₂ => ?_⟩
  obtain ⟨d₂, s, hconstant, hm₂⟩ := outcome_bind_eq_ok hm₂
  obtain ⟨hd₂, rfl⟩ := outcome_constant_eq_ok hconstant
  obtain ⟨d', hd', hskeleton⟩ := (h₁.trans hlater).get_skeleton hd
  rw [hpair.get] at hd₂
  cases hd₂.symm.trans hd'
  rw [← hkind, hskeleton, hkind] at hm₂
  exact hrepeats hlater hpair hm₂

/-! ## Parts -/

omit hc in
/-- A part that is not rewritten. -/
theorem Repeats.still {f : α → Rewrite (Option α)} {x : α} (h : OnlyTells (f x)) :
    Repeats t c final (f x) (fun x' => f (x'.getD x)) (· = none) := by
  intro s₁ x' s₁' hs hm
  obtain ⟨r, events, hr, hnone⟩ := h s₁
  cases hr.symm.trans hm
  cases hnone x' rfl
  refine ⟨.tell hs events, fun s₂ y s₂' _ hpair hm₂ => ?_⟩
  obtain ⟨r, events, hr, hnone⟩ := h s₂
  cases hr.symm.trans hm₂
  exact ⟨hnone y rfl, hpair.told⟩

omit hc in
theorem Repeats.after {m : Rewrite α} {again : α → Rewrite β} {e : Event} {e' : α → Event}
    (h : Repeats t c final m again P) :
    Repeats t c final (do tell e; m) (fun a => do tell (e' a); again a) P := by
  intro s₁ a s₁' hs hm
  obtain ⟨_, s, htell, hm⟩ := outcome_bind_eq_ok hm
  cases htell
  obtain ⟨h₁, hrepeats⟩ := @h { s₁ with events := s₁.events.push e } a s₁' hs hm
  refine ⟨(Evolves.tell hs _).trans h₁, fun s₂ b s₂' hlater hpair hm₂ => ?_⟩
  obtain ⟨_, s, htell, hm₂⟩ := outcome_bind_eq_ok hm₂
  cases htell
  exact hrepeats hlater hpair.told hm₂

theorem Repeats.renameConstantValue (i : Index) :
    Repeats t c final (renameConstantValue i) (fun _ => renameConstantValue i) (· = false) := by
  refine Repeats.constant (fun d => ?_) (fun d => ?_) i
  · cases d with
    | string text => exact .of_referring hc (renameStringConstant_referring i)
    | _ => exact .pure rfl rfl
  · cases d <;> rfl

theorem Repeats.hereditary :
    Hereditary c.UsesText (fun m => Repeats t c final m (fun _ => m) (· = false))
      fun f x => Repeats t c final (f x) (fun x' => f (x'.getD x)) (· = none) where
  never := .pure rfl rfl
  refers := .of_referring hc
  value := .renameConstantValue hc
  text := .renameUtf8 hc
  still := .still
  after h hf := by
    simp only [hf]
    exact h.after
  flag {_ f x m} h hf := by
    refine h.map (fun b => if b then some x else none) (fun _ b => if b then some x else none) hf
      (fun a => ?_) (fun _ b hb => by rw [hb]; rfl)
    cases a <;> exact hf
  flags {_ f x m n} hm hn hf := by
    refine (hm.seq hn).map (fun r => if r.1 || r.2 then some x else none)
      (fun _ r => if r.1 || r.2 then some x else none) ?_ (fun r => ?_)
      (fun _ r hr => by rw [hr.1, hr.2]; rfl)
    · simp only [hf, bind_assoc, pure_bind]
    · have hself : (if r.1 || r.2 then some x else none).getD x = x := by split <;> rfl
      simp only [hself, hf, bind_assoc, pure_bind]
  map {_ _ f h g x} hx hf := by
    refine hx.map (Option.map g) (fun _ => Option.map g) (hf x) (fun x' => ?_)
      (fun _ b hb => by rw [hb]; rfl)
    rw [← hf]
    cases x' <;> rfl
  both {_ _ _ f h l g x y} hx hy hf := by
    have hf' (u v) : f (g u v) = do
        let u' ← h u
        let v' ← l v
        return if u'.isNone && v'.isNone then none else some (g (u'.getD u) (v'.getD v)) := by
      rw [hf]
      refine bind_congr fun u' => bind_congr fun v' => ?_
      split <;> rfl
    refine (hx.seq hy).map
      (fun r => if r.1.isNone && r.2.isNone then none else some (g (r.1.getD x) (r.2.getD y)))
      (fun r r' => if r'.1.isNone && r'.2.isNone then none
        else some (g (r'.1.getD (r.1.getD x)) (r'.2.getD (r.2.getD y)))) ?_ (fun r => ?_)
      (fun _ r hr => by rw [hr.1, hr.2]; rfl)
    · simp only [hf', bind_assoc, pure_bind]
    · have hself : (if r.1.isNone && r.2.isNone then none
          else some (g (r.1.getD x) (r.2.getD y))).getD (g x y) = g (r.1.getD x) (r.2.getD y) := by
        obtain ⟨u', v'⟩ := r
        cases u' <;> cases v' <;> rfl
      simp only [hself, hf', bind_assoc, pure_bind]
  cons {_ f h x xs} hx hxs hf := by
    refine (hx.seq hxs).map (fun r => consChanged x xs r.1 r.2)
      (fun r r' => consChanged (r.1.getD x) (r.2.getD xs) r'.1 r'.2) ?_ (fun r => ?_)
      (fun _ r hr => by rw [hr.1, hr.2]; rfl)
    · simp only [hf, bind_assoc, pure_bind]
    · have hself : (consChanged x xs r.1 r.2).getD (x :: xs) = r.1.getD x :: r.2.getD xs := by
        obtain ⟨x', xs'⟩ := r
        cases x' <;> cases xs' <;> rfl
      simp only [hself, hf, bind_assoc, pure_bind]

/-! ## Class files -/

omit hc in
/-- What goes on from a step whose result in the second run is known. -/
theorem Repeats.bind {m : Rewrite α} {m' : Rewrite β} {f : α → Rewrite γ} {f' : β → Rewrite δ}
    {b : β} (h : Repeats t c final m (fun _ => m') (· = b))
    (hf : ∀ a, Repeats t c final (f a) (fun _ => f' b) Q) :
    Repeats t c final (m >>= f) (fun _ => m' >>= f') Q := by
  intro s₁ x s₁' hs hm
  obtain ⟨a, s, ha, hm⟩ := outcome_bind_eq_ok hm
  obtain ⟨h₁, hrepeats⟩ := h hs ha
  obtain ⟨h₂, hrepeats'⟩ := hf a h₁.indexed hm
  refine ⟨h₁.trans h₂, fun s₂ y s₂' hlater hpair hm₂ => ?_⟩
  obtain ⟨b', s', hb, hm₂⟩ := outcome_bind_eq_ok hm₂
  obtain ⟨rfl, hpair⟩ := hrepeats (h₂.trans hlater) hpair hb
  exact hrepeats' hlater hpair hm₂

/-- A class is renamed, and what is done with its new name only tells something. The second run has
no new name. -/
theorem Repeats.renameClass (i : Index) {f g : String → Rewrite α} {a b : α} {P : α → Prop}
    (hf : ∀ name s x s', (f name).outcome s = (.ok x, s') → ∃ events, s' = { s with events })
    (hb : P b) :
    Repeats t c final (do if ← renameClass i then f (← (← get).pool.className i) else return a)
      (fun _ => do if ← renameClass i then g (← (← get).pool.className i) else return b) P := by
  refine .bind (.of_referring hc (renameClass_referring i)) fun changed => ?_
  intro s₁ x s₁' hs h
  have htold : ∃ events, s₁' = { s₁ with events } := by
    cases changed with
    | false =>
      cases h
      exact ⟨_, rfl⟩
    | true =>
      obtain ⟨_, _, hget, h⟩ := outcome_bind_eq_ok h
      cases hget
      obtain ⟨name, s, hname, h⟩ := outcome_bind_eq_ok h
      obtain ⟨-, rfl⟩ := outcome_lift_eq_ok hname
      exact hf name _ x s₁' h
  obtain ⟨events, rfl⟩ := htold
  refine ⟨.tell hs events, fun s₂ b' s₂' _ hpair h₂ => ?_⟩
  cases h₂
  exact ⟨hb, hpair.told⟩

theorem Repeats.renameNamed (i : Index) (name name' : String) :
    Repeats t c final (renameNamed i name) (fun _ => renameNamed i name')
      (· = .unchanged name') := by
  refine .renameClass hc i (fun new s x s' h => ?_) rfl
  cases h
  exact ⟨_, rfl⟩

theorem Repeats.renameThis (i : Index) (resource resource' name name' : String) :
    Repeats t c final (renameThis resource i name) (fun _ => renameThis resource' i name')
      (· = (.unchanged resource', .unchanged name')) := by
  refine .renameClass hc i (fun new s x s' h => ?_) rfl
  obtain ⟨_, _, htell, h⟩ := outcome_bind_eq_ok h
  cases htell
  cases h
  exact ⟨_, rfl⟩

theorem Repeats.renameSuper {named named' : Option (Index × String)}
    (h : named'.map Prod.fst = named.map Prod.fst) :
    Repeats t c final (renameSuper named) (fun _ => renameSuper named')
      fun change => change.differs = false := by
  cases named with
  | none =>
    cases Option.map_eq_none_iff.1 h
    exact .pure rfl Change.differs_unchanged
  | some p =>
    obtain ⟨p', rfl, hp⟩ := Option.map_eq_some_iff.1 h
    refine (Repeats.renameNamed hc p.1 p.2 p'.2).map
      (fun change => ⟨some change.input, some change.output⟩)
      (fun _ change => ⟨some change.input, some change.output⟩) rfl (fun _ => by rw [← hp]; rfl) ?_
    rintro _ change rfl
    exact Change.differs_unchanged

omit hc in
theorem Repeats.rewriteCounting {f : α → Rewrite (Option α)} {xs : List α}
    (h : ∀ x ∈ xs, Repeats t c final (f x) (fun x' => f (x'.getD x)) (· = none)) :
    Repeats t c final (rewriteCounting f xs) (fun r => rewriteCounting f r.1) fun r => r.2 = 0 := by
  induction xs with
  | nil => exact .pure rfl rfl
  | cons x xs ih =>
    refine ((h x List.mem_cons_self).seq (ih fun y hy => h y (List.mem_cons_of_mem x hy))).map
      (fun r => (r.1.getD x :: r.2.1, if r.1.isSome then r.2.2 + 1 else r.2.2))
      (fun r r' => (r'.1.getD (r.1.getD x) :: r'.2.1, if r'.1.isSome then r'.2.2 + 1 else r'.2.2))
      ?_ (fun r => ?_) (fun _ r hr => ?_)
    · simp only [bind_assoc, pure_bind]
      rfl
    · simp only [bind_assoc, pure_bind]
      rfl
    · rw [hr.1]
      exact hr.2

theorem Repeats.renameConstant (i : Index) :
    Repeats t c final (renameConstant i) (fun _ => renameConstant i) (· = false) := by
  refine Repeats.constant (fun d => ?_) (fun d => ?_) i
  · cases d with
    | classInfo name => exact .of_referring hc (renameClass_referring i)
    | nameAndType name descriptor => exact .of_referring hc (renameNameAndType_referring i)
    | methodType descriptor => exact .of_referring hc (renameMethodType_referring i)
    | string text => exact .of_referring hc (renameStringConstant_referring i)
    | utf8 text => exact .renameEntry hc i
    | _ => exact .pure rfl rfl
  · cases d <;> rfl

theorem Repeats.renameConstants (is : List Index) (count count' : Nat) :
    Repeats t c final (renameConstants is count) (fun _ => renameConstants is count')
      (· = count') := by
  induction is generalizing count with
  | nil => exact .pure rfl rfl
  | cons i is ih => exact .bind (.renameConstant hc i) fun changed => ih _

theorem Repeats.renamePool :
    Repeats t c final renamePool (fun _ => renamePool) (· = 0) := by
  intro s₁ count s₁' hs hm
  have h₁ : Evolves False c.UsesText s₁ s₁' := Walks.renamePool.succeeds hs hm
  refine ⟨h₁, fun s₂ count' s₂' hlater hpair hm₂ => ?_⟩
  have hshape : s₂.pool.shape = s₁.pool.shape := by
    obtain ⟨is, hall⟩ := h₁.trans hlater
    rw [← hall.shape]
    unfold Pool.shape Pool.count
    rw [hpair.table]
  obtain ⟨_, _, hget, hm⟩ := outcome_bind_eq_ok hm
  cases hget
  obtain ⟨n, s, hn, hm⟩ := outcome_bind_eq_ok hm
  obtain ⟨_, _, htell, hm⟩ := outcome_bind_eq_ok hm
  cases htell
  cases hm
  obtain ⟨_, _, hget, hm₂⟩ := outcome_bind_eq_ok hm₂
  cases hget
  obtain ⟨n', s', hn', hm₂⟩ := outcome_bind_eq_ok hm₂
  obtain ⟨_, _, htell, hm₂⟩ := outcome_bind_eq_ok hm₂
  cases htell
  cases hm₂
  rw [Pool.indices_eq_of_shape hshape] at hn'
  obtain ⟨h₁, hrepeats⟩ := Repeats.renameConstants hc _ 0 0 hs hn
  obtain ⟨hquiet, hpair⟩ := hrepeats ((Evolves.tell h₁.indexed _).trans hlater) hpair hn'
  exact ⟨hquiet, hpair.told⟩

/-- A class that is renamed once more does not change. -/
theorem Repeats.unchanged {resource resource' : String} {c' c'' : ClassFile}
    {changes changes' : Changes} {p : Pool} (hindexed : c.constants.Indexed)
    (hp : p.table = final.pool.table)
    (h₁ : Stages resource c (.start t c.constants) final c' changes)
    (h₂ : Stages resource' { c' with constants := p } (.start t p) s' c'' changes') :
    changes'.any = false := by
  have hall : Covers c.UsesText c.texts := fun _ hm => hm
  have hparts := @hereditary t c final hc
  have hclass (i) (_ : i ∈ c.interfaces) := hparts.rewriteClass i
  have hfield (m) (hm : m ∈ c.fields) := hparts.rewriteField (hall.left.left.member hm)
  have hmethod (m) (hm : m ∈ c.methods) := hparts.rewriteMethod (hall.left.right.member hm)
  have hattribute (a) (ha : a ∈ c.attributes) :=
    hparts.rewriteAttribute .ofClass a (hall.right.attribute ha)
  obtain ⟨-, hsuperClass, -, hthis, hsuper, hinterfaces, hfields, hmethods, hattributes, hpool⟩ := h₁
  obtain ⟨-, hsuperClass', -, hthis', hsuper', hinterfaces', hfields', hmethods', hattributes',
    hpool'⟩ := h₂
  -- the first run
  obtain ⟨h₃, rthis⟩ := renameThis hc _ _ _ _ _ hindexed hthis
  obtain ⟨h₄, rsuper⟩ := renameSuper hc (hsuperClass'.trans hsuperClass.symm) h₃.indexed hsuper
  obtain ⟨h₅, rinterfaces⟩ := rewriteCounting hclass h₄.indexed hinterfaces
  obtain ⟨h₆, rfields⟩ := rewriteCounting hfield h₅.indexed hfields
  obtain ⟨h₇, rmethods⟩ := rewriteCounting hmethod h₆.indexed hmethods
  obtain ⟨h₈, rattributes⟩ := rewriteCounting hattribute h₇.indexed hattributes
  obtain ⟨h₉, rpool⟩ := renamePool hc h₈.indexed hpool
  -- the second
  have l₈ := h₈.trans h₉
  have l₇ := h₇.trans l₈
  have l₆ := h₆.trans l₇
  have l₅ := h₅.trans l₆
  obtain ⟨hthis, hpair⟩ := rthis (h₄.trans l₅) (.start hindexed hp) hthis'
  obtain ⟨hsuper, hpair⟩ := rsuper l₅ hpair hsuper'
  obtain ⟨hinterfaces, hpair⟩ := rinterfaces l₆ hpair hinterfaces'
  obtain ⟨hfields, hpair⟩ := rfields l₇ hpair hfields'
  obtain ⟨hmethods, hpair⟩ := rmethods l₈ hpair hmethods'
  obtain ⟨hattributes, hpair⟩ := rattributes h₉ hpair hattributes'
  obtain ⟨hpool, -⟩ := rpool (.refl h₉.indexed) hpair hpool'
  refine Changes.any_eq_false.2 ⟨?_, hsuper, hinterfaces, hfields, hmethods, hattributes, hpool⟩
  rw [hthis, Change.differs_unchanged, Change.differs_unchanged, Bool.or_false]

end Rewrite

end Repackage
