import Repackage.Proofs.Renaming.Evolution

/-!
# What the renaming of one constant does

Each operation of a rewriter on one constant replaces at most one entry, and leaves the
rewriter evolved from its state before. `Walks U m` says this of a computation `m`, from
every state, however it ends.
-/

namespace Repackage

namespace Rewrite

open Rewriter

variable {α β : Type} {U : Role → Index → Prop} {s s' : Rewriter} {role : Role} {i j : Index}
  {c d : Constant} {e : ClassError}

/-! ## Outcomes -/

/-- How a computation ends from a state. -/
def outcome (m : Rewrite α) (s : Rewriter) : Except ClassError α × Rewriter := m.run.run s

@[simp] theorem outcome_pure (a : α) : outcome (pure a) s = (.ok a, s) := rfl

theorem outcome_bind (m : Rewrite α) (f : α → Rewrite β) :
    (m >>= f).outcome s =
      match m.outcome s with
      | (.ok a, s') => (f a).outcome s'
      | (.error e, s') => (.error e, s') := by
  have h : (m >>= f).outcome s =
    match m.outcome s with
    | (r, s') => (ExceptT.bindCont f r).run s' := rfl
  rw [h]
  rcases m.outcome s with ⟨_ | _, s'⟩ <;> rfl

@[simp] theorem outcome_ite {p : Prop} [Decidable p] (m m' : Rewrite α) :
    outcome (if p then m else m') s = if p then m.outcome s else m'.outcome s :=
  apply_ite (outcome · s) ..

@[simp] theorem outcome_get : outcome get s = (.ok s, s) := rfl

@[simp] theorem outcome_lift (r : Except ClassError α) : outcome (liftM r) s = (r, s) := rfl

@[simp] theorem outcome_isSettled :
    (isSettled i).outcome s = (.ok (s.settled.contains i), s) := rfl

@[simp] theorem outcome_settle : (settle i).outcome s =
    (.ok !s.settled.contains i, { s with settled := s.settled.insert i }) := rfl

@[simp] theorem outcome_tell (e : Event) :
    (tell e).outcome s = (.ok (), { s with events := s.events.push e }) := rfl

@[simp] theorem outcome_tellAll (es : List Event) :
    (tellAll es).outcome s = (.ok (), { s with events := s.events ++ es }) := rfl

@[simp] theorem outcome_constant : (constant i).outcome s = (s.pool.get i, s) := rfl

@[simp] theorem outcome_replace : (replace i d).outcome s =
    match s.pool.replace i d with
    | .ok (_, p) => (.ok (), { s with pool := p, replaced := i :: s.replaced })
    | .error e => (.error e, s) := by
  unfold replace
  rw [outcome_bind, outcome_get]
  cases h : s.pool.replace i d with
  | ok r => simp only [Pool.replace_eq_ok_iff.1 h]; rfl
  | error e => simp only [Pool.exchange_of_error h]; rfl

/-! ## Texts -/

/-- The text at `i` has nothing to become in a role: it is settled, or no text, or it would not
change. -/
def Stays (role : Role) (i : Index) (s : Rewriter) : Prop :=
  i ∈ s.settled ∨ ∀ old, s.pool.get i = .ok (.utf8 old) → role.rename s.rules old = .ok none

/-- What the renaming of the text at `i` comes to. -/
inductive Renaming (role : Role) (i : Index) (s : Rewriter) :
    Except ClassError (Option Index) → Rewriter → Prop where
  | failed {e : ClassError} {events : Array Event} : Renaming role i s (.error e) { s with events }
  | kept {events : Array Event} : Stays role i s → Renaming role i s (.ok none) { s with events }
  | shared {old new : String} {j : Index} {events : Array Event} : i ∉ s.settled →
      s.pool.get i = .ok (.utf8 old) → role.rename s.rules old = .ok (some new) →
      s.pool.find? new = some j → j ∈ s.settled →
      Renaming role i s (.ok (some j)) { s with events }
  | overwritten {old new : String} {p : Pool} {events : Array Event} : i ∉ s.settled →
      s.pool.get i = .ok (.utf8 old) → role.rename s.rules old = .ok (some new) →
      s.pool.replace i (.utf8 new) = .ok (.utf8 old, p) →
      Renaming role i s (.ok (some i))
        { s with pool := p, settled := s.settled.insert i, replaced := i :: s.replaced, events }

theorem overwrite_renaming {old new : String} {events : Array Event} (hi : i ∉ s.settled)
    (hg : s.pool.get i = .ok (.utf8 old)) (hr : role.rename s.rules old = .ok (some new)) :
    ∃ r s', (overwrite i new).outcome { s with events } = (r, s') ∧
      Renaming role i s (r.map some) s' := by
  simp only [overwrite, outcome_bind, outcome_replace]
  cases hp : s.pool.replace i (.utf8 new) with
  | error e => exact ⟨_, _, rfl, .failed⟩
  | ok cp =>
    obtain ⟨c, p⟩ := cp
    cases hg.symm.trans (Pool.replace_eq_ok hp).1
    exact ⟨_, _, rfl, .overwritten hi hg hr hp⟩

theorem store_renaming {old new : String} {events : Array Event} (hi : i ∉ s.settled)
    (hg : s.pool.get i = .ok (.utf8 old)) (hr : role.rename s.rules old = .ok (some new)) :
    ∃ r s', (store i new).outcome { s with events } = (r, s') ∧
      Renaming role i s (r.map some) s' := by
  simp only [store, outcome_bind, outcome_get]
  cases hf : s.pool.find? new with
  | none => exact overwrite_renaming hi hg hr
  | some j =>
    simp only [outcome_bind, outcome_isSettled, outcome_ite, Std.TreeSet.contains_iff_mem]
    by_cases hj : j ∈ s.settled
    · rw [if_pos hj]
      exact ⟨_, _, rfl, .shared hi hg hr hf hj⟩
    · rw [if_neg hj]
      exact overwrite_renaming hi hg hr

theorem renameUtf8_renaming (role : Role) (i : Index) (s : Rewriter) :
    ∃ r s', (renameUtf8 role i).outcome s = (r, s') ∧ Renaming role i s r s' := by
  simp only [renameUtf8, outcome_bind, outcome_isSettled, outcome_ite, Std.TreeSet.contains_iff_mem]
  by_cases hi : i ∈ s.settled
  · rw [if_pos hi]
    exact ⟨_, _, rfl, .kept (.inl hi)⟩
  rw [if_neg hi, outcome_constant]
  cases hg : s.pool.get i with
  | error e => exact ⟨_, _, rfl, .failed⟩
  | ok c =>
    cases c with
    | utf8 old =>
      simp only [outcome_bind, outcome_get, outcome_tellAll, outcome_lift]
      cases hr : role.rename s.rules old with
      | error e => exact ⟨_, _, rfl, .failed⟩
      | ok new =>
        cases new with
        | none =>
          refine ⟨_, _, rfl, .kept (.inr fun old' hg' => ?_)⟩
          cases hg.symm.trans hg'
          exact hr
        | some new =>
          simp only [outcome_bind, outcome_tell]
          obtain ⟨r, s', h, hren⟩ := store_renaming hi hg hr
          rw [h]
          cases r with
          | error e => exact ⟨_, _, rfl, hren⟩
          | ok j => exact ⟨_, _, rfl, hren⟩
    | rawUtf8 bytes => exact ⟨_, _, rfl, .kept (.inr fun _ hg' => nomatch hg.symm.trans hg')⟩
    | _ => exact ⟨_, _, rfl, .failed⟩

variable {r : Except ClassError (Option Index)} {failed : Prop}

theorem Renaming.evolves (h : Renaming role i s r s') (hs : s.pool.Indexed)
    (hu : Uses U s role i) : Evolves failed U s s' := by
  cases h with
  | failed => exact .tell hs _
  | kept => exact .tell hs _
  | shared => exact .tell hs _
  | overwritten hi _ hr hp => exact .replace hs hi hp (.text hu hr)

theorem Renaming.named (h : Renaming role i s (.ok (some j)) s') (hs : s.pool.Indexed) :
    Named role s s' i j := by
  cases h with
  | shared hi hg hr hf hj => exact ⟨_, _, hi, hg, hr, hj, hs hf⟩
  | overwritten hi hg hr hp =>
    exact ⟨_, _, hi, hg, hr, mem_settle.2 (.inl rfl), Pool.get_replace_self hp⟩

/-! ## Constants that refer to a text -/

theorem ne_utf8_of_reference? (h : c.reference? = some (role, j)) (text : String) :
    c ≠ .utf8 text := by
  rintro rfl
  cases h

/-- What the renaming of the text at `j` comes to for the entry `i`, which holds `c`. -/
inductive Repointing (role : Role) (i j : Index) (c : Constant) (s : Rewriter) :
    Except ClassError Bool → Rewriter → Prop where
  | failed {e : ClassError} {events : Array Event} :
      Repointing role i j c s (.error e) { s with events }
  | kept {events : Array Event} : Stays role j s →
      Repointing role i j c s (.ok false) { s with events }
  | shared {old new : String} {k : Index} {p : Pool} {events : Array Event} : j ∉ s.settled →
      s.pool.get j = .ok (.utf8 old) → role.rename s.rules old = .ok (some new) →
      s.pool.find? new = some k → k ∈ s.settled →
      s.pool.replace i (c.withReference k) = .ok (c, p) →
      Repointing role i j c s (.ok true) { s with pool := p, replaced := i :: s.replaced, events }
  | overwritten {old new : String} {p : Pool} {events : Array Event} : j ∉ s.settled →
      s.pool.get j = .ok (.utf8 old) → role.rename s.rules old = .ok (some new) →
      s.pool.replace j (.utf8 new) = .ok (.utf8 old, p) →
      Repointing role i j c s (.ok true)
        { s with pool := p, settled := s.settled.insert j, replaced := j :: s.replaced, events }

theorem renameReferred_repointing (hc : s.pool.get i = .ok c) :
    ∃ r s', (renameReferred role i j c.withReference).outcome s = (r, s') ∧
      Repointing role i j c s r s' := by
  simp only [renameReferred, outcome_bind]
  obtain ⟨r, s', h, hren⟩ := renameUtf8_renaming role j s
  rw [h]
  cases hren with
  | failed => exact ⟨_, _, rfl, .failed⟩
  | kept hstays => exact ⟨_, _, rfl, .kept hstays⟩
  | @shared old new k events hj hold hr hf hk =>
    -- the entry that is shared is settled, so it is not the old one
    have hne : k ≠ j := fun e => hj (e ▸ hk)
    simp only [outcome_bind, if_pos hne, outcome_replace]
    cases hp : s.pool.replace i (c.withReference k) with
    | error e => exact ⟨_, _, rfl, .failed⟩
    | ok cp =>
      obtain ⟨c', p⟩ := cp
      cases hc.symm.trans (Pool.replace_eq_ok hp).1
      exact ⟨_, _, rfl, .shared hj hold hr hf hk hp⟩
  | @overwritten old new p events hj hold hr hp =>
    simp only [ne_eq, not_true_eq_false, if_false, outcome_pure]
    exact ⟨_, _, rfl, .overwritten hj hold hr hp⟩

theorem Repointing.evolves {r : Except ClassError Bool} (hs : s.pool.Indexed) (hi : i ∉ s.settled)
    (hc : s.pool.get i = .ok c) (href : c.reference? = some (role, j))
    (h : Repointing role i j c { s with settled := s.settled.insert i } r s') :
    Evolves failed U s s' := by
  have htext : ∀ text, s.pool.get i ≠ .ok (.utf8 text) := fun text hg =>
    ne_utf8_of_reference? href text (Except.ok.inj (hc.symm.trans hg))
  have hsettle (events : Array Event) :
      Evolves failed U s { s with settled := s.settled.insert i, events } :=
    .settle hs (fun _ text hg => absurd hg (htext text)) events
  have hjs (hj : j ∉ s.settled.insert i) : j ∉ s.settled := fun hj' => hj (mem_settle.2 (.inr hj'))
  cases h with
  | failed => exact hsettle _
  | kept => exact hsettle _
  | @shared old new k p events hj hold hr hf hk hp =>
    have hki : k ≠ i := fun e => htext new (e ▸ hs hf)
    refine .replace hs hi hp (.reference href ⟨old, new, hjs hj, hold, hr, hk, ?_⟩)
    exact (Pool.get_replace_of_ne hp hki).trans (hs hf)
  | @overwritten old new p events hj hold hr hp =>
    -- `i` stays and is settled along with its text; it is no text itself
    refine ⟨[j], .one hs (hjs hj) hp ?_ (mem_settle.2 (.inl rfl)) ?_
      (.text (.constant hi hc href) hr)⟩
    · intro k hk
      exact mem_settle.2 (.inr (mem_settle.2 (.inr hk)))
    · intro k hk hn hne
      have hki : k = i := (mem_settle.1 ((mem_settle.1 hk).resolve_left hne)).resolve_right hn
      exact hki ▸ htext

/-- `m` renames the text that the entry `i` refers to in a role. -/
inductive Referring (role : Role) (m : Rewrite Bool) (i : Index) (s : Rewriter) : Prop where
  | settled : i ∈ s.settled →
      m.outcome s = (.ok false, { s with settled := s.settled.insert i }) → Referring role m i s
  | failed {e : ClassError} :
      m.outcome s = (.error e, { s with settled := s.settled.insert i }) → Referring role m i s
  | refers {c : Constant} {j : Index} {r : Except ClassError Bool} {s' : Rewriter} :
      i ∉ s.settled → s.pool.get i = .ok c → c.reference? = some (role, j) → m.outcome s = (r, s') →
      Repointing role i j c { s with settled := s.settled.insert i } r s' → Referring role m i s

theorem outcome_unless_settled (rest : Rewrite Bool) :
    outcome (do if !(← settle i) then return false else rest) s =
      if i ∈ s.settled then (.ok false, { s with settled := s.settled.insert i })
      else rest.outcome { s with settled := s.settled.insert i } := by
  simp only [outcome_bind, outcome_settle, outcome_ite, Bool.not_not, Std.TreeSet.contains_iff_mem,
    outcome_pure]

theorem Referring.of_rest {rest : Rewrite Bool}
    (h : (∃ e, rest.outcome { s with settled := s.settled.insert i } =
        (.error e, { s with settled := s.settled.insert i })) ∨
      ∃ c j, s.pool.get i = .ok c ∧ c.reference? = some (role, j) ∧
        rest.outcome { s with settled := s.settled.insert i } =
          (renameReferred role i j c.withReference).outcome
            { s with settled := s.settled.insert i }) :
    Referring role (do if !(← settle i) then return false else rest) i s := by
  by_cases hi : i ∈ s.settled
  · exact .settled hi (by rw [outcome_unless_settled, if_pos hi])
  · rcases h with ⟨e, h⟩ | ⟨c, j, hc, href, h⟩
    · exact .failed (by rw [outcome_unless_settled, if_neg hi, h])
    · obtain ⟨r, s', hr, hrep⟩ :=
        renameReferred_repointing (s := { s with settled := s.settled.insert i }) hc
      exact .refers hi hc href (by rw [outcome_unless_settled, if_neg hi, h, hr]) hrep

theorem renameClass_referring (i : Index) (s : Rewriter) :
    Referring .className (renameClass i) i s := by
  refine .of_rest ?_
  simp only [outcome_bind, outcome_get, outcome_lift, Pool.classNameIndex]
  cases hc : s.pool.get i with
  | error e => exact .inl ⟨_, rfl⟩
  | ok c =>
    cases c with
    | classInfo name => exact .inr ⟨_, _, rfl, rfl, rfl⟩
    | _ => exact .inl ⟨_, rfl⟩

theorem renameNameAndType_referring (i : Index) (s : Rewriter) :
    Referring .descriptor (renameNameAndType i) i s := by
  refine .of_rest ?_
  simp only [outcome_bind, outcome_get, outcome_lift, Pool.nameAndType]
  cases hc : s.pool.get i with
  | error e => exact .inl ⟨_, rfl⟩
  | ok c =>
    cases c with
    | nameAndType name descriptor => exact .inr ⟨_, _, rfl, rfl, rfl⟩
    | _ => exact .inl ⟨_, rfl⟩

theorem renameMethodType_referring (i : Index) (s : Rewriter) :
    Referring .descriptor (renameMethodType i) i s := by
  refine .of_rest ?_
  simp only [outcome_bind, outcome_constant]
  cases hc : s.pool.get i with
  | error e => exact .inl ⟨_, rfl⟩
  | ok c =>
    cases c with
    | methodType descriptor => exact .inr ⟨_, _, rfl, rfl, rfl⟩
    | _ => exact .inl ⟨_, rfl⟩

theorem renameStringConstant_referring (i : Index) (s : Rewriter) :
    Referring .plain (renameStringConstant i) i s := by
  refine .of_rest ?_
  simp only [outcome_bind, outcome_constant]
  cases hc : s.pool.get i with
  | error e => exact .inl ⟨_, rfl⟩
  | ok c =>
    cases c with
    | string text => exact .inr ⟨_, _, rfl, rfl, rfl⟩
    | _ => exact .inl ⟨_, rfl⟩

/-! ## Walks -/

def Fails (m : Rewrite α) (s : Rewriter) : Prop := ∃ e, (m.outcome s).1 = .error e

/-- However it ends, `m` leaves a state evolved from the one before. -/
def Walks (U : Role → Index → Prop) (m : Rewrite α) : Prop :=
  ∀ s, s.pool.Indexed → Evolves (Fails m s) U s (m.outcome s).2

theorem Walks.look {m : Rewrite α} (h : ∀ s, (m.outcome s).2 = s) : Walks U m := by
  intro s hs
  rw [h s]
  exact .refl hs

theorem Walks.pure (a : α) : Walks U (pure a) := .look fun _ => rfl

theorem Walks.constant (i : Index) : Walks U (constant i) := .look fun _ => rfl

theorem Walks.get : Walks U get := .look fun _ => rfl

theorem Walks.lift (r : Except ClassError α) : Walks U (liftM r : Rewrite α) := .look fun _ => rfl

theorem Walks.tell (e : Event) : Walks U (tell e) := fun _ hs => .tell hs _

theorem Walks.tellAll (es : List Event) : Walks U (tellAll es) := fun _ hs => .tell hs _

theorem Walks.bind {m : Rewrite α} {f : α → Rewrite β} (hm : Walks U m)
    (hf : ∀ a, Walks U (f a)) : Walks U (m >>= f) := by
  intro s hs
  have h₁ := hm s hs
  unfold Fails at h₁ ⊢
  rw [outcome_bind]
  rcases hr : m.outcome s with ⟨_ | a, s'⟩
  · rw [hr] at h₁
    exact h₁.imp fun _ => ⟨_, rfl⟩
  · rw [hr] at h₁
    exact (h₁.imp fun ⟨_, h⟩ => nomatch h).trans (hf a s' h₁.indexed)

theorem Walks.ite {p : Prop} [Decidable p] {m m' : Rewrite α} (hm : Walks U m)
    (hm' : Walks U m') : Walks U (if p then m else m') := by
  split
  · exact hm
  · exact hm'

theorem Walks.renameUtf8 (h : U role i) : Walks U (renameUtf8 role i) := by
  intro s hs
  obtain ⟨r, s', hr, hren⟩ := renameUtf8_renaming role i s
  rw [hr]
  exact hren.evolves hs (.outside h)

theorem Walks.of_referring {m : Rewrite Bool} (h : ∀ s, Referring role m i s) : Walks U m := by
  intro s hs
  unfold Fails
  cases h s with
  | settled hi hm =>
    rw [hm]
    exact .settle hs (fun hn => absurd hi hn) _
  | failed hm =>
    rw [hm]
    exact .settle hs (fun _ _ _ => .inl ⟨_, rfl⟩) _
  | refers hi hc href hm hrep =>
    rw [hm]
    exact hrep.evolves hs hi hc href

theorem Walks.renameClass (i : Index) : Walks U (renameClass i) :=
  .of_referring (renameClass_referring i)

theorem Walks.renameNameAndType (i : Index) : Walks U (renameNameAndType i) :=
  .of_referring (renameNameAndType_referring i)

theorem Walks.renameMethodType (i : Index) : Walks U (renameMethodType i) :=
  .of_referring (renameMethodType_referring i)

theorem Walks.renameStringConstant (i : Index) : Walks U (renameStringConstant i) :=
  .of_referring (renameStringConstant_referring i)

/-- What the renaming of the entry `i` for itself comes to. It is settled before it is looked
at. -/
inductive Rewording (i : Index) (s : Rewriter) : Except ClassError Bool → Rewriter → Prop where
  | failed {e : ClassError} {events : Array Event} :
      Rewording i s (.error e) { s with settled := s.settled.insert i, events }
  | kept {events : Array Event} :
      (i ∉ s.settled → ∀ text, s.pool.get i = .ok (.utf8 text) → s.rules.renameText text = none) →
      Rewording i s (.ok false) { s with settled := s.settled.insert i, events }
  | renamed {old new : String} {p : Pool} {events : Array Event} : i ∉ s.settled →
      s.rules.renameText old = some new → s.pool.replace i (.utf8 new) = .ok (.utf8 old, p) →
      Rewording i s (.ok true)
        { s with pool := p, settled := s.settled.insert i, replaced := i :: s.replaced, events }

theorem renameEntry_rewording (i : Index) (s : Rewriter) :
    ∃ r s', (renameEntry i).outcome s = (r, s') ∧ Rewording i s r s' := by
  unfold renameEntry
  rw [outcome_unless_settled]
  by_cases hi : i ∈ s.settled
  · rw [if_pos hi]
    exact ⟨_, _, rfl, .kept fun hn => absurd hi hn⟩
  rw [if_neg hi, outcome_bind, outcome_constant]
  cases hg : s.pool.get i with
  | error e => exact ⟨_, _, rfl, .failed⟩
  | ok c =>
    cases c with
    | utf8 old =>
      simp only [outcome_bind, outcome_get, outcome_tellAll]
      cases hr : s.rules.renameText old with
      | none =>
        refine ⟨_, _, rfl, .kept fun _ text htext => ?_⟩
        cases hg.symm.trans htext
        exact hr
      | some new =>
        simp only [outcome_bind, outcome_tell, outcome_replace]
        cases hp : s.pool.replace i (.utf8 new) with
        | error e => exact ⟨_, _, rfl, .failed⟩
        | ok cp =>
          obtain ⟨c, p⟩ := cp
          cases hg.symm.trans (Pool.replace_eq_ok hp).1
          exact ⟨_, _, rfl, .renamed hi hr hp⟩
    | _ => exact ⟨_, _, rfl, .kept fun _ text htext => nomatch hg.symm.trans htext⟩

theorem renameEntry_evolves (hs : s.pool.Indexed) :
    Evolves (Fails (renameEntry i) s) U s ((renameEntry i).outcome s).2 ∧
      i ∈ ((renameEntry i).outcome s).2.settled := by
  have hsettled : i ∈ s.settled.insert i := mem_settle.2 (.inl rfl)
  obtain ⟨r, s', h, hrewording⟩ := renameEntry_rewording i s
  unfold Fails
  rw [h]
  cases hrewording with
  | failed => exact ⟨.settle hs (fun _ _ _ => .inl ⟨_, rfl⟩) _, hsettled⟩
  | kept hnone => exact ⟨.settle hs (fun hi text hg => .inr (hnone hi text hg)) _, hsettled⟩
  | renamed hi hr hp =>
    exact ⟨.replace hs hi hp (.text (.entry i) (congrArg Except.ok hr)), hsettled⟩

theorem Walks.renameEntry (i : Index) : Walks U (renameEntry i) :=
  fun _ hs => (renameEntry_evolves hs).1

/-! ## The pool -/

theorem Walks.renameConstant (i : Index) : Walks U (renameConstant i) := by
  refine .bind (.constant i) fun c => ?_
  cases c with
  | classInfo name => exact .renameClass i
  | nameAndType name descriptor => exact .renameNameAndType i
  | methodType descriptor => exact .renameMethodType i
  | string text => exact .renameStringConstant i
  | utf8 text => exact .renameEntry i
  | _ => exact .pure false

theorem Walks.renameConstants (is : List Index) (count : Nat) :
    Walks U (renameConstants is count) := by
  induction is generalizing count with
  | nil => exact .pure count
  | cons i is ih => exact .bind (.renameConstant i) fun changed => ih _

theorem Walks.renamePool : Walks U renamePool :=
  .bind .get fun _ => .bind (.renameConstants _ 0) fun changed =>
    .bind (.tell _) fun _ => .pure changed

end Rewrite

end Repackage
