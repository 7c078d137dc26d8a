import Repackage.Proofs.Renaming.ClassFile
import Repackage.Proofs.Rules.Table

/-!
# The order of renaming

The constants that name classes and have descriptors can be visited in any order, and more than
once. As long as no text is both a class name and a descriptor, and no visit fails, each of them
then refers to the renaming of the text that it referred to at first
(`Rewriter.resolvesTo_visitAll`), also where one rule leads to the names that another one
renames.

The invariant is `Rewriter.Resolving`: a text that is settled is the renaming of its first value
in the role in which it is used, and a constant that is settled refers to such a text or to one
that has nothing to become.
-/

namespace Repackage

/-! ## Visits -/

/-- A call to rename one constant for what it is. -/
inductive Visit where
  | classInfo (i : Index)
  | nameAndType (i : Index)
  | methodType (i : Index)
deriving DecidableEq, Repr

namespace Visit

def index : Visit → Index
  | .classInfo i | .nameAndType i | .methodType i => i

def rename : Visit → Rewrite Bool
  | .classInfo i => Rewrite.renameClass i
  | .nameAndType i => Rewrite.renameNameAndType i
  | .methodType i => Rewrite.renameMethodType i

/-- What the visited constant uses its text as. -/
def role : Visit → Role
  | .classInfo _ => .className
  | .nameAndType _ | .methodType _ => .descriptor

theorem role_ne_plain (v : Visit) : v.role ≠ .plain := by cases v <;> nofun

theorem rename_referring (v : Visit) (s : Rewriter) :
    Rewrite.Referring v.role v.rename v.index s := by
  cases v with
  | classInfo i => exact Rewrite.renameClass_referring i s
  | nameAndType i => exact Rewrite.renameNameAndType_referring i s
  | methodType i => exact Rewrite.renameMethodType_referring i s

end Visit

/-- One visit after the other, up to one that fails. -/
def Rewrite.visitAll : List Visit → Rewrite Unit
  | [] => return ()
  | v :: visits => do
    let _ ← v.rename
    visitAll visits

namespace Pool

/-- A constant uses the text at `j` in a role. -/
def Refers (p : Pool) (role : Role) (j : Index) : Prop :=
  ∃ i c, p.get i = .ok c ∧ c.reference? = some (role, j)

/-- No text is both the name of a class and a descriptor. -/
def Unmixed (p : Pool) : Prop :=
  ∀ j text, p.get j = .ok (.utf8 text) → ¬ (p.Refers .className j ∧ p.Refers .descriptor j)

/-- The descriptor of a constant that has one. -/
def descriptor? (p : Pool) (i : Index) : Option String :=
  match p.get i with
  | .ok (.nameAndType _ descriptor) | .ok (.methodType descriptor) => (p.utf8 descriptor).toOption
  | _ => none

/-- Each constant with a class name or a descriptor is visited. -/
structure VisitedBy (p : Pool) (visits : List Visit) : Prop where
  classes : ∀ i name, p.get i = .ok (.classInfo name) → ∃ v ∈ visits, v.index = i
  nameAndTypes : ∀ i name descriptor, p.get i = .ok (.nameAndType name descriptor) →
    ∃ v ∈ visits, v.index = i
  methodTypes : ∀ i descriptor, p.get i = .ok (.methodType descriptor) →
    ∃ v ∈ visits, v.index = i

/-- The names and descriptors of `p` are renamed in `q`. -/
structure ResolvesTo (t : Table) (p q : Pool) : Prop where
  classes : ∀ i name, p.className i = .ok name →
    q.className i = .ok ((t.renameType name).getD name)
  descriptors : ∀ i descriptor, p.descriptor? i = some descriptor →
    ∃ renamed, t.renameDescriptor descriptor = .ok renamed ∧
      q.descriptor? i = some (renamed.getD descriptor)

variable {p q : Pool} {role role' : Role} {i j k : Index} {c : Constant} {text : String}

theorem toOption_utf8_eq_some :
    (p.utf8 j).toOption = some text ↔ p.get j = .ok (.utf8 text) := by
  rw [← utf8_eq_ok]
  cases p.utf8 j with
  | error e => exact ⟨nofun, nofun⟩
  | ok text' => exact ⟨fun h => congrArg _ (Option.some.inj h), fun h => by cases h; rfl⟩

theorem descriptor?_eq_some : p.descriptor? i = some text ↔
    ∃ c j, p.get i = .ok c ∧ c.reference? = some (.descriptor, j) ∧
      p.get j = .ok (.utf8 text) := by
  unfold descriptor?
  constructor
  · intro h
    split at h
    · rename_i name j hi
      exact ⟨_, j, hi, rfl, toOption_utf8_eq_some.1 h⟩
    · rename_i j hi
      exact ⟨_, j, hi, rfl, toOption_utf8_eq_some.1 h⟩
    · cases h
  · rintro ⟨c, j, hi, href, hj⟩
    rw [hi]
    cases c <;> cases href <;> exact toOption_utf8_eq_some.2 hj

theorem VisitedBy.of_reference {visits : List Visit} (h : p.VisitedBy visits)
    (hc : p.get i = .ok c) (href : c.reference? = some (role, j)) (hrole : role ≠ .plain) :
    ∃ v ∈ visits, v.index = i := by
  cases c with
  | classInfo name => exact h.classes i name hc
  | nameAndType name descriptor => exact h.nameAndTypes i name descriptor hc
  | methodType descriptor => exact h.methodTypes i descriptor hc
  | string text => cases href; exact absurd rfl hrole
  | _ => cases href

/-- The texts that constants use, each with what it is used as. -/
def uses (p : Pool) : List (Role × Index) := p.entries.filterMap fun e => e.2.reference?

theorem Refers.mem_uses (h : p.Refers role j) : (role, j) ∈ p.uses := by
  obtain ⟨i, c, hc, href⟩ := h
  exact List.mem_filterMap.2 ⟨(i, c), mem_entries_of_get hc, href⟩

theorem unmixed_of_uses
    (h : ∀ use ∈ p.uses, use.1 = .className → (.descriptor, use.2) ∉ p.uses) : p.Unmixed :=
  fun _ _ _ hboth => h _ hboth.1.mem_uses rfl hboth.2.mem_uses

theorem visitedBy_of_entries {visits : List Visit}
    (h : ∀ e ∈ p.entries, e.2.reference?.isSome → ∃ v ∈ visits, v.index = e.1) :
    p.VisitedBy visits where
  classes _ _ hi := h _ (mem_entries_of_get hi) rfl
  nameAndTypes _ _ _ hi := h _ (mem_entries_of_get hi) rfl
  methodTypes _ _ hi := h _ (mem_entries_of_get hi) rfl

theorem Refers.role_eq (h : p.Refers role j) :
    role = .className ∨ role = .descriptor ∨ role = .plain := by
  obtain ⟨i, c, -, href⟩ := h
  cases c <;> cases href <;> decide

theorem Unmixed.role_eq (hp : p.Unmixed) (hj : p.get j = .ok (.utf8 text)) (h : p.Refers role j)
    (hrole : role ≠ .plain) (h' : p.Refers role' j) (hrole' : role' ≠ .plain) : role' = role := by
  have hnot := hp j text hj
  rcases h.role_eq with rfl | rfl | rfl
  · rcases h'.role_eq with rfl | rfl | rfl
    · rfl
    · exact absurd ⟨h, h'⟩ hnot
    · exact absurd rfl hrole'
  · rcases h'.role_eq with rfl | rfl | rfl
    · exact absurd ⟨h', h⟩ hnot
    · rfl
    · exact absurd rfl hrole'
  · exact absurd rfl hrole

end Pool

namespace Rewriter

open Rewrite (Referring Repointing visitAll)

variable {t : Table} {p : Pool} {s s' : Rewriter} {role : Role} {i j : Index} {c : Constant}
  {old : String}

/-! ## One visit -/

/-- The constant `i` of `p` refers to the renaming of its text, which is settled or has nothing
to become. -/
def Resolved (t : Table) (p : Pool) (s : Rewriter) (i : Index) : Prop :=
  ∀ c role j old, p.get i = .ok c → c.reference? = some (role, j) → role ≠ .plain →
    p.get j = .ok (.utf8 old) → ∃ renamed k, Role.rename t role old = .ok renamed ∧
      s.pool.get i = .ok (c.withReference k) ∧ s.pool.get k = .ok (.utf8 (renamed.getD old)) ∧
      (k ∈ s.settled ∨ k = j ∧ renamed = none)

/-- The text at `j` is settled as the renaming in a role in which `p` uses it. -/
def Final (t : Table) (p : Pool) (s : Rewriter) (j : Index) (old : String) : Prop :=
  ∃ role new, role ≠ .plain ∧ p.Refers role j ∧ Role.rename t role old = .ok (some new) ∧
    s.pool.get j = .ok (.utf8 new)

structure Resolving (t : Table) (p : Pool) (s : Rewriter) : Prop where
  evolves : Evolves True AnyUse (start t p) s
  texts : ∀ j old, p.get j = .ok (.utf8 old) → j ∈ s.settled → Final t p s j old
  constants : ∀ i ∈ s.settled, Resolved t p s i

theorem resolving_start (hp : p.Indexed) : Resolving t p (start t p) where
  evolves := .refl hp
  texts _ _ _ hj := absurd hj Std.TreeSet.not_mem_emptyc
  constants _ hi := absurd hi Std.TreeSet.not_mem_emptyc

theorem Resolved.later (hp : p.Unmixed) (hi : i ∈ s.settled) (h : Resolved t p s i)
    (hs : Evolves True AnyUse s s') (hstart : Evolves True AnyUse (start t p) s')
    (htexts : ∀ j old, p.get j = .ok (.utf8 old) → j ∈ s'.settled → Final t p s' j old) :
    Resolved t p s' i := by
  obtain ⟨is, hs⟩ := hs
  obtain ⟨js, hstart⟩ := hstart
  intro c role j old hc href hrole hold
  obtain ⟨renamed, k, hr, hk, hnew, hdone⟩ := h c role j old hc href hrole hold
  refine ⟨renamed, k, hr, (hs.get_of_settled hi).trans hk, ?_⟩
  rcases hdone with hdone | ⟨rfl, rfl⟩
  · exact ⟨(hs.get_of_settled hdone).trans hnew, .inl (hs.settled k hdone)⟩
  · -- had the text been settled since, it would have been renamed in the same role
    have hj : k ∉ s'.settled := by
      intro hj
      obtain ⟨role', new, hrole', hused, hr', -⟩ := htexts k old hold hj
      cases hp.role_eq hold ⟨i, c, hc, href⟩ hrole hused hrole'
      cases hr.symm.trans hr'
    exact ⟨(hstart.get_of_not_settled hj).trans hold, .inr ⟨rfl, rfl⟩⟩

theorem Resolving.next (hp : p.Unmixed) (h : Resolving t p s) (hs : Evolves True AnyUse s s')
    (htexts : ∀ j old, p.get j = .ok (.utf8 old) → j ∈ s'.settled → j ∉ s.settled →
      Final t p s' j old)
    (hconstants : ∀ i ∈ s'.settled, i ∉ s.settled → Resolved t p s' i) : Resolving t p s' := by
  have hstart := h.evolves.trans hs
  have hall : ∀ j old, p.get j = .ok (.utf8 old) → j ∈ s'.settled → Final t p s' j old := by
    intro j old hold hj
    by_cases hj' : j ∈ s.settled
    · obtain ⟨role, new, hrole, hused, hr, hnew⟩ := h.texts j old hold hj'
      obtain ⟨is, hs⟩ := hs
      exact ⟨role, new, hrole, hused, hr, (hs.get_of_settled hj').trans hnew⟩
    · exact htexts j old hold hj hj'
  refine ⟨hstart, hall, fun i hi => ?_⟩
  by_cases hi' : i ∈ s.settled
  · exact (h.constants i hi').later hp hi' hs hstart hall
  · exact hconstants i hi hi'

/-- For one constant it is enough to know what becomes of its own text. -/
theorem resolved_of_reference (hc : p.get i = .ok c) (href : c.reference? = some (role, j))
    (h : ∀ old, p.get j = .ok (.utf8 old) → ∃ renamed k, Role.rename t role old = .ok renamed ∧
      s.pool.get i = .ok (c.withReference k) ∧ s.pool.get k = .ok (.utf8 (renamed.getD old)) ∧
      (k ∈ s.settled ∨ k = j ∧ renamed = none)) : Resolved t p s i := by
  intro c' role' j' old hc' href' _ hold
  cases hc.symm.trans hc'
  cases href.symm.trans href'
  exact h old hold

/-- If nothing but a constant that refers to a text is settled, only that has to be resolved. -/
theorem Resolving.settle (hp : p.Unmixed) (h : Resolving t p s) (hs : Evolves True AnyUse s s')
    (hsettled : s'.settled = s.settled.insert i) (hc : p.get i = .ok c)
    (href : c.reference? = some (role, j)) (hresolved : Resolved t p s' i) :
    Resolving t p s' ∧ i ∈ s'.settled := by
  have honly {k : Index} (hk : k ∈ s'.settled) (hk' : k ∉ s.settled) : k = i :=
    (mem_settle.1 (hsettled ▸ hk)).resolve_right hk'
  refine ⟨h.next hp hs (fun k old hold hk hk' => ?_) fun k hk hk' => ?_, ?_⟩
  · obtain rfl := honly hk hk'
    cases hc.symm.trans hold
    cases href
  · obtain rfl := honly hk hk'
    exact hresolved
  · exact hsettled ▸ mem_settle.2 (.inl rfl)

/-- What a constant of `p` comes to refer to when it is visited for the first time. -/
theorem Resolving.repoint {b : Bool} (hp : p.Unmixed) (h : Resolving t p s) (hrole : role ≠ .plain)
    (hi : i ∉ s.settled) (hc : s.pool.get i = .ok c) (href : c.reference? = some (role, j))
    (hrep : Repointing role i j c { s with settled := s.settled.insert i } (.ok b) s') :
    Resolving t p s' ∧ i ∈ s'.settled := by
  obtain ⟨is, hr⟩ := h.evolves
  have hrules : s.rules = t := hr.rules
  have hevolves : Evolves True AnyUse s s' := hrep.evolves hr.indexed hi hc href
  have hcp : p.get i = .ok c := (hr.get_of_not_settled hi).symm.trans hc
  have hself : s.pool.get i = .ok (c.withReference j) :=
    (Constant.withReference_self href).symm ▸ hc
  -- a constant that refers to a text is no text
  have hne {q : Pool} {k : Index} {text : String} (hq : q.get i = .ok c)
      (hk : q.get k = .ok (.utf8 text)) : k ≠ i := by
    rintro rfl
    exact Rewrite.ne_utf8_of_reference? href text (Except.ok.inj (hq.symm.trans hk))
  cases hrep with
  | kept hstays =>
    refine h.settle hp hevolves rfl hcp href (resolved_of_reference hcp href fun old hold => ?_)
    by_cases hj : j ∈ s.settled
    · obtain ⟨role', new, hrole', hused, hrename, hnew⟩ := h.texts j old hold hj
      cases hp.role_eq hold ⟨_, c, hcp, href⟩ hrole hused hrole'
      exact ⟨some new, j, hrename, hself, hnew, .inl (mem_settle.2 (.inr hj))⟩
    · have hold' : s.pool.get j = .ok (.utf8 old) := (hr.get_of_not_settled hj).trans hold
      rcases hstays with hj' | hnone
      · exact absurd ((mem_settle.1 hj').resolve_right hj) (hne hcp hold)
      · exact ⟨none, j, hrules ▸ hnone old hold', hself, hold', .inr ⟨rfl, rfl⟩⟩
  | @shared old new k q events hj hold hrename hf hk hq =>
    have hnew : s.pool.get k = .ok (.utf8 new) := hr.indexed hf
    have hj' : j ∉ s.settled := fun hj' => hj (mem_settle.2 (.inr hj'))
    refine h.settle hp hevolves rfl hcp href (resolved_of_reference hcp href fun old' hold' => ?_)
    cases hold'.symm.trans ((hr.get_of_not_settled hj').symm.trans hold)
    refine ⟨some new, k, hrules ▸ hrename, Pool.get_replace_self hq, ?_, .inl hk⟩
    exact (Pool.get_replace_of_ne hq (hne hc hnew)).trans hnew
  | @overwritten old new q events hj hold hrename hq =>
    -- the text is settled too, in the role in which the constant refers to it
    have hj' : j ∉ s.settled := fun hj' => hj (mem_settle.2 (.inr hj'))
    have holdp : p.get j = .ok (.utf8 old) := (hr.get_of_not_settled hj').symm.trans hold
    have honly {k : Index} (hk : k ∈ (s.settled.insert i).insert j) (hk' : k ∉ s.settled) :
        k = j ∨ k = i :=
      (mem_settle.1 hk).imp_right fun hk => (mem_settle.1 hk).resolve_right hk'
    refine ⟨h.next hp hevolves (fun k old' hold' hk hk' => ?_) (fun l hl hl' => ?_),
      mem_settle.2 (.inr (mem_settle.2 (.inl rfl)))⟩
    · rcases honly hk hk' with rfl | rfl
      · cases holdp.symm.trans hold'
        exact ⟨role, new, hrole, ⟨i, c, hcp, href⟩, hrules ▸ hrename, Pool.get_replace_self hq⟩
      · exact absurd rfl (hne hcp hold')
    · rcases honly hl hl' with rfl | rfl
      · intro c' role' j' old' hc' href'
        cases holdp.symm.trans hc'
        cases href'
      · refine resolved_of_reference hcp href fun old' hold' => ?_
        cases holdp.symm.trans hold'
        refine ⟨some new, j, hrules ▸ hrename, ?_, Pool.get_replace_self hq,
          .inl (mem_settle.2 (.inl rfl))⟩
        exact (Pool.get_replace_of_ne hq (hne hc hold).symm).trans hself

theorem Resolving.visit {m : Rewrite Bool} {b : Bool} (hp : p.Unmixed) (h : Resolving t p s)
    (hrole : role ≠ .plain) (hm : Referring role m i s) (ho : m.outcome s = (.ok b, s')) :
    Resolving t p s' ∧ i ∈ s'.settled := by
  cases hm with
  | settled hi hm =>
    cases hm.symm.trans ho
    have hold : ∀ j ∈ s.settled.insert i, j ∈ s.settled := fun j hj =>
      (mem_settle.1 hj).elim (fun e => e ▸ hi) id
    refine ⟨h.next hp (.settle h.evolves.indexed (fun hn => absurd hi hn) _) ?_ ?_,
      mem_settle.2 (.inl rfl)⟩
    · exact fun j _ _ hj hj' => absurd (hold j hj) hj'
    · exact fun j hj hj' => absurd (hold j hj) hj'
  | failed hm => cases hm.symm.trans ho
  | refers hi hc href hm hrep =>
    cases hm.symm.trans ho
    exact h.repoint hp hrole hi hc href hrep

/-! ## All visits -/

theorem Resolving.visitAll {visits : List Visit} {u : Unit} (hp : p.Unmixed)
    (h : Resolving t p s) (ho : (visitAll visits).outcome s = (.ok u, s')) :
    Resolving t p s' ∧ (∀ i ∈ s.settled, i ∈ s'.settled) ∧ ∀ v ∈ visits, v.index ∈ s'.settled := by
  induction visits generalizing s with
  | nil =>
    cases ho
    exact ⟨h, fun _ hi => hi, fun _ hv => nomatch hv⟩
  | cons v visits ih =>
    obtain ⟨b, s₁, hv, ho⟩ := Rewrite.outcome_bind_eq_ok ho
    obtain ⟨h₁, hdone⟩ := h.visit hp v.role_ne_plain (v.rename_referring s) hv
    obtain ⟨h₂, hkept, hall⟩ := ih h₁ ho
    have hwalks : Rewrite.Walks AnyUse v.rename := .of_referring v.rename_referring
    have hs₁ := hwalks.succeeds h.evolves.indexed hv
    refine ⟨h₂, fun i hi => hkept i (hs₁.settled hi), fun w hw => ?_⟩
    rcases List.mem_cons.1 hw with rfl | hw
    · exact hkept _ hdone
    · exact hall w hw

theorem Resolving.resolvesTo (h : Resolving t p s) {visits : List Visit}
    (hvisits : p.VisitedBy visits) (hall : ∀ v ∈ visits, v.index ∈ s.settled) :
    p.ResolvesTo t s.pool := by
  have hresolved {i j : Index} {c : Constant} {role : Role} (hc : p.get i = .ok c)
      (href : c.reference? = some (role, j)) (hrole : role ≠ .plain) : Resolved t p s i := by
    obtain ⟨v, hv, rfl⟩ := hvisits.of_reference hc href hrole
    exact h.constants _ (hall v hv)
  constructor
  · intro i name hname
    obtain ⟨j, hi, hj⟩ := Pool.className_eq_ok.1 hname
    obtain ⟨renamed, k, hr, hi', hk, -⟩ := hresolved hi rfl nofun _ _ j name hi rfl nofun hj
    cases hr
    exact Pool.className_eq_ok.2 ⟨k, hi', hk⟩
  · intro i descriptor hdescriptor
    obtain ⟨c, j, hi, href, hj⟩ := Pool.descriptor?_eq_some.1 hdescriptor
    obtain ⟨renamed, k, hr, hi', hk, -⟩ :=
      hresolved hi href nofun c _ j descriptor hi href nofun hj
    refine ⟨renamed, hr, Pool.descriptor?_eq_some.2 ⟨_, k, hi', ?_, hk⟩⟩
    exact Constant.reference?_withReference href k

/-- Whatever the order of the visits, each name and descriptor is renamed once; so two orders
lead to the same names and descriptors. -/
theorem resolvesTo_visitAll (t : Table) {p : Pool} (hp : p.Built) (hcount : p.count < 0x10000)
    (hunmixed : p.Unmixed) {visits : List Visit} (hvisits : p.VisitedBy visits)
    (h : (visitAll visits).outcome (start t p) = (.ok (), s)) :
    p.ResolvesTo t s.pool ∧
      ∀ visits' s', p.VisitedBy visits' → (visitAll visits').outcome (start t p) = (.ok (), s') →
        (∀ i name, p.className i = .ok name → s'.pool.className i = s.pool.className i) ∧
        ∀ i descriptor, p.descriptor? i = some descriptor →
          s'.pool.descriptor? i = s.pool.descriptor? i := by
  have hresolves {visits : List Visit} {s : Rewriter} (hvisits : p.VisitedBy visits)
      (h : (visitAll visits).outcome (start t p) = (.ok (), s)) : p.ResolvesTo t s.pool := by
    obtain ⟨hs, -, hall⟩ := (resolving_start (hp.indexed hcount)).visitAll hunmixed h
    exact hs.resolvesTo hvisits hall
  refine ⟨hresolves hvisits h, fun visits' s' hvisits' h' => ⟨fun i name hname => ?_, ?_⟩⟩
  · rw [(hresolves hvisits' h').classes i name hname, (hresolves hvisits h).classes i name hname]
  · intro i descriptor hdescriptor
    obtain ⟨x, hx, hs⟩ := (hresolves hvisits h).descriptors i descriptor hdescriptor
    obtain ⟨y, hy, hs'⟩ := (hresolves hvisits' h').descriptors i descriptor hdescriptor
    cases hx.symm.trans hy
    rw [hs, hs']

/-- The rules `a` to `b` and `b` to `c`. -/
def chain : Table := .ofSorted [⟨"a", "b", false⟩, ⟨"b", "c", false⟩]

/-- The classes `a.X` and `b.X`, the latter under two entries of one text, and descriptors that
name them. -/
def chainPool : Pool :=
  .ofList [.utf8 "a/X", .classInfo 1, .utf8 "b/X", .classInfo 3, .utf8 "b/X", .classInfo 5,
    .utf8 "f", .utf8 "La/X;", .nameAndType 7 8, .utf8 "(Lb/X;)V", .methodType 10]

/-- Some of the constants are visited again, and the class `b.X` between two visits of `a.X`. -/
def chainVisits : List Visit :=
  [.classInfo 2, .methodType 11, .classInfo 6, .classInfo 2, .nameAndType 9, .classInfo 4,
    .methodType 11]

theorem resolvesTo_visitAll_chain :
    chainPool.Built ∧ chainPool.count < 0x10000 ∧ chainPool.Unmixed ∧
      chainPool.VisitedBy chainVisits ∧
      ∃ s, (visitAll chainVisits).outcome (start chain chainPool) = (.ok (), s) ∧
        chainPool.ResolvesTo chain s.pool := by
  have hp : chainPool.Built := Pool.built_ofList _
  have hcount : chainPool.count < 0x10000 := by decide
  have hunmixed : chainPool.Unmixed := Pool.unmixed_of_uses (by decide +kernel)
  have hvisits : chainPool.VisitedBy chainVisits := Pool.visitedBy_of_entries (by decide +kernel)
  have hok : ((visitAll chainVisits).outcome (start chain chainPool)).1.toBool = true := by
    decide +kernel
  rcases h : (visitAll chainVisits).outcome (start chain chainPool) with ⟨e | u, s⟩
  · rw [h] at hok; cases hok
  · exact ⟨hp, hcount, hunmixed, hvisits, s, rfl,
      (resolvesTo_visitAll chain hp hcount hunmixed hvisits h).1⟩

end Rewriter

end Repackage
