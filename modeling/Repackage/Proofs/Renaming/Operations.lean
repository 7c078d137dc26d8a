import Repackage.Proofs.Renaming.Attributes

/-!
# Any sequence of renamings

A rewriter is asked for one renaming after the other, in any order and whether or not some of
them fail. Whatever it is asked, no entry is replaced twice and a text is renamed at most
once (`Rewriter.RenamedOnce`), and the pool keeps its layout (`Pool.SameLayout`): the same
indices, each with its kind of constant, and only texts and the indices of texts changed.
-/

namespace Repackage

/-! ## Operations -/

/-- What a rewriter can be asked for. -/
inductive Operation where
  | renameClass (i : Index)
  | renameNameAndType (i : Index)
  | renameMethodType (i : Index)
  | renameStringConstant (i : Index)
  | renameEntry (i : Index)
  | renameUtf8 (role : Role) (i : Index)
  | rewriteAttribute (kind : SignatureKind) (a : Attribute)
  | rewriteAttributes (kind : SignatureKind) (as : List Attribute)
  | renamePool

namespace Rewriter

open Rewrite (outcome)

/-- The state that an operation leaves, also if it fails. -/
def step (s : Rewriter) : Operation → Rewriter
  | .renameClass i => ((Rewrite.renameClass i).outcome s).2
  | .renameNameAndType i => ((Rewrite.renameNameAndType i).outcome s).2
  | .renameMethodType i => ((Rewrite.renameMethodType i).outcome s).2
  | .renameStringConstant i => ((Rewrite.renameStringConstant i).outcome s).2
  | .renameEntry i => ((Rewrite.renameEntry i).outcome s).2
  | .renameUtf8 role i => ((Rewrite.renameUtf8 role i).outcome s).2
  | .rewriteAttribute kind a => ((Rewrite.rewriteAttribute kind a).outcome s).2
  | .rewriteAttributes kind as => ((Rewrite.rewriteAttributes kind as).outcome s).2
  | .renamePool => (Rewrite.renamePool.outcome s).2

def run (s : Rewriter) (ops : List Operation) : Rewriter := ops.foldl step s

variable {s s' : Rewriter} {t : Table} {p : Pool} {i : Index}

theorem walks_evolves {α : Type} {m : Rewrite α} (h : Rewrite.Walks AnyUse m)
    (hs : s.pool.Indexed) : Evolves True AnyUse s (m.outcome s).2 :=
  (h s hs).imp fun _ => trivial

theorem step_evolves (hs : s.pool.Indexed) (op : Operation) :
    Evolves True AnyUse s (s.step op) := by
  cases op with
  | renameClass i => exact walks_evolves (.renameClass i) hs
  | renameNameAndType i => exact walks_evolves (.renameNameAndType i) hs
  | renameMethodType i => exact walks_evolves (.renameMethodType i) hs
  | renameStringConstant i => exact walks_evolves (.renameStringConstant i) hs
  | renameEntry i => exact walks_evolves (.renameEntry i) hs
  | renameUtf8 role i => exact walks_evolves (.renameUtf8 trivial) hs
  | rewriteAttribute kind a =>
    exact walks_evolves (.rewriteAttribute kind a fun _ _ => trivial) hs
  | rewriteAttributes kind as =>
    exact walks_evolves (.rewriteAttributes kind as fun _ _ => trivial) hs
  | renamePool => exact walks_evolves .renamePool hs

theorem run_evolves (hs : s.pool.Indexed) (ops : List Operation) :
    Evolves True AnyUse s (s.run ops) := by
  induction ops generalizing s with
  | nil => exact .refl hs
  | cons op ops ih =>
    have h := step_evolves hs op
    exact h.trans (ih h.indexed)

/-! ## At most once -/

/-- Since the rules `t` met the pool `p`, no entry was replaced twice. -/
structure RenamedOnce (t : Table) (p : Pool) (s : Rewriter) : Prop where
  once : s.replaced.Nodup
  kept : ∀ i, i ∉ s.replaced → s.pool.get i = p.get i
  texts : ∀ i old, p.get i = .ok (.utf8 old) → ∃ text, s.pool.get i = .ok (.utf8 text)
  unsettled : ∀ i text, s.pool.get i = .ok (.utf8 text) → i ∉ s.settled →
    p.get i = .ok (.utf8 text)
  settled : ∀ i text, s.pool.get i = .ok (.utf8 text) → i ∈ s.settled →
    ∃ old, p.get i = .ok (.utf8 old) ∧ (text = old ∨ ∃ role, Role.rename t role old = .ok (some text))
  final : ∀ i ∈ s.settled, ∀ ops, i ∈ (s.run ops).settled ∧ (s.run ops).pool.get i = s.pool.get i
  named : ∀ role i j s', (Rewrite.renameUtf8 role i).outcome s = (.ok (some j), s') →
    j ∈ s'.settled ∧ ∃ old new, p.get i = .ok (.utf8 old) ∧
      Role.rename t role old = .ok (some new) ∧ s'.pool.get j = .ok (.utf8 new)

theorem Replaces.renamedOnce {is : List Index} (h : Replaces True AnyUse is (start t p) s) :
    RenamedOnce t p s where
  once := by
    rw [h.history]
    exact List.nodup_append.2 ⟨h.nodup, .nil, fun _ _ _ hi => nomatch hi⟩
  kept i hi := by
    rw [h.history] at hi
    exact h.kept i fun hm => hi (List.mem_append_left _ hm)
  texts _ _ hold := h.text hold
  unsettled i text htext hi := (h.get_of_not_settled hi).symm.trans htext
  settled i text htext _ := by
    by_cases hi : i ∈ is
    · obtain ⟨c, d, hc, hd, hr⟩ := h.renamed i hi
      cases hd.symm.trans htext
      obtain ⟨role, old, rfl, hrename⟩ := hr.to_text rfl
      exact ⟨old, hc, .inr ⟨role, hrename⟩⟩
    · exact ⟨text, (h.kept i hi).symm.trans htext, .inl rfl⟩
  final i hi ops := by
    obtain ⟨js, h'⟩ := run_evolves h.indexed ops
    exact ⟨h'.settled i hi, h'.get_of_settled hi⟩
  named role i j s' hs' := by
    obtain ⟨r, s₁, hr, hren⟩ := Rewrite.renameUtf8_renaming role i s
    cases hr.symm.trans hs'
    obtain ⟨old, new, -, hold, hrename, hj, hnew⟩ := (hren.named h.indexed).earlier h
    exact ⟨hj, old, new, hold, hrename, hnew⟩

/-- Whatever a rewriter is asked for, it renames each text at most once. -/
theorem renamedOnce_run (t : Table) {p : Pool} (hp : p.Built) (hcount : p.count < 0x10000)
    (ops : List Operation) : RenamedOnce t p ((start t p).run ops) := by
  obtain ⟨is, h⟩ := run_evolves (s := start t p) (hp.indexed hcount) ops
  exact h.renamedOnce

/-- With the rules `a` to `b` and `b` to `c`, the classes `a.X` and `b.X`, the latter twice. -/
def chained : Table × Pool :=
  ({ rules := [⟨"a", "b", false⟩, ⟨"b", "c", false⟩]
     direct := []
     versions := []
     bundles := [] },
    .ofList [.utf8 "a/X", .classInfo 1, .utf8 "b/X", .classInfo 3, .string 3])

theorem renamedOnce_run_chained :
    chained.2.Built ∧ chained.2.count < 0x10000 ∧
      RenamedOnce chained.1 chained.2 ((start chained.1 chained.2).run
        [.renameClass 2, .renameStringConstant 5, .renameMethodType 4, .renameClass 4, .renamePool]) :=
  have hp : chained.2.Built := Pool.built_ofList _
  have hcount : chained.2.count < 0x10000 := by decide
  ⟨hp, hcount, renamedOnce_run chained.1 hp hcount _⟩

end Rewriter

/-! ## The layout of the pool -/

namespace Pool

/-- The entry is a text. -/
def IsText (p : Pool) (i : Index) : Prop := ∃ text, p.get i = .ok (.utf8 text)

/-- A constant in its place in `p`: either the same, or a text, or one whose text is another
entry of `p`. -/
inductive Restates (p : Pool) : Constant → Constant → Prop where
  | same (c : Constant) : Restates p c c
  | utf8 (old new : String) : Restates p (.utf8 old) (.utf8 new)
  | classInfo (old : Index) {new : Index} : p.IsText new →
      Restates p (.classInfo old) (.classInfo new)
  | string (old : Index) {new : Index} : p.IsText new → Restates p (.string old) (.string new)
  | nameAndType (name old : Index) {new : Index} : p.IsText new →
      Restates p (.nameAndType name old) (.nameAndType name new)
  | methodType (old : Index) {new : Index} : p.IsText new →
      Restates p (.methodType old) (.methodType new)

structure SameLayout (p q : Pool) : Prop where
  count : q.count = p.count
  size : q.size = p.size
  indices : q.entries.map Prod.fst = p.entries.map Prod.fst
  missing : ∀ i e, p.get i = .error e → q.get i = .error e
  entry : ∀ i c, p.get i = .ok c → ∃ d, q.get i = .ok d ∧ q.Restates c d

theorem restates_withReference {p : Pool} {c : Constant} {role : Role} {j k : Index}
    (href : c.reference? = some (role, j)) (hk : p.IsText k) :
    p.Restates c (c.withReference k) := by
  cases c with
  | classInfo name => exact .classInfo name hk
  | string text => exact .string text hk
  | nameAndType name descriptor => exact .nameAndType name descriptor hk
  | methodType descriptor => exact .methodType descriptor hk
  | _ => cases href

end Pool

namespace Rewriter

variable {failed : Prop} {U : Role → Index → Prop} {is : List Index} {s s' : Rewriter}

theorem Renames.restates {i : Index} {c d : Constant} (h : Renames U s s' i c d) :
    s'.pool.Restates c d := by
  cases h with
  | @text role old new hu hr => exact .utf8 old new
  | reference href hn =>
    obtain ⟨old, new, -, -, -, -, hnew⟩ := hn
    exact Pool.restates_withReference href ⟨new, hnew⟩

theorem Replaces.sameLayout (h : Replaces failed U is s s') : s.pool.SameLayout s'.pool where
  count := Pool.count_eq_of_shape h.shape
  size := Pool.size_eq_of_shape h.shape
  indices := Pool.indices_eq_of_shape h.shape
  missing i e he := by
    refine (h.kept i fun hi => ?_).trans he
    obtain ⟨c, d, hc, -⟩ := h.renamed i hi
    cases he.symm.trans hc
  entry i c hc := by
    by_cases hi : i ∈ is
    · obtain ⟨c', d, hc', hd, hr⟩ := h.renamed i hi
      cases hc.symm.trans hc'
      exact ⟨d, hd, hr.restates⟩
    · exact ⟨c, (h.kept i hi).trans hc, .same c⟩

/-- Whatever a rewriter is asked for, all indices stay valid. -/
theorem sameLayout_run (t : Table) {p : Pool} (hp : p.Built) (hcount : p.count < 0x10000)
    (ops : List Operation) : p.SameLayout ((start t p).run ops).pool := by
  obtain ⟨is, h⟩ := run_evolves (s := start t p) (hp.indexed hcount) ops
  exact h.sameLayout

/-- A class that names itself, an eight-byte number, and indices into its second half. -/
def crooked : Pool :=
  .ofList [.classInfo 1, .long 7, .classInfo 3, .nameAndType 3 1, .utf8 "a/X", .methodType 6,
    .rawUtf8 [0xFF], .string 8]

theorem sameLayout_run_crooked :
    crooked.Built ∧ crooked.count < 0x10000 ∧
      crooked.SameLayout ((start chained.1 crooked).run
        [.renameClass 1, .renameClass 4, .renameNameAndType 5, .renameMethodType 7,
          .renameUtf8 .descriptor 6, .renameStringConstant 9, .renamePool]).pool :=
  have hp : crooked.Built := Pool.built_ofList _
  have hcount : crooked.count < 0x10000 := by decide
  ⟨hp, hcount, sameLayout_run chained.1 hp hcount _⟩

end Rewriter

end Repackage
