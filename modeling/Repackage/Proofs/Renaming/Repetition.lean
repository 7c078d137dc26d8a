import Repackage.Proofs.Renaming.Inert
import Repackage.Proofs.Renaming.Lockstep
import Repackage.Proofs.Renaming.Rereading
import Repackage.Proofs.Renaming.Stability

/-!
# Renaming a resource once more

A resource that was renamed is passed through when it is renamed with the same table again
(`Table.transform_again`), if the table is `Settling`, the class is `Lasting` and its attributes keep
the names by which they are known. What is renamed in one role is then final in this role, other
than plain text. But an entry can be used in several roles, and the text that one of them makes may
be one that another changes.

`Table.transform_changes_again` has resources that change twice, one for each of the assumptions.
-/

namespace Repackage

/-- A text that one use of its entry has changed is not changed again by another use of the entry,
nor a second time as plain text. -/
def ClassFile.Lasting (t : Table) (c : ClassFile) : Prop :=
  ∀ ⦃i old new used role x⦄, c.constants.get i = .ok (.utf8 old) → c.Uses used i → c.Uses role i →
    (used = role → role = .plain) → Role.rename t used old = .ok (some new) →
    Role.rename t role new ≠ .ok (some x)

theorem ClassFile.Lasting.conclusive {t : Table} {c : ClassFile} (ht : t.Settling)
    (h : c.Lasting t) : c.Conclusive t := by
  intro i old new used role x hold hused hrole hrename
  by_cases hself : used = role → role = .plain
  · exact h hold hused hrole hself hrename
  · obtain ⟨rfl, hplain⟩ := Classical.not_imp.1 hself
    exact Role.rename_again ht hplain hrename

/-! ## Checks -/

def Role.all : List Role :=
  [.className, .descriptor, .classLiteral, .signature .ofClass, .signature .ofField,
    .signature .ofMethod, .plain]

theorem Role.mem_all (role : Role) : role ∈ Role.all := by
  cases role with
  | signature kind => cases kind <;> decide
  | _ => decide

/-- No text that some role changes is changed again by any, and neither the old nor the new text is
the known name of an attribute. -/
def ClassFile.changesOnce (t : Table) (c : ClassFile) : Bool :=
  c.constants.entries.all fun e => (c.constants.utf8 e.1).toOption.all fun old =>
    Role.all.all fun used => (used.rename t old).toOption.join.all fun new =>
      !AttributeBody.labels.contains old && !AttributeBody.labels.contains new &&
        Role.all.all fun role => (role.rename t new).toOption.join.isNone

namespace ClassFile

variable {t : Table} {c : ClassFile} {i : Index} {old new x : String} {used role : Role}

theorem final_of_changesOnce (h : c.changesOnce t = true)
    (hold : c.constants.get i = .ok (.utf8 old)) (hrename : used.rename t old = .ok (some new)) :
    (old ∉ AttributeBody.labels ∧ new ∉ AttributeBody.labels) ∧
      ∀ role x, Role.rename t role new ≠ .ok (some x) := by
  have hentry := List.all_eq_true.1 h _ (Pool.mem_entries_of_get hold)
  rw [Pool.utf8_eq_ok.2 hold] at hentry
  have hused := List.all_eq_true.1 hentry used used.mem_all
  rw [hrename] at hused
  obtain ⟨hlabels, hroles⟩ := Bool.and_eq_true_iff.1 hused
  refine ⟨by simpa using hlabels, fun role x hx => ?_⟩
  have hrole := List.all_eq_true.1 hroles role role.mem_all
  rw [hx] at hrole
  cases hrole

theorem LabelsKept.of_changesOnce (h : c.changesOnce t = true) : c.LabelsKept t :=
  fun _ _ _ _ _ hold _ hrename => (final_of_changesOnce h hold hrename).1

theorem Lasting.of_changesOnce (h : c.changesOnce t = true) : c.Lasting t :=
  fun _ _ _ _ role x hold _ _ _ hrename => (final_of_changesOnce h hold hrename).2 role x

end ClassFile

namespace Table

variable {t : Table} {resource : String} {bytes : Bytes} {c : ClassFile} {out : Transformed}

/-- A table without wildcards renames once if it leaves its replacements alone. -/
theorem RenamesOnce.of_exact (h : ∀ r ∈ t.rules, r.wildcard = false ∧
    ∀ form, t.rename (r.inForm form).replacement form = none) : t.RenamesOnce := by
  intro form package new hrename
  obtain ⟨r, hr, rest, -, hnew, hrest⟩ := exists_rule_of_rename hrename
  obtain ⟨hexact, hkept⟩ := h r hr
  rcases hrest with rfl | ⟨hwildcard, -⟩
  · rw [List.append_nil] at hnew
    rw [String.toList_inj.1 hnew]
    exact hkept form
  · cases hexact.symm.trans hwildcard

/-- The bytes of a class with the texts given, the first of which is its name. -/
def classOf (texts : List String) (attributes : Bytes) : Bytes :=
  [0xCA, 0xFE, 0xBA, 0xBE, 0, 0, 0, 55, 0, .ofNat (texts.length + 2), 7, 0, 2] ++
    (texts.flatMap fun text =>
      1 :: 0 :: .ofNat text.toList.length :: text.toList.map fun c => .ofNat c.toNat) ++
    [0, 1, 0, 1, 0, 0, 0, 0, 0, 0, 0, 0] ++ attributes

/-- A class with a signature that names another class of its package. -/
def signed : Bytes :=
  classOf ["p/q/A", "Signature", "Lp/q/B<*>;"] [0, 1, 0, 3, 0, 0, 0, 2, 0, 4]

/-! ## Resources -/

/-- A class that was renamed is passed through by the same table. -/
theorem transform_again (ht : t.Settling) (hc : ClassFile.parse bytes = .ok c)
    (hlabels : c.LabelsKept t) (hlasting : c.Lasting t)
    (h : (t.transform resource bytes).1 = .ok (some out)) :
    (t.transform out.name out.bytes).1 = .ok none := by
  obtain ⟨c₀, c', hc₀, hr, hw⟩ := transform_eq_ok h
  cases hc.symm.trans hc₀
  obtain ⟨p, hparse, htable⟩ := parse_renamed hc hr hlabels hw
  obtain ⟨c₁, final, ho, rfl⟩ := renameClassFile_eq_ok hr
  refine transform_eq_none hparse fun c'' changes hr' => ?_
  obtain ⟨c₂, s', ho', -⟩ := renameClassFile_eq_ok hr'
  exact Rewrite.Repeats.unchanged (hlasting.conclusive ht) (ClassFile.indexed_of_parse hc) htable
    (Rewrite.rewriteClassFile_stages ho) (Rewrite.rewriteClassFile_stages ho')

theorem transform_again_signed :
    ∃ c out, lengthening.Settling ∧ ClassFile.parse signed = .ok c ∧ c.LabelsKept lengthening ∧
      c.Lasting lengthening ∧ (lengthening.transform "p/q/A.class" signed).1 = .ok (some out) ∧
      (lengthening.transform out.name out.bytes).1 = .ok none := by
  have hchars : "lib.inner".toList.all (fun c => !endsClassName c || c == '.') = true := by
    decide +kernel
  have ht : lengthening.Settling := by
    refine ⟨.of_exact fun r hr => ?_, fun r hr c hc hends => ?_, fun r hr hwildcard => ?_⟩ <;>
      cases List.mem_singleton.1 hr
    · exact ⟨rfl, by rintro (_ | _) <;> decide +kernel⟩
    · simpa [hends] using List.all_eq_true.1 hchars c hc
    · cases hwildcard
  have hname : (lengthening.transform "p/q/A.class" signed).1.toOption.join.map (·.name) =
      some "lib/inner/A.class" := by decide +kernel
  have honce : (ClassFile.parse signed).toOption.map (·.changesOnce lengthening) = some true := by
    decide +kernel
  obtain ⟨out, hout, -⟩ := exists_transformed hname
  obtain ⟨c, -, hc, -⟩ := transform_eq_ok hout
  rw [hc] at honce
  have hlabels := ClassFile.LabelsKept.of_changesOnce (Option.some.inj honce)
  have hlasting := ClassFile.Lasting.of_changesOnce (Option.some.inj honce)
  exact ⟨c, out, ht, hc, hlabels, hlasting, hout, transform_again ht hc hlabels hlasting hout⟩

/-! ## Classes that change twice -/

theorem renamesOnce_single {r : Rule} (hexact : r.wildcard = false)
    (h : ∀ form, (r.inForm form).key ≠ (r.inForm form).replacement) : (single r).RenamesOnce := by
  refine .of_exact fun r' hr' => ?_
  cases List.mem_singleton.1 hr'
  refine ⟨hexact, fun form => ?_⟩
  have hbelow : (r.inForm form).wildcard = false := hexact
  simp [rename, candidate?, ordered, single, ofSorted, Rule.applyExactly?, Rule.applyBelow?, hbelow,
    h form]

/-- The rule `p` to nothing, with all packages below. -/
theorem renamesOnce_removing : (single ⟨"p", "", true⟩).RenamesOnce := by
  intro form package new hrename
  obtain ⟨r, hr, rest, -, hnew, hrest⟩ := exists_rule_of_rename hrename
  cases List.mem_singleton.1 hr
  refine Option.eq_none_iff_forall_ne_some.2 fun new' hrename' => ?_
  obtain ⟨r, hr, rest', hnew', -⟩ := exists_rule_of_rename hrename'
  cases List.mem_singleton.1 hr
  have hrest' : rest = 'p' :: rest' := by
    cases form <;> exact hnew.symm.trans hnew'
  subst hrest'
  rcases hrest with hnil | ⟨-, hends⟩
  · cases hnil
  · have hpart : isIdentifierPart 'p' = true := by decide +kernel
    simp [endsName, hpart] at hends

/-- The table of one rule renames no renamed package, but changes a class twice. -/
def ChangesTwice (r : Rule) (bytes : Bytes) : Prop :=
  (single r).RenamesOnce ∧ ∃ out out',
    ((single r).transform "Main.class" bytes).1 = .ok (some out) ∧
    ((single r).transform out.name out.bytes).1 = .ok (some out')

theorem ChangesTwice.of_bytes {r : Rule} (name : String) (bytes' : Bytes)
    (hr : (single r).RenamesOnce)
    (h : ((single r).transform "Main.class" bytes).1.toOption.join.map
      (fun out => (out.name, out.bytes)) = some (name, bytes'))
    (h' : ((single r).transform name bytes').1.toOption.join.map (·.changes.any) = some true) :
    ChangesTwice r bytes := by
  obtain ⟨out, hout, heq⟩ := exists_transformed h
  obtain ⟨out', hout', -⟩ := exists_transformed h'
  cases heq
  exact ⟨hr, out, out', hout, hout'⟩

/-- The first stage of plain text leaves something to a later one. The name of a class changes, and
then once more as plain text. An attribute gets a name that is known. The new name of a class is
read as two. A name becomes that of an array. -/
theorem transform_changes_again :
    ChangesTwice ⟨"p.a", "q.b", false⟩ (classOf ["Main", "p.a.X p/a/Y"] [0, 0]) ∧
      ChangesTwice ⟨"p.a", "q.b", false⟩ (classOf ["p/a/p.a.X"] [0, 0]) ∧
      ChangesTwice ⟨"Foo", "Signature", false⟩
        (classOf ["Main", "Foo", "LA;LFoo/X;"] [0, 1, 0, 3, 0, 0, 0, 2, 0, 4]) ∧
      ChangesTwice ⟨"p", "q;Lp", false⟩
        (classOf ["Main", "Signature", "Lp/X<*>;"] [0, 1, 0, 3, 0, 0, 0, 2, 0, 4]) ∧
      ChangesTwice ⟨"p", "", true⟩ (classOf ["p[Lp/X;"] [0, 0]) := by
  have hmoved : (single ⟨"p.a", "q.b", false⟩).RenamesOnce :=
    renamesOnce_single rfl (by rintro (_ | _) <;> decide +kernel)
  have hlabel : (single ⟨"Foo", "Signature", false⟩).RenamesOnce :=
    renamesOnce_single rfl (by rintro (_ | _) <;> decide +kernel)
  have hsplit : (single ⟨"p", "q;Lp", false⟩).RenamesOnce :=
    renamesOnce_single rfl (by rintro (_ | _) <;> decide +kernel)
  refine ⟨.of_bytes "Main.class" (classOf ["Main", "q.b.X p/a/Y"] [0, 0]) hmoved ?_ ?_,
    .of_bytes "q/b/p.a.X.class" (classOf ["q/b/p.a.X"] [0, 0]) hmoved ?_ ?_,
    .of_bytes "Main.class"
      (classOf ["Main", "Signature", "LA;LFoo/X;"] [0, 1, 0, 3, 0, 0, 0, 2, 0, 4]) hlabel ?_ ?_,
    .of_bytes "Main.class"
      (classOf ["Main", "Signature", "Lq;Lp/X<*>;"] [0, 1, 0, 3, 0, 0, 0, 2, 0, 4]) hsplit ?_ ?_,
    .of_bytes "[Lp/X;.class" (classOf ["[Lp/X;"] [0, 0]) renamesOnce_removing ?_ ?_⟩ <;>
    decide +kernel

end Table

end Repackage
