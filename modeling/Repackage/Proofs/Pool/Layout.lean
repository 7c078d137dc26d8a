import Repackage.Proofs.Pool.Lookup

/-!
# The constants of a pool

A constant that is added comes after those that are there. The constants and their order decide the
indices, so adding them to the empty pool gives the same table again
(`Pool.table_ofList_toList`).
-/

namespace Repackage

namespace Pool

theorem toList_push (p : Pool) (c : Constant) : (p.push c).toList = p.toList ++ [c] :=
  p.table.toList_push c

theorem toList_foldl_push (cs : List Constant) (p : Pool) :
    (cs.foldl push p).toList = p.toList ++ cs := by
  induction cs generalizing p with
  | nil => simp
  | cons c cs ih => rw [List.foldl_cons, ih, toList_push, List.append_assoc]; rfl

theorem table_ofList_toList (p : Pool) : (ofList p.toList).table = p.table :=
  OffsetArray.eq_of_toList (toList_foldl_push p.toList empty)

theorem count_le_foldl_push (cs : List Constant) (p : Pool) : p.count ≤ (cs.foldl push p).count := by
  induction cs generalizing p with
  | nil => exact Nat.le_refl _
  | cons c cs ih => exact Nat.le_trans (by rw [count_push]; omega) (ih (p.push c))

end Pool

end Repackage
