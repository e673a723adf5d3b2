import Mathlib.Algebra.BigOperators.Group.Finset.Piecewise
import Mathlib.Algebra.Order.BigOperators.Group.Finset
import Mathlib.Data.Fintype.BigOperators
import Mathlib.Tactic.Abel

/-!
# Totals over the members of a family

When one member of a family is replaced, a total changes by what that member
contributes.
-/

namespace Totals

variable {Index Value : Type*} [Fintype Index]

def total (measure : Index → Value → ℤ) (family : Index → Value) : ℤ :=
  ∑ index, measure index (family index)

variable {measure other : Index → Value → ℤ} {family : Index → Value}
  {index : Index} {value : Value}

theorem total_nonneg (nonneg : ∀ index, 0 ≤ measure index (family index)) :
    0 ≤ total measure family :=
  Finset.sum_nonneg fun index _ => nonneg index

theorem total_add :
    total (fun index value => measure index value + other index value) family =
      total measure family + total other family :=
  Finset.sum_add_distrib

theorem total_update [DecidableEq Index] :
    total measure (Function.update family index value) =
      total measure family +
        (measure index value - measure index (family index)) := by
  have others : ∀ other ∈ Finset.univ.erase index,
      measure other (Function.update family index value other) =
        measure other (family other) := by
    intro other member
    rw [Function.update_of_ne (Finset.ne_of_mem_erase member)]
  unfold total
  rw [← Finset.add_sum_erase _ _ (Finset.mem_univ index),
    ← Finset.add_sum_erase _ (fun other => measure other (family other))
      (Finset.mem_univ index),
    Finset.sum_congr rfl others, Function.update_self]
  abel

end Totals
