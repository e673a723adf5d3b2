import Mathlib.Algebra.BigOperators.Group.List.Basic
import Mathlib.Algebra.Group.Basic

/-!
# The first of several optional values

Optional values form a monoid in which the left factor wins, so that a product
is the first value there is.
-/

/-- An optional value as an element of the left-biased monoid. -/
@[ext] structure First (E : Type*) where
  value : Option E

namespace First

variable {E : Type*}

instance : Monoid (First E) where
  one := ⟨none⟩
  mul left right := ⟨left.value.or right.value⟩
  one_mul _ := First.ext Option.none_or
  mul_one _ := First.ext Option.or_none
  mul_assoc _ _ _ := First.ext Option.or_assoc

@[simp] theorem mk_none : (⟨none⟩ : First E) = 1 := rfl

@[simp] theorem value_one : (1 : First E).value = none := rfl

@[simp] theorem value_mul (left right : First E) :
    (left * right).value = left.value.or right.value := rfl

theorem eq_one_iff {first : First E} : first = 1 ↔ first.value = none := by
  rw [First.ext_iff, value_one]

theorem value_prod_map {Index : Type*} (indices : List Index)
    (choice : Index → First E) :
    (indices.map choice).prod.value =
      indices.findSome? fun index => (choice index).value := by
  induction indices with
  | nil => rfl
  | cons index rest induction =>
      rw [List.map_cons, List.prod_cons, value_mul, induction,
        List.findSome?_cons]
      cases (choice index).value <;> rfl

end First
