import Mathlib.Data.Nat.Prime.Basic
import Mathlib.Dynamics.PeriodicPts.Lemmas
import Mathlib.SetTheory.Cardinal.Finite
import Mathlib.Tactic.LinearCombination
import Mathlib.Tactic.Ring

/-!
# Linear congruential generators

In a ring with as many elements as a power of two that vanishes in it, a
generator whose multiplier leaves one modulo four and whose increment is odd goes
through all elements.  With twice as many steps, the multiplier gets closer to
one and the increment remains odd but for the number of steps.
-/

namespace CongruentialGenerator

open Function

variable {R : Type*} [CommRing R]

def next (multiplier increment x : R) : R := multiplier * x + increment

section Period

variable {multiplier increment quarter half : R} {bits : ℕ}

theorem iterate_two_pow (isMultiplier : multiplier = 4 * quarter + 1)
    (isIncrement : increment = 2 * half + 1) (k : ℕ) :
    ∃ slope offset : R, ∀ x, (next multiplier increment)^[2 ^ k] x =
      (2 ^ (k + 2) * slope + 1) * x + 2 ^ k * (2 * offset + 1) := by
  induction k with
  | zero =>
      refine ⟨quarter, half, fun x => ?_⟩
      rw [pow_zero, iterate_one, next, isMultiplier, isIncrement]
      ring
  | succ k induction =>
      obtain ⟨slope, offset, steps⟩ := induction
      refine ⟨slope + 2 ^ (k + 1) * slope ^ 2,
        offset + 2 ^ k * slope * (2 * offset + 1), fun x => ?_⟩
      rw [pow_succ, mul_two, iterate_add_apply, steps, steps]
      ring

theorem minimalPeriod_eq (isMultiplier : multiplier = 4 * quarter + 1)
    (isIncrement : increment = 2 * half + 1)
    (vanishes : (2 : R) ^ (bits + 1) = 0) (notEarlier : (2 : R) ^ bits ≠ 0)
    (x : R) :
    minimalPeriod (next multiplier increment) x = 2 ^ (bits + 1) := by
  have twoPrime : Fact (Nat.Prime 2) := ⟨Nat.prime_two⟩
  apply minimalPeriod_eq_prime_pow
  · intro returned
    obtain ⟨slope, offset, steps⟩ :=
      iterate_two_pow isMultiplier isIncrement bits
    have moved := (steps x).symm.trans returned
    apply notEarlier
    linear_combination moved - (2 * slope * x + offset) * vanishes
  · obtain ⟨slope, offset, steps⟩ :=
      iterate_two_pow isMultiplier isIncrement (bits + 1)
    show _ = _
    rw [steps]
    linear_combination (4 * slope * x + 2 * offset + 1) * vanishes

end Period

/-- A map that comes back to a point after as many steps as there are points
reaches every point from there, again and again. -/
theorem exists_iterate_eq {α : Type*} [Finite α] {f : α → α} {x : α}
    (period : minimalPeriod f x = Nat.card α) (y : α) (m : ℕ) :
    ∃ n, m ≤ n ∧ f^[n] x = y := by
  let visit : Fin (Nat.card α) → α := fun n => f^[n] x
  have injective : Injective visit := by
    intro n k same
    apply Fin.ext
    apply iterate_injOn_Iio_minimalPeriod _ _ same
    · exact n.isLt.trans_eq period.symm
    · exact k.isLt.trans_eq period.symm
  have bijective : Bijective visit :=
    (Nat.bijective_iff_injective_and_card visit).mpr
      ⟨injective, Nat.card_fin _⟩
  obtain ⟨n, reached⟩ := bijective.surjective y
  refine ⟨n + m * Nat.card α, ?_, ?_⟩
  · have positive : 0 < Nat.card α := Nat.card_pos_iff.mpr ⟨⟨x⟩, inferInstance⟩
    exact (Nat.le_mul_of_pos_right m positive).trans (Nat.le_add_left ..)
  · have returned : IsPeriodicPt f (m * Nat.card α) x :=
      (period ▸ isPeriodicPt_minimalPeriod f x).const_mul m
    rw [iterate_add_apply, returned, ← reached]

end CongruentialGenerator
