import Mathlib.Data.BitVec
import Mathlib.RingTheory.Nilpotent.Basic
import Mathlib.SetTheory.Cardinal.Finite
import Mathlib.Tactic.LinearCombination

/-!
# Words of the deterministic random numbers

The random number of a strand is a dot product modulo a prime, whose word is
mixed by rounds that can be undone.
-/

namespace Multicilk.Pedigree

/-- `(uint64_t)(-59)`. -/
def dprngPrime : BitVec 64 := -59

def dprngSwapHalves (x : BitVec 64) : BitVec 64 := x >>> 32 ||| x <<< 32

def dprngMix (x : BitVec 64) : BitVec 64 :=
  (fun x => dprngSwapHalves (x * (2 * x + 1)))^[4] x

/-- The negation of the comparison, which is an `int`, is zero or all ones. -/
def dprngMixModP (x : BitVec 64) : BitVec 64 :=
  let x := dprngMix x
  let compared : BitVec 32 := if dprngPrime ≤ x then 1 else 0
  x - (dprngPrime &&& (-compared).signExtend 64)

def dprngSumModP (a b : BitVec 64) : BitVec 64 :=
  let z := a + b
  if z < a ∨ dprngPrime ≤ z then z - dprngPrime else z

/-- The words that `__cilkrts_init_dprng` computes. -/
structure Dprng where
  mArray : ℕ → BitVec 64
  mX : BitVec 64

/-- The loop that fills the array, which `malloc` has left with any contents. -/
def fillMArray (contents : ℕ → BitVec 64) : ℕ → ℕ → BitVec 64
  | 0 => contents
  | i + 1 => Function.update (fillMArray contents i) i
      (dprngMixModP (0x8c679c168e6bf733 + BitVec.ofNat 64 i))

def initDprng (contents : ℕ → BitVec 64) : Dprng where
  mArray := fillMArray contents 4096
  mX := dprngMixModP (0x8c679c168e6bf733 + 4096)

section Mixing

/-- Two values differ by a unit times the difference of the arguments. -/
theorem mul_two_mul_add_one_injective {R : Type*} [CommRing R]
    (nilpotent : IsNilpotent (2 : R)) :
    Function.Injective fun x : R => x * (2 * x + 1) := by
  intro x y same
  have unit : IsUnit (2 * (x + y) + 1) :=
    (Commute.isNilpotent_mul_right (Commute.all 2 (x + y))
      nilpotent).isUnit_add_one
  have product : (x - y) * (2 * (x + y) + 1) = 0 := by
    simp only at same
    linear_combination same
  rw [unit.mul_left_eq_zero] at product
  exact sub_eq_zero.mp product

theorem dprngSwapHalves_involutive : Function.Involutive dprngSwapHalves := by
  intro x
  apply BitVec.eq_of_getLsbD_eq
  intro i inRange
  simp only [dprngSwapHalves, BitVec.getLsbD_or, BitVec.getLsbD_ushiftRight,
    BitVec.getLsbD_shiftLeft]
  have beyond : x.getLsbD (32 + (32 + i)) = false :=
    BitVec.getLsbD_of_ge _ _ (by omega)
  by_cases low : i < 32
  · have inLow : 32 + i < 64 := by omega
    simp [low, inLow, beyond]
  · have inHigh : 32 + (i - 32) = i := by omega
    have isLow : i - 32 < 32 := by omega
    have outside : ¬ 32 + i < 64 := by omega
    simp [low, inHigh, isLow, inRange, outside, beyond]

theorem dprngMix_bijective : Function.Bijective dprngMix := by
  have finite : Finite (BitVec 64) := .of_equiv _ BitVec.equivFin.toEquiv.symm
  have nilpotent : IsNilpotent (2 : BitVec 64) := ⟨64, by decide +kernel⟩
  apply Function.Bijective.iterate
  exact dprngSwapHalves_involutive.bijective.comp
    (Finite.injective_iff_bijective.mp
      (mul_two_mul_add_one_injective nilpotent))

theorem dprngPrime_toNat : dprngPrime.toNat = 2 ^ 64 - 59 := rfl

theorem dprngMixModP_eq (x : BitVec 64) : dprngMixModP x =
    if dprngPrime ≤ dprngMix x then dprngMix x - dprngPrime
    else dprngMix x := by
  rw [dprngMixModP]
  have allOnes : (-1 : BitVec 32).signExtend 64 = BitVec.allOnes 64 := by
    decide
  have zero : (-0 : BitVec 32).signExtend 64 = 0#64 := by decide
  split
  · rw [allOnes, BitVec.and_allOnes]
  · rw [zero, BitVec.and_zero, BitVec.sub_zero]

/-- The two cases of the subtraction, as numbers. -/
theorem dprngMixModP_cases (x : BitVec 64) :
    (dprngMix x).toNat < dprngPrime.toNat ∧
      (dprngMixModP x).toNat = (dprngMix x).toNat ∨
    (dprngMix x).toNat = (dprngMixModP x).toNat + dprngPrime.toNat := by
  rw [dprngMixModP_eq]
  split
  case isTrue large =>
    right
    rw [BitVec.toNat_sub_of_le large]
    exact (Nat.sub_add_cancel large).symm
  case isFalse small => exact .inl ⟨BitVec.not_le.mp small, rfl⟩

theorem dprngMixModP_lt (x : BitVec 64) :
    (dprngMixModP x).toNat < dprngPrime.toNat := by
  have prime := dprngPrime_toNat
  have inRange := (dprngMix x).isLt
  rcases dprngMixModP_cases x with ⟨small, same⟩ | large
  · rwa [same]
  · omega

end Mixing

/-- Mixing loses no information, and reducing the mixed word loses as much as it
must. -/
theorem dprng_mixing :
    Function.Bijective dprngMix ∧
      (∀ x, dprngMixModP x < dprngPrime ∧
        (dprngMixModP x).toNat ≡ (dprngMix x).toNat
          [MOD dprngPrime.toNat]) ∧
      ∀ x y, x ≠ y → dprngMixModP x = dprngMixModP y →
        (dprngMix x).toNat = (dprngMix y).toNat + dprngPrime.toNat ∨
          (dprngMix y).toNat = (dprngMix x).toNat + dprngPrime.toNat := by
  refine ⟨dprngMix_bijective, fun x => ⟨dprngMixModP_lt x, ?_⟩, ?_⟩
  · rcases dprngMixModP_cases x with ⟨-, same⟩ | large
    · rw [same]
    · rw [large]
      exact Nat.ModEq.symm (Nat.add_modEq_right)
  · intro x y different collision
    have mixedDifferent : (dprngMix x).toNat ≠ (dprngMix y).toNat :=
      fun same => different
        (dprngMix_bijective.injective (BitVec.eq_of_toNat_eq same))
    have same := congrArg BitVec.toNat collision
    rcases dprngMixModP_cases x with ⟨-, xSame⟩ | xLarge <;>
      rcases dprngMixModP_cases y with ⟨-, ySame⟩ | yLarge <;> omega

section Sums

variable {a b : BitVec 64}

/-- The sum of two reduced words is reduced again, whether it wraps or not. -/
theorem dprngSumModP_toNat (aReduced : a.toNat < dprngPrime.toNat)
    (bReduced : b.toNat < dprngPrime.toNat) :
    (dprngSumModP a b).toNat = (a.toNat + b.toNat) % dprngPrime.toNat := by
  have prime := dprngPrime_toNat
  have sum := BitVec.toNat_add a b
  rw [dprngSumModP]
  split
  case isTrue past =>
    rw [BitVec.lt_def, BitVec.le_def] at past
    have difference := BitVec.toNat_sub (a + b) dprngPrime
    have reduced : a.toNat + b.toNat - dprngPrime.toNat < dprngPrime.toNat := by
      omega
    rw [Nat.mod_eq_sub_mod (by omega), Nat.mod_eq_of_lt reduced]
    omega
  case isFalse within =>
    rw [BitVec.lt_def, BitVec.le_def] at within
    rw [Nat.mod_eq_of_lt (by omega)]
    omega

/-- The part of the array that is used is filled with reduced words. -/
theorem fillMArray_lt {contents : ℕ → BitVec 64} {filled i : ℕ}
    (inRange : i < filled) :
    (fillMArray contents filled i).toNat < dprngPrime.toNat := by
  induction filled with
  | zero => cases inRange
  | succ filled induction =>
      rw [fillMArray]
      by_cases last : i = filled
      · rw [last, Function.update_self]
        exact dprngMixModP_lt _
      · rw [Function.update_of_ne last]
        exact induction (by omega)

theorem fillMArray_congr {contents others : ℕ → BitVec 64} {filled i : ℕ}
    (inRange : i < filled) :
    fillMArray contents filled i = fillMArray others filled i := by
  induction filled with
  | zero => cases inRange
  | succ filled induction =>
      rw [fillMArray, fillMArray]
      by_cases last : i = filled
      · rw [last, Function.update_self, Function.update_self]
      · rw [Function.update_of_ne last, Function.update_of_ne last]
        exact induction (by omega)

end Sums

end Multicilk.Pedigree
