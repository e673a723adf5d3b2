import Mathlib.Data.BitVec
import Multicilk.Support.CongruentialGenerator

/-!
# Victim selection

A worker that looks for work takes its victims from a generator of random
numbers.  Nothing else uses that generator, so that the attempts of a call of
`worker_scheduler` follow its sequence, whether they succeed or not.
-/

namespace Multicilk.VictimSelection

open CongruentialGenerator Function

/-- The part of the `local_state` that belongs to the generator. -/
@[ext] structure LocalState where
  randNext : BitVec 32

def rtsRand (l : LocalState) : LocalState × BitVec 32 :=
  let randNext := l.randNext * 1103515245 + 12345
  ({ l with randNext }, randNext >>> 16)

def rtsSrand (l : LocalState) (seed : BitVec 32) : LocalState :=
  { l with randNext := seed }

/-- The start of `worker_scheduler`. -/
def workerScheduler (l : LocalState) (self : BitVec 32) : LocalState :=
  rtsSrand l (self * 162347)

/-- An iteration of the loop that looks for work: the index that is drawn. -/
def drawVictim (nworkers : BitVec 32) (l : LocalState) :
    LocalState × BitVec 32 :=
  let (l, random) := rtsRand l
  (l, random % nworkers)

/-- The victim on which `Closure_steal` is called, if any. -/
def attempt (self nworkers : BitVec 32) (l : LocalState) : Option (BitVec 32) :=
  let victim := (drawVictim nworkers l).2
  if victim ≠ self then some victim else none

/-- The state after some iterations. -/
def afterAttempts (nworkers : BitVec 32) (n : ℕ) (l : LocalState) :
    LocalState :=
  (fun l => (drawVictim nworkers l).1)^[n] l

section Period

variable {nworkers : BitVec 32} {l : LocalState}

theorem rtsRand_randNext : (rtsRand l).1.randNext =
    next 1103515245 12345 l.randNext := by
  show l.randNext * 1103515245 + 12345 = 1103515245 * l.randNext + 12345
  rw [mul_comm]

/-- The states correspond to the words of the generator. -/
theorem iterate_rtsRand_randNext (n : ℕ) :
    ((fun l => (rtsRand l).1)^[n] l).randNext =
      (next 1103515245 12345)^[n] l.randNext := by
  induction n with
  | zero => rfl
  | succ n induction =>
      rw [iterate_succ_apply', iterate_succ_apply', rtsRand_randNext, induction]

theorem afterAttempts_randNext (n : ℕ) :
    (afterAttempts nworkers n l).randNext =
      (next 1103515245 12345)^[n] l.randNext :=
  iterate_rtsRand_randNext n

theorem minimalPeriod_randNext (word : BitVec 32) :
    minimalPeriod (next 1103515245 12345) word = 2 ^ 32 :=
  @minimalPeriod_eq _ _ _ _ 275878811 6172 31 (by decide) (by decide)
    (by decide) (by decide) word

theorem minimalPeriod_rtsRand :
    minimalPeriod (fun l => (rtsRand l).1) l = 2 ^ 32 := by
  rw [← minimalPeriod_randNext l.randNext, minimalPeriod_eq_minimalPeriod_iff]
  intro n
  constructor
  · intro returned
    exact (iterate_rtsRand_randNext n).symm.trans
      (congrArg LocalState.randNext returned)
  · intro returned
    exact LocalState.ext ((iterate_rtsRand_randNext n).trans returned)

/-- Every word comes up again and again. -/
theorem exists_randNext_eq (nworkers : BitVec 32) (l : LocalState)
    (word : BitVec 32) (m : ℕ) :
    ∃ n, m ≤ n ∧
      (drawVictim nworkers (afterAttempts nworkers n l)).1.randNext = word := by
  have finite : Finite (BitVec 32) := .of_equiv _ BitVec.equivFin.toEquiv.symm
  have card : Nat.card (BitVec 32) = 2 ^ 32 := by
    rw [Nat.card_congr BitVec.equivFin.toEquiv, Nat.card_fin]
  obtain ⟨n, late, reached⟩ := exists_iterate_eq
    ((minimalPeriod_randNext l.randNext).trans card.symm) word (m + 1)
  cases n with
  | zero => cases late
  | succ n =>
      refine ⟨n, Nat.le_of_succ_le_succ late, ?_⟩
      rw [← reached, ← afterAttempts_randNext, afterAttempts, afterAttempts,
        iterate_succ_apply']

/-- The lower half of the word does not matter for the index. -/
theorem drawVictim_of_randNext {victim : BitVec 32}
    (few : nworkers.toNat ≤ 65536) (inRange : victim < nworkers)
    (word : (drawVictim nworkers l).1.randNext = victim <<< 16) :
    (drawVictim nworkers l).2 = victim := by
  have drawn : (drawVictim nworkers l).2 =
      (drawVictim nworkers l).1.randNext >>> 16 % nworkers := rfl
  rw [drawn, word]
  have bound : victim.toNat < nworkers.toNat := inRange
  have shifted : victim <<< 16 >>> 16 = victim := by
    apply BitVec.eq_of_toNat_eq
    rw [BitVec.toNat_ushiftRight, BitVec.toNat_shiftLeft, Nat.shiftLeft_eq,
      Nat.shiftRight_eq_div_pow, Nat.mod_eq_of_lt (by omega)]
    omega
  rw [shifted]
  apply BitVec.eq_of_toNat_eq
  rw [BitVec.toNat_umod, Nat.mod_eq_of_lt bound]

end Period

/-- Whatever worker looks for work and however often it has failed, it will try
every other worker again. -/
theorem every_victim_selected (self nworkers : BitVec 32) (l : LocalState)
    (few : nworkers.toNat ≤ 65536) :
    minimalPeriod (fun l => (rtsRand l).1) (workerScheduler l self) = 2 ^ 32 ∧
      ∀ victim < nworkers, ∀ m, ∃ n, m ≤ n ∧
        let l := afterAttempts nworkers n (workerScheduler l self)
        (drawVictim nworkers l).2 = victim ∧
          (victim ≠ self → attempt self nworkers l = some victim) := by
  refine ⟨minimalPeriod_rtsRand, ?_⟩
  intro victim inRange m
  obtain ⟨n, late, word⟩ := exists_randNext_eq nworkers
    (workerScheduler l self) (victim <<< 16) m
  have drawn := drawVictim_of_randNext few inRange word
  refine ⟨n, late, drawn, ?_⟩
  intro other
  rw [attempt, drawn]
  exact if_pos other

theorem every_victim_selected_two :
    (2 : BitVec 32).toNat ≤ 65536 ∧ ∀ m, ∃ n, m ≤ n ∧
      attempt 0 2 (afterAttempts 2 n (workerScheduler ⟨0⟩ 0)) = some 1 := by
  refine ⟨by decide, fun m => ?_⟩
  obtain ⟨n, late, -, tried⟩ :=
    (every_victim_selected 0 2 ⟨0⟩ (by decide)).2 1 (by decide) m
  exact ⟨n, late, tried (by decide)⟩

end Multicilk.VictimSelection
