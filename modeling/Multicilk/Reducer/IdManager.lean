import Mathlib.Data.Nat.Notation
import Mathlib.Logic.Function.Basic
import Multicilk.Reducer.Abort

/-!
# The reducer ID manager

IDs are bits of an array of machine words.  A hint says where to look first;
when that bit is taken, the words are scanned for one that is not full and its
lowest clear bit is used.
-/

namespace Multicilk

def longBit : ℕ := 64

/-- `~(hyper_id_t)0`, the value of the ID while no free word has been found. -/
def noHyperId : ℕ := 4294967295

structure ReducerIdManager where
  spaCap : ℕ
  next : ℕ
  hwm : ℕ
  used : ℕ → BitVec 64

namespace ReducerIdManager

/-- `init_reducer_id_manager`: the capacity is rounded up to whole words. -/
def init (cap : ℕ) : Except Abort ReducerIdManager :=
  let cap := (cap + longBit - 1) / longBit * longBit
  if ¬ (0 < cap ∧ cap < 9999999) then .error .assertionFailed
  else .ok { spaCap := cap, next := 0, hwm := 0, used := fun _ => 0 }

def InUse (manager : ReducerIdManager) (id : ℕ) : Prop :=
  (manager.used (id / longBit)).getLsbD (id % longBit) = true

instance (manager : ReducerIdManager) (id : ℕ) :
    Decidable (manager.InUse id) :=
  inferInstanceAs (Decidable (_ = true))

def setUsed (manager : ReducerIdManager) (id : ℕ) : ℕ → BitVec 64 :=
  Function.update manager.used (id / longBit)
    (manager.used (id / longBit) ||| BitVec.twoPow 64 (id % longBit))

def clearUsed (manager : ReducerIdManager) (id : ℕ) : ℕ → BitVec 64 :=
  Function.update manager.used (id / longBit)
    (manager.used (id / longBit) &&& ~~~(BitVec.twoPow 64 (id % longBit)))

/-- The loop over the words, which stops at the first one that is not full. -/
def scan (manager : ReducerIdManager) : ℕ :=
  match (List.range (manager.spaCap / longBit)).find?
      (fun word => ~~~(manager.used word) ≠ 0) with
  | some word => word * longBit + (~~~(manager.used word)).ctz.toNat
  | none => noHyperId

/-- The ID that is tried: the hint if its bit is clear. -/
def candidate (manager : ReducerIdManager) : ℕ :=
  if manager.InUse manager.next then manager.scan else manager.next

/-- Mark the ID and move the hint.  The successor wraps like a 32-bit unsigned
integer, so it is zero for `noHyperId`. -/
def take (manager : ReducerIdManager) (id : ℕ) : ReducerIdManager :=
  let successor := (id + 1) % 4294967296
  { manager with
    used := if id = noHyperId then manager.used else manager.setUsed id
    next := if successor ≥ manager.spaCap then 0 else successor
    hwm := if id ≥ manager.hwm then successor else manager.hwm }

/-- `reducer_id_get`. -/
def get (manager : ReducerIdManager) :
    Except Abort (ℕ × ReducerIdManager) :=
  if manager.candidate ≥ manager.spaCap then
    .error (.idsExhausted manager.spaCap)
  else
    .ok (manager.candidate, manager.take manager.candidate)

/-- `reducer_id_free`. -/
def free (manager : ReducerIdManager) (id : ℕ) :
    Except Abort ReducerIdManager :=
  if ¬ id < manager.spaCap then .error .assertionFailed
  else if ¬ manager.InUse id then .error .assertionFailed
  else .ok { manager with used := manager.clearUsed id, next := id }

/-- The hint is a valid ID, and the capacity is a number of words that leaves
room for the valid bit. -/
structure WellFormed (manager : ReducerIdManager) : Prop where
  next_lt : manager.next < manager.spaCap
  words : longBit ∣ manager.spaCap
  bounded : manager.spaCap < 9999999

theorem WellFormed.lt_noHyperId {manager : ReducerIdManager}
    (wellFormed : manager.WellFormed) : manager.spaCap < noHyperId := by
  apply Nat.lt_trans wellFormed.bounded
  decide

theorem index_of_word (word : ℕ) {bit : ℕ} (bound : bit < longBit) :
    (word * longBit + bit) / longBit = word ∧
      (word * longBit + bit) % longBit = bit := by
  unfold longBit at *
  omega

theorem inUse_setUsed {manager : ReducerIdManager} {id : ℕ} (other) :
    InUse { manager with used := manager.setUsed id } other ↔
      manager.InUse other ∨ other = id := by
  by_cases sameWord : other / longBit = id / longBit
  · have bit : other % longBit < 64 := Nat.mod_lt _ (by decide)
    have sameBit : other = id ↔ other % longBit = id % longBit := by
      unfold longBit at *
      omega
    simp [InUse, setUsed, sameWord, bit, sameBit]
  · have different : other ≠ id := fun equality => sameWord (by rw [equality])
    simp [InUse, setUsed, Function.update_of_ne sameWord, different]

theorem inUse_clearUsed {manager : ReducerIdManager} {id : ℕ} (other) :
    InUse { manager with used := manager.clearUsed id } other ↔
      manager.InUse other ∧ other ≠ id := by
  by_cases sameWord : other / longBit = id / longBit
  · have bit : other % longBit < 64 := Nat.mod_lt _ (by decide)
    have sameBit : other = id ↔ other % longBit = id % longBit := by
      unfold longBit at *
      omega
    simp [InUse, clearUsed, sameWord, bit, sameBit]
  · have different : other ≠ id := fun equality => sameWord (by rw [equality])
    simp [InUse, clearUsed, Function.update_of_ne sameWord, different]

/-- What the scan finds below the capacity is a clear bit. -/
theorem scan_free {manager : ReducerIdManager}
    (wellFormed : manager.WellFormed) (below : manager.scan < manager.spaCap) :
    ¬ manager.InUse manager.scan := by
  unfold scan at *
  split at below
  case h_2 =>
      exact absurd below (Nat.not_lt.mpr
        (Nat.le_of_lt wellFormed.lt_noHyperId))
  case h_1 word found =>
      have notFull : ~~~(manager.used word) ≠ 0 := by
        simpa using List.find?_some found
      have clear := BitVec.getLsbD_true_ctz_of_ne_zero notFull
      have bit : (~~~(manager.used word)).ctz.toNat < longBit := by
        have := BitVec.ctz_lt_iff_ne_zero.mpr notFull
        simpa [BitVec.lt_def, longBit] using this
      obtain ⟨wordIndex, bitIndex⟩ := index_of_word word bit
      simp only [InUse, wordIndex, bitIndex]
      rw [BitVec.getLsbD_not] at clear
      intro taken
      rw [taken] at clear
      simp at clear

/-- A successful `reducer_id_get` hands out an ID below the capacity that was
not in use, and marks that ID only. -/
theorem get_spec {manager updated : ReducerIdManager} {id : ℕ}
    (wellFormed : manager.WellFormed)
    (success : manager.get = .ok (id, updated)) :
    id < manager.spaCap ∧ ¬ manager.InUse id ∧
      (∀ other, updated.InUse other ↔ manager.InUse other ∨ other = id) ∧
      updated.spaCap = manager.spaCap ∧ updated.WellFormed := by
  unfold get at success
  split at success
  · cases success
  · rename_i inRange
    simp only [Except.ok.injEq, Prod.mk.injEq] at success
    obtain ⟨rfl, rfl⟩ := success
    have below : manager.candidate < manager.spaCap := Nat.lt_of_not_ge inRange
    have notSentinel : manager.candidate ≠ noHyperId :=
      Nat.ne_of_lt (Nat.lt_trans below wellFormed.lt_noHyperId)
    have positive : 0 < manager.spaCap := by omega
    refine ⟨below, ?_, ?_, rfl, ?_, wellFormed.words,
      wellFormed.bounded⟩
    · unfold candidate at below ⊢
      split at below <;> rename_i hint
      · simpa [hint] using scan_free wellFormed below
      · simp [hint]
    · intro other
      simp only [take, notSentinel, if_false]
      exact inUse_setUsed other
    · simp only [take]
      split <;> omega

theorem free_spec {manager updated : ReducerIdManager} {id : ℕ}
    (wellFormed : manager.WellFormed)
    (success : manager.free id = .ok updated) :
    (∀ other, updated.InUse other ↔ manager.InUse other ∧ other ≠ id) ∧
      updated.spaCap = manager.spaCap ∧ updated.WellFormed := by
  simp only [free] at success
  split at success
  · cases success
  · rename_i inRange
    split at success
    · cases success
    · simp only [Except.ok.injEq] at success
      subst updated
      exact ⟨fun other => inUse_clearUsed other, rfl,
        by simpa using inRange, wellFormed.words, wellFormed.bounded⟩

theorem init_spec {cap : ℕ} {manager : ReducerIdManager}
    (success : init cap = .ok manager) :
    manager.WellFormed ∧ ∀ id, ¬ manager.InUse id := by
  simp only [init] at success
  split at success
  · cases success
  · rename_i bounds
    simp only [Except.ok.injEq] at success
    subst manager
    have bounds := not_not.mp bounds
    refine ⟨⟨bounds.1, Nat.dvd_mul_left _ _, bounds.2⟩, ?_⟩
    intro id
    simp [InUse]

end ReducerIdManager

end Multicilk
