import Multicilk.Reducer.IdManager
import Multicilk.Support.Run

/-!
# Runs of the reducer ID manager

IDs are allocated and freed in any order.  An ID that is in use is never handed
out, and the manager runs out of IDs only when all are in use.
-/

namespace Multicilk.ReducerIdManager

open TransitionSystem

inductive IdAction where
  | get (id : ℕ)
  | free (id : ℕ)
deriving DecidableEq

/-- Only IDs that are in use are freed. -/
inductive IdStep : ReducerIdManager → IdAction → ReducerIdManager → Prop where
  | get {manager updated : ReducerIdManager} {id : ℕ} :
      manager.get = .ok (id, updated) →
      IdStep manager (.get id) updated
  | free {manager updated : ReducerIdManager} {id : ℕ} :
      manager.InUse id →
      manager.free id = .ok updated →
      IdStep manager (.free id) updated

/-- The IDs in use are the ones below the high-water mark, at most. -/
structure Managed (cap : ℕ) (manager : ReducerIdManager) : Prop where
  wellFormed : manager.WellFormed
  capacity : manager.spaCap = cap
  inRange : ∀ id, manager.InUse id → id < cap
  belowMark : ∀ id, manager.InUse id → id < manager.hwm

section Exhaustion

variable {manager : ReducerIdManager} {id : ℕ}

/-- A word with a clear bit is found, and the bit lies below the capacity. -/
theorem scan_lt (wellFormed : manager.WellFormed) (below : id < manager.spaCap)
    (unused : ¬ manager.InUse id) : manager.scan < manager.spaCap := by
  obtain ⟨words, capacity⟩ := wellFormed.words
  have wordBelow : id / longBit < words := by
    rw [capacity] at below
    exact Nat.div_lt_of_lt_mul below
  have wordCount : manager.spaCap / longBit = words := by
    rw [capacity]
    exact Nat.mul_div_cancel_left _ (by decide)
  have notFull : ~~~(manager.used (id / longBit)) ≠ 0 := by
    intro full
    apply unused
    have bit : id % longBit < 64 := Nat.mod_lt _ (by decide)
    have clear := congrArg (·.getLsbD (id % longBit)) full
    simpa [InUse, bit] using clear
  have found : ((List.range (manager.spaCap / longBit)).find?
      (fun word => ~~~(manager.used word) ≠ 0)).isSome := by
    rw [List.find?_isSome]
    refine ⟨id / longBit, List.mem_range.mpr (wordCount ▸ wordBelow), ?_⟩
    exact decide_eq_true notFull
  obtain ⟨word, isWord⟩ := Option.isSome_iff_exists.mp found
  have wordFree : ~~~(manager.used word) ≠ 0 := by
    simpa using List.find?_some isWord
  have inList : word < words := by
    rw [← wordCount]
    exact List.mem_range.mp (List.mem_of_find?_eq_some isWord)
  have bit : (~~~(manager.used word)).ctz.toNat < longBit := by
    have bound := BitVec.ctz_lt_iff_ne_zero.mpr wordFree
    simpa [BitVec.lt_def, longBit] using bound
  rw [scan, isWord, capacity]
  calc word * longBit + (~~~(manager.used word)).ctz.toNat
      < word * longBit + longBit := Nat.add_lt_add_left bit _
    _ = (word + 1) * longBit := (Nat.succ_mul word longBit).symm
    _ ≤ longBit * words := by
        rw [Nat.mul_comm longBit]
        exact Nat.mul_le_mul_right _ inList

/-- When all IDs are in use, every word is full. -/
theorem candidate_of_full (wellFormed : manager.WellFormed)
    (full : ∀ id, id < manager.spaCap → manager.InUse id) :
    manager.candidate = noHyperId := by
  rw [candidate, if_pos (full _ wellFormed.next_lt), scan]
  obtain ⟨words, capacity⟩ := wellFormed.words
  have wordCount : manager.spaCap / longBit = words := by
    rw [capacity]
    exact Nat.mul_div_cancel_left _ (by decide)
  have none : (List.range (manager.spaCap / longBit)).find?
      (fun word => ~~~(manager.used word) ≠ 0) = none := by
    rw [List.find?_eq_none]
    intro word member
    rw [List.mem_range, wordCount] at member
    have allOnes : ~~~(manager.used word) = 0 := by
      apply BitVec.eq_of_getLsbD_eq
      intro bit bound
      have below : word * longBit + bit < manager.spaCap := by
        rw [capacity]
        unfold longBit at *
        omega
      obtain ⟨wordIndex, bitIndex⟩ := index_of_word word bound
      have taken := full _ below
      rw [InUse, wordIndex, bitIndex] at taken
      simp [taken]
    simp [allOnes]
  rw [none]

/-- The manager is exhausted exactly when every ID is in use. -/
theorem get_exhausted_iff (wellFormed : manager.WellFormed) :
    manager.get = .error (.idsExhausted manager.spaCap) ↔
      ∀ id, id < manager.spaCap → manager.InUse id := by
  constructor
  · intro exhausted id below
    by_contra unused
    have inRange : manager.candidate < manager.spaCap := by
      unfold candidate
      split
      · exact scan_lt wellFormed below unused
      · exact wellFormed.next_lt
    rw [get, if_neg (Nat.not_le.mpr inRange)] at exhausted
    cases exhausted
  · intro full
    rw [get, candidate_of_full wellFormed full, if_pos]
    exact Nat.le_of_lt wellFormed.lt_noHyperId

end Exhaustion

section Invariant

variable {cap id : ℕ} {manager updated start : ReducerIdManager}
  {trace : List (ReducerIdManager × IdAction)} {action : IdAction}

/-- The mark moves up to what is handed out, and never down. -/
theorem get_hwm (wellFormed : manager.WellFormed)
    (success : manager.get = .ok (id, updated)) :
    id < updated.hwm ∧ manager.hwm ≤ updated.hwm := by
  have below := (get_spec wellFormed success).1
  have small : id + 1 < 4294967296 := by
    have bounded := wellFormed.bounded
    omega
  unfold get at success
  split at success
  · cases success
  · cases success
    simp only [take, Nat.mod_eq_of_lt small]
    split <;> omega

theorem Managed.get (managed : Managed cap manager)
    (success : manager.get = .ok (id, updated)) : Managed cap updated := by
  obtain ⟨below, -, inUse, capacity, wellFormed⟩ :=
    get_spec managed.wellFormed success
  obtain ⟨marked, grown⟩ := get_hwm managed.wellFormed success
  constructor
  case wellFormed => exact wellFormed
  case capacity => exact capacity.trans managed.capacity
  case inRange =>
    intro other used
    rcases (inUse other).mp used with before | rfl
    · exact managed.inRange other before
    · exact managed.capacity ▸ below
  case belowMark =>
    intro other used
    rcases (inUse other).mp used with before | rfl
    · exact Nat.lt_of_lt_of_le (managed.belowMark other before) grown
    · exact marked

theorem Managed.free (managed : Managed cap manager)
    (success : manager.free id = .ok updated) :
    Managed cap updated ∧ updated.hwm = manager.hwm := by
  obtain ⟨inUse, capacity, wellFormed⟩ := free_spec managed.wellFormed success
  have sameMark : updated.hwm = manager.hwm := by
    unfold ReducerIdManager.free at success
    split at success
    · cases success
    · split at success
      · cases success
      · cases success
        rfl
  refine ⟨?_, sameMark⟩
  constructor
  case wellFormed => exact wellFormed
  case capacity => exact capacity.trans managed.capacity
  case inRange =>
    exact fun other used => managed.inRange other ((inUse other).mp used).1
  case belowMark =>
    intro other used
    rw [sameMark]
    exact managed.belowMark other ((inUse other).mp used).1

theorem Managed.step (managed : Managed cap manager)
    (taken : IdStep manager action updated) :
    Managed cap updated ∧ manager.hwm ≤ updated.hwm := by
  cases taken with
  | get success =>
      exact ⟨managed.get success, (get_hwm managed.wellFormed success).2⟩
  | free used success =>
      obtain ⟨kept, sameMark⟩ := managed.free success
      exact ⟨kept, Nat.le_of_eq sameMark.symm⟩

/-- The mark stays above every ID that has been handed out so far. -/
theorem managed_of_run (made : init cap = .ok start)
    (run : Run IdStep start trace manager) :
    Managed start.spaCap manager ∧
      ∀ source id, (source, IdAction.get id) ∈ trace → id < manager.hwm := by
  apply @Run.traceInvariant _ _ IdStep start manager trace
    (fun trace manager => Managed start.spaCap manager ∧
      ∀ source id, (source, IdAction.get id) ∈ trace → id < manager.hwm) run
  · obtain ⟨wellFormed, unused⟩ := init_spec made
    refine ⟨⟨wellFormed, rfl, ?_, ?_⟩, by simp⟩
    · exact fun id used => absurd used (unused id)
    · exact fun id used => absurd used (unused id)
  · rintro trace source action target - ⟨managed, marked⟩ taken
    obtain ⟨kept, grown⟩ := managed.step taken
    refine ⟨kept, fun earlier id member => ?_⟩
    rcases List.mem_append.mp member with before | last
    · exact Nat.lt_of_lt_of_le (marked earlier id before) grown
    · cases List.mem_singleton.mp last
      cases taken with
      | get success => exact (get_hwm managed.wellFormed success).1

/-- However IDs have been allocated and freed, the next one is an ID that is not
in use, and there is none exactly when all are in use. -/
theorem id_allocation (made : init cap = .ok start)
    (run : Run IdStep start trace manager) :
    manager.next < start.spaCap ∧
    (∀ source id, (source, IdAction.get id) ∈ trace → id < manager.hwm) ∧
    (∀ id updated, manager.get = .ok (id, updated) →
      id < start.spaCap ∧ ¬ manager.InUse id ∧ updated.InUse id ∧
      (∀ other, other ≠ id → (updated.InUse other ↔ manager.InUse other)) ∧
      updated.next < start.spaCap ∧ id < updated.hwm) ∧
    (∀ id, manager.InUse id → ∃ updated, manager.free id = .ok updated ∧
      ¬ updated.InUse id ∧
      (∀ other, other ≠ id → (updated.InUse other ↔ manager.InUse other)) ∧
      updated.next < start.spaCap) ∧
    (manager.get = .error (.idsExhausted start.spaCap) ↔
      ∀ id, id < start.spaCap → manager.InUse id) ∧
    ∀ id, id < start.spaCap → ¬ manager.InUse id →
      ∃ id updated, manager.get = .ok (id, updated) := by
  obtain ⟨managed, marked⟩ := managed_of_run made run
  have capacity := managed.capacity
  refine ⟨capacity ▸ managed.wellFormed.next_lt, marked, ?_, ?_, ?_, ?_⟩
  · intro id updated success
    obtain ⟨below, unused, inUse, sameCap, wellFormed⟩ :=
      get_spec managed.wellFormed success
    refine ⟨capacity ▸ below, unused, (inUse id).mpr (.inr rfl), ?_, ?_, ?_⟩
    · intro other different
      rw [inUse other]
      exact or_iff_left different
    · rw [← capacity, ← sameCap]
      exact wellFormed.next_lt
    · exact (get_hwm managed.wellFormed success).1
  · intro id used
    have below := capacity.symm ▸ managed.inRange id used
    obtain ⟨updated, success⟩ : ∃ updated, manager.free id = .ok updated := by
      rw [ReducerIdManager.free, if_neg (not_not.mpr below),
        if_neg (not_not.mpr used)]
      exact ⟨_, rfl⟩
    obtain ⟨inUse, sameCap, wellFormed⟩ := free_spec managed.wellFormed success
    refine ⟨updated, success, ?_, ?_, ?_⟩
    · exact fun usedThere => ((inUse id).mp usedThere).2 rfl
    · intro other different
      rw [inUse other]
      exact and_iff_left different
    · rw [← capacity, ← sameCap]
      exact wellFormed.next_lt
  · rw [← capacity]
    exact get_exhausted_iff managed.wellFormed
  · intro id below unused
    by_contra fails
    apply unused
    apply (get_exhausted_iff managed.wellFormed).mp _ id (capacity ▸ below)
    rw [ReducerIdManager.get]
    split
    · rfl
    · rename_i inRange
      exfalso
      apply fails
      refine ⟨manager.candidate, manager.take manager.candidate, ?_⟩
      rw [ReducerIdManager.get, if_neg inRange]

/-- Two IDs are allocated and the first one is freed again. -/
theorem id_allocation_after_free : ∃ manager : ReducerIdManager,
    manager.next = 0 ∧ manager.InUse 1 ∧ manager.next < 64 ∧
      (manager.get = .error (.idsExhausted 64) ↔
        ∀ id, id < 64 → manager.InUse id) := by
  obtain ⟨start, made⟩ : ∃ start, init 1 = .ok start := ⟨_, rfl⟩
  cases made
  have none := @Run.refl ReducerIdManager IdAction IdStep
    ⟨64, 0, 0, fun _ => 0⟩
  have first := none.snoc (@IdStep.get _ _ 0 rfl)
  have second := first.snoc (@IdStep.get _ _ 1 rfl)
  have freed := second.snoc (@IdStep.free _ _ 0 (by decide) rfl)
  have spec := @id_allocation 1 _ _ _ rfl freed
  exact ⟨_, rfl, by decide, spec.1, spec.2.2.2.2.1⟩

end Invariant

end Multicilk.ReducerIdManager
