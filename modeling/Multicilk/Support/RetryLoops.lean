import Mathlib.Algebra.BigOperators.Group.Multiset.Basic
import Mathlib.Algebra.Order.Group.Multiset
import Multicilk.Support.Run

/-!
# Retry loops over shared slots

Several parties run a loop each, and their iterations are interleaved.  An
iteration that finds something in the slots of its party takes it and tries
again.  One that finds nothing leaves a deposit in a slot and ends the loop.
Every retry is paid for by a deposit, and every deposit by a party that ends.
-/

namespace RetryLoops

open TransitionSystem

variable {Party Slot : Type*}

structure Iteration (Party Slot : Type*) where
  party : Party
  ends : Bool
  /-- The full slots that are emptied. -/
  taken : Multiset Slot
  /-- The slot that is filled. -/
  deposited : Multiset Slot

def taken (iterations : List (Iteration Party Slot)) : Multiset Slot :=
  (iterations.map Iteration.taken).sum

def deposited (iterations : List (Iteration Party Slot)) : Multiset Slot :=
  (iterations.map Iteration.deposited).sum

/-- The parties whose loop has ended, in that order. -/
def ended (iterations : List (Iteration Party Slot)) : List Party :=
  (iterations.filter Iteration.ends).map Iteration.party

/-- An iteration either takes something, or leaves something and ends. -/
structure Iteration.Proper (iteration : Iteration Party Slot) : Prop where
  retries : iteration.ends = false →
    iteration.taken ≠ 0 ∧ iteration.deposited = 0
  ends : iteration.ends = true →
    iteration.taken = 0 ∧ iteration.deposited.card ≤ 1

/-- The iterations are accounted for by the parties in their loops and the full
slots, before and after them. -/
structure Accounts (iterations : List (Iteration Party Slot))
    (parties : Multiset Party) (full : Multiset Slot)
    (laterParties : Multiset Party) (laterFull : Multiset Slot) : Prop where
  proper : ∀ iteration ∈ iterations, iteration.Proper
  parties : ↑(ended iterations) + laterParties ≤ parties
  slots : taken iterations + laterFull ≤ full + deposited iterations

/-- Retries take what was left, ends leave at most one deposit, every deposit is
taken once, and every party ends once. -/
structure Bounded (iterations : List (Iteration Party Slot))
    (parties : Multiset Party) (full laterFull : Multiset Slot) : Prop where
  proper : ∀ iteration ∈ iterations, iteration.Proper
  takenOnce : taken iterations + laterFull ≤ full + deposited iterations
  endedOnce : (ended iterations).Nodup
  wasParty : ∀ party ∈ ended iterations, party ∈ parties
  length : iterations.length ≤ 2 * parties.card + full.card

section Rules

variable {iteration : Iteration Party Slot}
  {iterations later : List (Iteration Party Slot)}
  {parties middleParties laterParties : Multiset Party}
  {full middleFull laterFull : Multiset Slot}

@[simp] theorem taken_nil :
    taken ([] : List (Iteration Party Slot)) = 0 := rfl

@[simp] theorem deposited_nil :
    deposited ([] : List (Iteration Party Slot)) = 0 := rfl

@[simp] theorem ended_nil :
    ended ([] : List (Iteration Party Slot)) = [] := rfl

@[simp] theorem taken_cons :
    taken (iteration :: iterations) = iteration.taken + taken iterations := by
  simp [taken]

@[simp] theorem deposited_cons : deposited (iteration :: iterations) =
    iteration.deposited + deposited iterations := by
  simp [deposited]

theorem ended_cons : ended (iteration :: iterations) =
    if iteration.ends then iteration.party :: ended iterations
    else ended iterations := by
  unfold ended
  rw [List.filter_cons]
  split <;> rfl

@[simp] theorem taken_append :
    taken (iterations ++ later) = taken iterations + taken later := by
  simp [taken]

@[simp] theorem deposited_append : deposited (iterations ++ later) =
    deposited iterations + deposited later := by
  simp [deposited]

@[simp] theorem ended_append :
    ended (iterations ++ later) = ended iterations ++ ended later := by
  simp [ended]

/-- Without iterations, parties may leave and slots may be emptied. -/
theorem Accounts.nil (fewer : laterParties ≤ parties)
    (emptier : laterFull ≤ full) :
    Accounts ([] : List (Iteration Party Slot)) parties full laterParties
      laterFull := by
  constructor
  case proper => exact fun _ member => absurd member List.not_mem_nil
  case parties => simpa using fewer
  case slots => simpa using emptier

theorem Accounts.append
    (first : Accounts iterations parties full middleParties middleFull)
    (second : Accounts later middleParties middleFull laterParties laterFull) :
    Accounts (iterations ++ later) parties full laterParties laterFull := by
  constructor
  case proper =>
    intro iteration member
    rcases List.mem_append.mp member with early | late
    · exact first.proper iteration early
    · exact second.proper iteration late
  case parties =>
    rw [ended_append, ← Multiset.coe_add, add_assoc]
    exact (add_le_add_right second.parties _).trans first.parties
  case slots =>
    rw [taken_append, deposited_append]
    calc taken iterations + taken later + laterFull
        = taken iterations + (taken later + laterFull) := add_assoc ..
      _ ≤ taken iterations + (middleFull + deposited later) :=
          add_le_add_right second.slots _
      _ = taken iterations + middleFull + deposited later :=
          (add_assoc ..).symm
      _ ≤ full + deposited iterations + deposited later :=
          add_le_add_left first.slots _
      _ = full + (deposited iterations + deposited later) := add_assoc ..

/-- A retry takes at least one deposit, and an end leaves at most one. -/
theorem length_add_deposited_le
    (proper : ∀ iteration ∈ iterations, iteration.Proper) :
    iterations.length ≤ (taken iterations).card + (ended iterations).length ∧
      (deposited iterations).card ≤ (ended iterations).length := by
  induction iterations with
  | nil => simp
  | cons iteration iterations induction =>
      rw [List.forall_mem_cons] at proper
      obtain ⟨paid, left⟩ := induction proper.2
      rw [taken_cons, deposited_cons, ended_cons, Multiset.card_add,
        Multiset.card_add, List.length_cons]
      cases ends : iteration.ends with
      | true =>
          obtain ⟨-, atMostOne⟩ := proper.1.ends ends
          rw [if_pos rfl, List.length_cons]
          omega
      | false =>
          obtain ⟨something, nothing⟩ := proper.1.retries ends
          have positive := Multiset.card_pos.mpr something
          rw [nothing, Multiset.card_zero, if_neg Bool.false_ne_true]
          omega

/-- There are at most two iterations for every party, and one for every slot
that was full before. -/
theorem Accounts.length_le
    (accounts : Accounts iterations parties full laterParties laterFull) :
    iterations.length ≤ 2 * parties.card + full.card := by
  obtain ⟨paid, left⟩ := length_add_deposited_le accounts.proper
  have parties := Multiset.card_le_card accounts.parties
  have slots := Multiset.card_le_card accounts.slots
  rw [Multiset.card_add, Multiset.coe_card] at parties
  rw [Multiset.card_add, Multiset.card_add] at slots
  omega

theorem Accounts.bounded
    (accounts : Accounts iterations parties full laterParties laterFull)
    (nodup : parties.Nodup) : Bounded iterations parties full laterFull := by
  have were : (↑(ended iterations) : Multiset Party) ≤ parties :=
    (Multiset.le_add_right _ _).trans accounts.parties
  constructor
  case proper => exact accounts.proper
  case takenOnce => exact accounts.slots
  case endedOnce =>
    exact Multiset.coe_nodup.mp (Multiset.nodup_of_le were nodup)
  case wasParty => exact fun party member => Multiset.mem_of_le were member
  case length => exact accounts.length_le

/-- It does not matter when parties are counted that have ended before. -/
theorem Bounded.mono {more : Multiset Party}
    (bounded : Bounded iterations parties full laterFull)
    (fewer : parties ≤ more) : Bounded iterations more full laterFull := by
  have fewerCard := Multiset.card_le_card fewer
  constructor
  case proper => exact bounded.proper
  case takenOnce => exact bounded.takenOnce
  case endedOnce => exact bounded.endedOnce
  case wasParty =>
    exact fun party member =>
      Multiset.mem_of_le fewer (bounded.wasParty party member)
  case length =>
    have length := bounded.length
    omega

end Rules

section Runs

variable {State : Type u} {Action : Type v}
  {step : State → Action → State → Prop} {start final : State}
  {trace : List (State × Action)}

/-- What every step accounts for, a run does. -/
theorem accounts_run
    {iterations : State → Action → List (Iteration Party Slot)}
    {parties : State → Multiset Party} {full : State → Multiset Slot}
    {condition : State → Action → Prop} {invariant : State → Prop}
    (run : Run step start trace final) (meets : Meets condition trace)
    (initial : invariant start)
    (preserved : ∀ source action target, invariant source →
      step source action target → invariant target)
    (accounts : ∀ source action target, invariant source →
      condition source action → step source action target →
      Accounts (iterations source action) (parties source) (full source)
        (parties target) (full target)) :
    Accounts (trace.flatMap fun entry => iterations entry.1 entry.2)
      (parties start) (full start) (parties final) (full final) := by
  induction run with
  | refl => exact .nil le_rfl le_rfl
  | @snoc trace source target action earlier last induction =>
      rw [meets_snoc] at meets
      rw [List.flatMap_append, List.flatMap_singleton]
      exact (induction meets.1).append (accounts _ _ _
        (earlier.invariant initial preserved) meets.2 last)

end Runs

end RetryLoops
