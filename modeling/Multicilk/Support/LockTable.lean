import Mathlib.Logic.Function.Basic

/-!
# Lock tables

A table gives the owner of every lock.  Parties move between program points,
each of which says what the party holds there.  Moves that take only free
locks and give back only held ones keep table and program points in agreement.
-/

namespace LockTable

variable {Lock : Type u} {Party : Type v}

section Moves

variable {party other : Party} {owners updated : Lock → Option Party}
  {before after : Lock → Prop} {lock : Lock}

/-- The party holds what it held before, except for free locks that it takes
and held ones that it gives back. -/
def Move (party : Party) (owners updated : Lock → Option Party)
    (before after : Lock → Prop) : Prop :=
  ∀ lock,
    (updated lock = owners lock ∧ (after lock ↔ before lock)) ∨
    (owners lock = none ∧ updated lock = some party ∧ after lock) ∨
    (before lock ∧ updated lock = none ∧ ¬ after lock)

theorem Move.stay (same : ∀ lock, after lock ↔ before lock) :
    Move party owners owners before after :=
  fun lock => .inl ⟨rfl, same lock⟩

theorem Move.acquire [DecidableEq Lock] (free : owners lock = none)
    (taken : ∀ other, after other ↔ before other ∨ other = lock) :
    Move party owners (Function.update owners lock (some party))
      before after := by
  intro current
  by_cases same : current = lock
  · subst current
    exact .inr (.inl ⟨free, Function.update_self .., (taken lock).mpr (.inr rfl)⟩)
  · refine .inl ⟨Function.update_of_ne same .., ?_⟩
    simp [taken, same]

theorem Move.release [DecidableEq Lock] (holds : before lock)
    (given : ∀ other, after other ↔ before other ∧ other ≠ lock) :
    Move party owners (Function.update owners lock none) before after := by
  intro current
  by_cases same : current = lock
  · subst current
    refine .inr (.inr ⟨holds, Function.update_self .., ?_⟩)
    simp [given]
  · refine .inl ⟨Function.update_of_ne same .., ?_⟩
    simp [given, same]

theorem Move.held (move : Move party owners updated before after)
    (held : ∀ lock, before lock → owners lock = some party) :
    ∀ lock, after lock → updated lock = some party := by
  intro lock holds
  rcases move lock with ⟨same, iff⟩ | ⟨-, taken, -⟩ | ⟨-, -, given⟩
  · rw [same]
    exact held lock (iff.mp holds)
  · exact taken
  · exact absurd holds given

theorem Move.held_by_other (move : Move party owners updated before after)
    (held : ∀ lock, before lock → owners lock = some party)
    (different : other ≠ party) (owns : owners lock = some other) :
    updated lock = some other := by
  rcases move lock with ⟨same, -⟩ | ⟨free, -, -⟩ | ⟨holds, -, -⟩
  · rw [same, owns]
  · rw [free] at owns
    cases owns
  · rw [held lock holds, Option.some.injEq] at owns
    exact absurd owns.symm different

theorem Move.owned (move : Move party owners updated before after)
    (owned : ∀ lock, owners lock = some party → before lock) :
    ∀ lock, updated lock = some party → after lock := by
  intro lock owns
  rcases move lock with ⟨same, iff⟩ | ⟨-, -, holds⟩ | ⟨-, free, -⟩
  · rw [same] at owns
    exact iff.mpr (owned lock owns)
  · exact holds
  · rw [free] at owns
    cases owns

theorem Move.owned_by_other (move : Move party owners updated before after)
    (different : other ≠ party) (owns : updated lock = some other) :
    owners lock = some other := by
  rcases move lock with ⟨same, -⟩ | ⟨-, taken, -⟩ | ⟨-, free, -⟩
  · rw [← same, owns]
  · rw [taken, Option.some.injEq] at owns
    exact absurd owns.symm different
  · rw [free] at owns
    cases owns

end Moves

end LockTable
