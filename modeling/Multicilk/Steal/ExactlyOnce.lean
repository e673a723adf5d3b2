import Mathlib.Data.List.Nodup
import Multicilk.Steal.Preservation

/-!
# Every continuation is executed exactly once

An entry of the shadow stack is popped by the victim, which then continues in
the parent, or stolen by one thief, and it is not lost when the shadow stack is
set up again.  A pop that comes too late ends in `worker_scheduler`.
-/

namespace Multicilk.Steal

open TransitionSystem

/-- From the decrement of `tail` until the victim is back in user code or in
`worker_scheduler`. -/
def VictimPc.InPop : VictimPc → Prop
  | .leaveFrame | .handlerEntry | .handlerPeek | .handlerReset _
  | .handlerTest _ | .handlerUnlock _ _ | .handlerUnlockDeque _ => True
  | _ => False

/-- What holds of the entries of the shadow stack in a state and in the steps
that lead out of it. -/
structure ContinuesOnce (root : ℕ) (s : Shared) (thieves : ℕ → ThiefPc) :
    Prop where
  /-- Every entry that was pushed is popped, stolen by one thief or pending. -/
  once : ∀ entry, s.popped.count entry + (s.taken.map Prod.fst).count entry +
    s.pending.count entry = if entry < s.pushed then 1 else 0
  /-- A pop that continues in the parent gets the pending entry at `tail`. -/
  popped : ∀ action next, VictimStep root s action next → s.victim.InPop →
    next.victim = .user →
    s.stack s.tail ∈ s.pending ∧ next.popped = s.stack s.tail :: s.popped
  /-- A thief gets the pending entry at `head`. -/
  stolen : ∀ worker action next pc,
    ThiefStep root worker s (thieves worker) action next pc →
    next.taken = s.taken ∨
      s.stack s.head ∈ s.pending ∧
        next.taken = (s.stack s.head, worker) :: s.taken
  /-- A pop of a stolen entry finds `head` beyond `tail`. -/
  late : s.victim.IsPopping → s.stack s.tail ∈ s.taken.map Prod.fst →
    s.tail < s.head
  /-- So does a pop on an empty shadow stack. -/
  empty : ∀ next, VictimStep root s .decrementTail next → s.head = s.tail →
    next.tail < next.head
  /-- Such a pop ends in `worker_scheduler`. -/
  discarded : ∀ later, s.victim.InPop → s.tail < s.head →
    ReachableBy (fun state _ => state.shared.victim.InPop) (Step root)
      ⟨s, thieves⟩ later →
    later.shared.tail < later.shared.head ∧
      (later.shared.victim.InPop ∨ later.shared.victim = .scheduler)
  /-- The shadow stack is set up again when no entry is pending. -/
  setup : ∀ t next, VictimStep root s (.execute t) next ∨
    VictimStep root s .executeRoot next → s.pending = []

section Facts

variable {root worker : ℕ} {s next : Shared} {thieves : ℕ → ThiefPc}
  {pc : ThiefPc}

theorem Shared.Accounted.once (accounted : s.Accounted) (entry : ℕ) :
    s.popped.count entry + (s.taken.map Prod.fst).count entry +
      s.pending.count entry = if entry < s.pushed then 1 else 0 := by
  rw [← List.count_append, ← List.count_append, accounted.count_eq]
  split
  next pushed =>
    exact List.count_eq_one_of_mem List.nodup_range (List.mem_range.mpr pushed)
  next notPushed =>
    exact List.count_eq_zero.mpr fun member =>
      notPushed (List.mem_range.mp member)

theorem mem_pending {position : ℕ} (low : s.head ≤ position)
    (high : position < s.limit) : s.stack position ∈ s.pending := by
  apply List.mem_map_of_mem
  apply List.mem_range'_1.mpr
  omega

/-- The victim continues in the parent only with an entry that is pending. -/
theorem Invariant.popped {action : VictimAction}
    (invariant : Invariant root ⟨s, thieves⟩)
    (taken : VictimStep root s action next) (inPop : s.victim.InPop)
    (continues : next.victim = .user) :
    s.stack s.tail ∈ s.pending ∧ next.popped = s.stack s.tail :: s.popped := by
  cases taken
  case loadExc here =>
    split at continues
    · cases continues
    next within =>
      have atMostExc : s.head ≤ s.exc := invariant.head_le_exc
      rw [if_neg within]
      refine ⟨mem_pending (by omega) ?_, rfl⟩
      rw [limit_of_popping (by rw [here]; trivial)]
      exact Nat.lt_succ_self _
  case returnToUser here =>
    have reaches : s.head ≤ s.tail := invariant.fits_at here
    refine ⟨mem_pending reaches ?_, rfl⟩
    rw [limit_of_popping (by rw [here]; trivial)]
    exact Nat.lt_succ_self _
  case storeTail here =>
    rw [here] at inPop
    exact inPop.elim
  case setReturn t callParent here _ _ _ _ _ _ _ =>
    rw [here] at inPop
    exact inPop.elim
  case addBottom t here _ =>
    rw [here] at inPop
    exact inPop.elim
  all_goals cases continues

theorem Invariant.stolen {action : ThiefAction}
    (invariant : Invariant root ⟨s, thieves⟩)
    (taken : ThiefStep root worker s (thieves worker) action next pc) :
    next.taken = s.taken ∨
      s.stack s.head ∈ s.pending ∧
        next.taken = (s.stack s.head, worker) :: s.taken := by
  have fits : (thieves worker).Fits s := invariant.fits worker
  generalize here : thieves worker = before at taken
  rw [here] at fits
  cases taken
  case storeHead res head frame fresh =>
    obtain ⟨-, committed, rfl, rfl, -⟩ := fits
    exact .inr ⟨mem_pending (Nat.le_refl _) committed.limit, rfl⟩
  all_goals exact .inl rfl

theorem Invariant.late (invariant : Invariant root ⟨s, thieves⟩)
    (popping : s.victim.IsPopping)
    (stolen : s.stack s.tail ∈ s.taken.map Prod.fst) : s.tail < s.head := by
  by_contra notLate
  have entries : s.Accounted := invariant.entries
  have pending : s.stack s.tail ∈ s.pending := by
    apply mem_pending (Nat.le_of_not_lt notLate)
    rw [limit_of_popping popping]
    exact Nat.lt_succ_self _
  have once := entries.once (s.stack s.tail)
  have stolenCount := List.count_pos_iff.mpr stolen
  have pendingCount := List.count_pos_iff.mpr pending
  split at once <;> omega

theorem Invariant.pending_nil (invariant : Invariant root ⟨s, thieves⟩)
    (here : s.victim = .stealing ∨ s.victim = .outside) : s.pending = [] := by
  apply pending_of_le
  rcases here with here | here
  · have fits : s.tail ≤ s.head ∧ s.deque = [] := invariant.fits_at here
    rw [limit_of_not_popping (by rw [here]; exact id)]
    exact fits.1
  · have fits : s.tail ≤ s.head ∧ s.deque = [] := invariant.fits_at here
    rw [limit_of_not_popping (by rw [here]; exact id)]
    exact fits.1

/-- One step of the victim, of a thief or of somebody else during a pop that
comes too late. -/
theorem Invariant.discards {before after : State} {action : Action}
    (invariant : Invariant root before) (inPop : before.shared.victim.InPop)
    (tooLate : before.shared.tail < before.shared.head)
    (taken : Step root before action after) :
    after.shared.tail < after.shared.head ∧
      (after.shared.victim.InPop ∨ after.shared.victim = .scheduler) := by
  cases taken with
  | @victim s next thieves action taken =>
      simp only at inPop tooLate ⊢
      cases taken
      case loadExc here =>
        have atMostExc : s.head ≤ s.exc := invariant.head_le_exc
        rw [if_pos (by omega)]
        exact ⟨tooLate, .inl trivial⟩
      case testHeadSteal t here _ =>
        split <;> exact ⟨tooLate, .inl trivial⟩
      case testHeadFalseAlarm t here within => exact absurd tooLate within
      case longjmpToRuntime here => exact ⟨tooLate, .inr rfl⟩
      case returnToUser here =>
        have reaches : s.head ≤ s.tail := invariant.fits_at here
        omega
      case lockDeque here _ => exact ⟨tooLate, .inl trivial⟩
      case lockBottom t here _ _ => exact ⟨tooLate, .inl trivial⟩
      case resetExc t here => exact ⟨tooLate, .inl trivial⟩
      case unlockClosure t stolen here => exact ⟨tooLate, .inl trivial⟩
      all_goals simp_all [VictimPc.InPop]
  | @thief s next thieves worker pc action taken =>
      have fits : (thieves worker).Fits s := invariant.fits worker
      simp only at inPop tooLate ⊢
      generalize here : thieves worker = atPc at taken
      rw [here] at fits
      cases taken
      case storeHead res head frame fresh =>
        obtain ⟨-, -, rfl, -, -⟩ := fits
        exact ⟨Nat.lt_succ_of_lt tooLate, .inl inPop⟩
      all_goals exact ⟨tooLate, .inl inPop⟩
  | @other s next thieves action taken =>
      cases taken <;> exact ⟨tooLate, .inl inPop⟩

theorem Invariant.discarded {start later : State}
    (invariant : Invariant root start) (inPop : start.shared.victim.InPop)
    (tooLate : start.shared.tail < start.shared.head)
    (pop : ReachableBy (fun state _ => state.shared.victim.InPop) (Step root)
      start later) :
    later.shared.tail < later.shared.head ∧
      (later.shared.victim.InPop ∨ later.shared.victim = .scheduler) := by
  obtain ⟨trace, run, meets⟩ := pop
  have kept := @Run.invariant_of_meets _ _ _ _ _ _ _
    (fun state => Invariant root state ∧
      state.shared.tail < state.shared.head ∧
      (state.shared.victim.InPop ∨ state.shared.victim = .scheduler))
    run meets ⟨invariant, tooLate, .inl inPop⟩
    fun _ _ _ before stillInPop taken =>
      ⟨before.1.step taken, before.1.discards stillInPop before.2.1 taken⟩
  exact kept.2

end Facts

/-- In every state of every run, each entry is popped, stolen or pending, and
consumed at most once. -/
theorem continues_once {root : ℕ} {trace : List (State × Action)}
    {s : Shared} {thieves : ℕ → ThiefPc}
    (run : Run (Step root) initial trace ⟨s, thieves⟩) :
    ContinuesOnce root s thieves := by
  have invariant := invariant_of_run run
  constructor
  case once =>
    have entries : s.Accounted := invariant.entries
    exact entries.once
  case popped => exact fun _ _ taken => invariant.popped taken
  case stolen => exact fun _ _ _ _ taken => invariant.stolen taken
  case late => exact invariant.late
  case empty =>
    intro next taken sameEnds
    have bottom : shadowStack ≤ s.head := invariant.bottom
    rw [shadowStack] at bottom
    cases taken
    show s.tail - 1 < s.head
    omega
  case discarded => exact fun _ => invariant.discarded
  case setup =>
    rintro t next (taken | taken)
    · cases taken with
      | execute here _ _ => exact invariant.pending_nil (.inl here)
    · cases taken with
      | executeRoot here _ _ => exact invariant.pending_nil (.inr here)

/-- The victim pops the entry of a frame that has been stolen. -/
theorem continues_once_after_steal :
    ∃ trace s thieves, Run (Step 0) initial trace ⟨s, thieves⟩ ∧
      s.taken = [(0, 0)] ∧ s.victim = .leaveFrame ∧
      ContinuesOnce 0 s thieves := by
  obtain ⟨⟨s, thieves⟩, ⟨trace, run, -⟩, -, taken, user, -⟩ := steal_succeeds
  have popped := run.snoc (.victim (.decrementTail user))
  exact ⟨_, _, thieves, popped, taken, rfl, continues_once popped⟩

end Multicilk.Steal
