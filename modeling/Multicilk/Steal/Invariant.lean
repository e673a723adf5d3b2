import Mathlib.Data.List.Basic
import Multicilk.Steal.Locks

/-!
# The invariant of the THE protocol

While nobody is between incrementing `exc` and the end of the attempt, `exc`
equals `head`.  A thief in between holds the lock of the deque, and once it has
passed its test either the entry at `head` is below `tail`, or the victim has
just popped it and is bound to wait for that lock.
-/

namespace Multicilk.Steal

/-- Program points between the increment of `exc` and the store of `head` or
the decrement. -/
def ThiefPc.InWindow : ThiefPc → Prop
  | .loadHead _ | .loadTail _ _ | .decLoad _ | .decStore _ _ | .promote _
  | .unlockSuspended _ _ _ _ | .lockFresh _ _ _ | .storeHead _ _ _ _ => True
  | _ => False

/-- The closure at the top of the deque that a thief is working on. -/
def ThiefPc.peeked : ThiefPc → Option ℕ
  | .trylockClosure cl | .testStatus cl | .incLoad cl | .incStore cl _
  | .loadHead cl | .loadTail cl _ | .decLoad cl | .decStore cl _
  | .promote cl => some cl
  | _ => none

/-- The victim runs the frames of its shadow stack, and holds no lock. -/
def VictimPc.InUserCode : VictimPc → Prop
  | .user | .detach | .leaveFrame | .handlerEntry => True
  | _ => False

/-- The victim is about to pop the entry at `tail` and has not yet decided. -/
def VictimPc.IsPopping : VictimPc → Prop
  | .leaveFrame | .handlerEntry | .handlerPeek | .handlerReset _
  | .handlerTest _ | .handlerUnlock _ false | .handlerUnlockDeque false => True
  | _ => False

instance (pc : VictimPc) : Decidable pc.IsPopping := by
  unfold VictimPc.IsPopping
  split <;> infer_instance

namespace Shared

/-- A thief that has passed its test gets the entry at `head`. -/
def Committed (s : Shared) : Prop :=
  s.head < s.tail ∨
    (s.head = s.tail ∧ (s.victim = .leaveFrame ∨ s.victim = .handlerEntry))

/-- Where the pointers can be at a program point of the victim. -/
def VictimFits (s : Shared) : Prop :=
  match s.victim with
  | .user => s.head ≤ s.tail
  | .detach => s.head ≤ s.tail ∧ s.stack s.tail = s.pushed
  | .leaveFrame | .handlerEntry | .handlerPeek | .handlerReset _ =>
      s.head ≤ s.tail + 1
  | .handlerTest _ => s.head ≤ s.tail + 1 ∧ s.exc = s.head
  | .handlerUnlock _ stolen | .handlerUnlockDeque stolen =>
      if stolen then s.head = s.tail + 1 else s.head ≤ s.tail
  | .scheduler => s.tail ≤ s.head
  | .stealing | .outside => s.tail ≤ s.head ∧ s.deque = []
  | .launching _ =>
      s.head = shadowStack ∧ s.tail = shadowStack ∧ s.deque = []

/-- Where a closure that a thief works on can be. -/
def Peekable (s : Shared) (cl root : ℕ) : Prop :=
  match s.victim with
  | .user | .detach | .leaveFrame | .handlerEntry => cl ∈ s.deque
  | .outside => cl = root
  | .stealing => False
  | _ => True

/-- The end of the entries that neither side has got. -/
def limit (s : Shared) : ℕ :=
  if s.victim.IsPopping then s.tail + 1 else s.tail

/-- The entries that neither side has got, oldest first. -/
def pending (s : Shared) : List ℕ :=
  (List.range' s.head (s.limit - s.head)).map s.stack

/-- Every entry that was pushed is popped, stolen or still there, and only one
of them. -/
def Accounted (s : Shared) : Prop :=
  (s.popped ++ s.taken.map Prod.fst ++ s.pending).Perm (List.range s.pushed)

end Shared

/-- What a thief knows about the pointers at its program point. -/
def ThiefPc.Fits (s : Shared) : ThiefPc → Prop
  | .incStore _ exc => exc = s.head
  | .loadHead _ => s.exc = s.head + 1
  | .loadTail _ head => s.exc = s.head + 1 ∧ head = s.head
  | .decLoad _ => s.exc = s.head + 1
  | .decStore _ exc => s.exc = s.head + 1 ∧ exc = s.exc
  | .promote _ => s.exc = s.head + 1 ∧ s.Committed
  | .unlockSuspended _ _ head frame | .lockFresh _ head frame =>
      s.exc = s.head + 1 ∧ s.Committed ∧ head = s.head ∧
        frame = s.stack head ∧ s.deque = []
  | .storeHead _ head frame fresh =>
      s.exc = s.head + 1 ∧ s.Committed ∧ head = s.head ∧
        frame = s.stack head ∧ (fresh = true → s.deque = [])
  | .addBottom _ fresh =>
      shadowStack < s.head ∧ s.victim.InUserCode ∧
        (fresh = true → s.deque = [])
  | _ => True

structure Invariant (root : ℕ) (state : State) : Prop where
  locks : LocksHeld state
  bottom : shadowStack ≤ state.shared.head
  exc : (∀ worker, ¬ (state.thieves worker).InWindow) →
    state.shared.exc = state.shared.head
  victim : state.shared.VictimFits
  deque : state.shared.deque.length ≤ 1
  fits : ∀ worker, (state.thieves worker).Fits state.shared
  peeked : ∀ worker cl, (state.thieves worker).peeked = some cl →
    state.shared.Peekable cl root
  entries : state.shared.Accounted

theorem invariant_initial (root : ℕ) : Invariant root initial := by
  constructor
  case locks => exact locksHeld_initial
  case bottom => exact Nat.le_refl _
  case exc => exact fun _ => rfl
  case victim => exact ⟨Nat.le_refl _, rfl⟩
  case deque => exact Nat.zero_le 1
  case fits => exact fun _ => trivial
  case peeked => exact fun _ _ peeked => nomatch peeked
  case entries => exact List.Perm.refl []

/-- Facts about program points that need no state. -/
theorem ThiefPc.InWindow.holdsDeque {pc : ThiefPc} (inWindow : pc.InWindow) :
    pc.holds .deque := by
  cases pc <;> trivial

theorem ThiefPc.holdsDeque_of_peeked {pc : ThiefPc} {cl : ℕ}
    (peeked : pc.peeked = some cl) : pc.holds .deque := by
  cases pc <;> trivial

theorem ThiefPc.fits_of_not_holdsDeque {pc : ThiefPc} (s : Shared)
    (apart : ¬ pc.holds .deque) : pc.Fits s := by
  cases pc <;> first | trivial | exact absurd trivial apart

section Pending

variable {s next : Shared}

theorem limit_of_popping (popping : s.victim.IsPopping) :
    s.limit = s.tail + 1 :=
  if_pos popping

theorem limit_of_not_popping (idle : ¬ s.victim.IsPopping) :
    s.limit = s.tail :=
  if_neg idle

theorem limit_congr_of_popping (sameTail : next.tail = s.tail)
    (popping : s.victim.IsPopping) (stillPopping : next.victim.IsPopping) :
    next.limit = s.limit := by
  rw [limit_of_popping popping, limit_of_popping stillPopping, sameTail]

theorem limit_congr_of_not_popping (sameTail : next.tail = s.tail)
    (idle : ¬ s.victim.IsPopping) (stillIdle : ¬ next.victim.IsPopping) :
    next.limit = s.limit := by
  rw [limit_of_not_popping idle, limit_of_not_popping stillIdle, sameTail]

theorem pending_of_le (beyond : s.limit ≤ s.head) : s.pending = [] := by
  simp [Shared.pending, Nat.sub_eq_zero_of_le beyond]

theorem pending_congr (sameHead : next.head = s.head)
    (sameLimit : next.limit = s.limit)
    (sameStack : ∀ position, s.head ≤ position → position < s.limit →
      next.stack position = s.stack position) :
    next.pending = s.pending := by
  rw [Shared.pending, Shared.pending, sameHead, sameLimit]
  apply List.map_congr_left
  intro position member
  have bounds := List.mem_range'_1.mp member
  exact sameStack position bounds.1 (by omega)

/-- The youngest pending entry. -/
theorem pending_eq_concat (sameHead : next.head = s.head)
    (sameStack : next.stack = s.stack)
    (longer : s.limit = next.limit + 1) (reaches : s.head ≤ next.limit) :
    s.pending = next.pending ++ [s.stack next.limit] := by
  have split : s.limit - s.head = (next.limit - s.head) + 1 := by omega
  rw [Shared.pending, Shared.pending, sameHead, sameStack, split,
    List.range'_concat]
  have position : s.head + (next.limit - s.head) = next.limit := by omega
  simp [position]

/-- The oldest pending entry. -/
theorem pending_eq_cons (shorter : next.head = s.head + 1)
    (sameStack : next.stack = s.stack) (sameLimit : next.limit = s.limit)
    (reaches : s.head < s.limit) :
    s.pending = s.stack s.head :: next.pending := by
  have split : s.limit - s.head = (s.limit - (s.head + 1)) + 1 := by omega
  rw [Shared.pending, Shared.pending, shorter, sameStack, sameLimit, split,
    List.range'_succ]
  rfl

theorem Shared.Accounted.congr (accounted : s.Accounted)
    (samePopped : next.popped = s.popped) (sameTaken : next.taken = s.taken)
    (samePushed : next.pushed = s.pushed) (sameHead : next.head = s.head)
    (sameLimit : next.limit = s.limit)
    (sameStack : ∀ position, s.head ≤ position → position < s.limit →
      next.stack position = s.stack position) : next.Accounted := by
  rw [Shared.Accounted, samePopped, sameTaken, samePushed,
    pending_congr sameHead sameLimit sameStack]
  exact accounted

theorem Shared.Accounted.continueInParent (accounted : s.Accounted)
    (popping : s.victim.IsPopping) (reaches : s.head ≤ s.tail) :
    s.continueInParent.Accounted := by
  have before : s.limit = s.tail + 1 := limit_of_popping popping
  have after : s.continueInParent.limit = s.tail := limit_of_not_popping id
  have youngest : s.pending = s.continueInParent.pending ++ [s.stack s.tail] := by
    have concat := @pending_eq_concat s s.continueInParent rfl rfl
      (by rw [before, after]) (by rw [after]; exact reaches)
    rwa [after] at concat
  rw [Shared.Accounted, youngest, ← List.append_assoc] at accounted
  apply List.Perm.trans _ accounted
  exact (List.perm_append_singleton _ _).symm

end Pending

section Preservation

variable {root worker : ℕ} {s next : Shared} {thieves : ℕ → ThiefPc}
  {pc : ThiefPc}

theorem ThiefPc.Fits.mono (fits : pc.Fits s) (sameHead : next.head = s.head)
    (sameExc : next.exc = s.exc)
    (committed : s.exc = s.head + 1 → s.Committed →
      next.Committed ∧ next.stack s.head = s.stack s.head)
    (inUserCode : shadowStack < s.head → s.victim.InUserCode →
      next.victim.InUserCode)
    (emptyDeque : s.deque = [] → next.deque = []) : pc.Fits next := by
  cases pc <;> simp_all [ThiefPc.Fits]

/-- Nobody steals while the lock of the deque is free or held by the victim. -/
theorem Invariant.apart (invariant : Invariant root ⟨s, thieves⟩)
    (notStolen : ∀ worker, s.locks .deque ≠ some (.thief worker)) (worker) :
    ¬ (thieves worker).holds .deque :=
  fun holds => notStolen worker (invariant.locks.thief worker .deque holds)

theorem Invariant.of_apart (invariant : Invariant root ⟨s, thieves⟩)
    (apart : ∀ worker, ¬ (thieves worker).holds .deque)
    (locks : LocksHeld ⟨next, thieves⟩)
    (bottom : shadowStack ≤ next.head)
    (exc : s.exc = s.head → next.exc = next.head)
    (victim : next.VictimFits) (deque : next.deque.length ≤ 1)
    (entries : next.Accounted) :
    Invariant root ⟨next, thieves⟩ := by
  constructor
  case locks => exact locks
  case bottom => exact bottom
  case exc =>
    intro notInWindow
    exact exc (invariant.exc notInWindow)
  case victim => exact victim
  case deque => exact deque
  case fits => exact fun worker => ThiefPc.fits_of_not_holdsDeque next (apart worker)
  case peeked =>
    intro worker cl peeked
    exact absurd (ThiefPc.holdsDeque_of_peeked peeked) (apart worker)
  case entries => exact entries

/-- The victim goes on without any lock, and its pointers `head` and `exc`
stay where they are. -/
theorem Invariant.of_fast (invariant : Invariant root ⟨s, thieves⟩)
    (locks : LocksHeld ⟨next, thieves⟩)
    (sameHead : next.head = s.head) (sameExc : next.exc = s.exc)
    (victim : next.VictimFits)
    (committed : s.exc = s.head + 1 → s.Committed →
      next.Committed ∧ next.stack s.head = s.stack s.head)
    (inUserCode : shadowStack < s.head → s.victim.InUserCode →
      next.victim.InUserCode)
    (deque : next.deque = s.deque ∨ next.deque = [])
    (peeked : ∀ cl, s.Peekable cl root → next.Peekable cl root)
    (entries : next.Accounted) :
    Invariant root ⟨next, thieves⟩ := by
  constructor
  case locks => exact locks
  case bottom =>
    rw [sameHead]
    exact invariant.bottom
  case exc =>
    intro notInWindow
    rw [sameHead, sameExc]
    exact invariant.exc notInWindow
  case victim => exact victim
  case deque =>
    rcases deque with same | empty
    · rw [same]
      exact invariant.deque
    · simp [empty]
  case fits =>
    intro worker
    apply (invariant.fits worker).mono sameHead sameExc committed inUserCode
    intro empty
    rcases deque with same | cleared
    · exact same.trans empty
    · exact cleared
  case peeked =>
    exact fun worker cl found => peeked cl (invariant.peeked worker cl found)
  case entries => exact entries

theorem Invariant.head_le_exc (invariant : Invariant root ⟨s, thieves⟩) :
    s.head ≤ s.exc := by
  by_cases window : ∃ worker, (thieves worker).InWindow
  · obtain ⟨worker, inWindow⟩ := window
    have fits := invariant.fits worker
    have increased : s.exc = s.head + 1 := by
      cases pc : thieves worker <;> simp_all [ThiefPc.Fits, ThiefPc.InWindow]
    omega
  · exact Nat.le_of_eq (invariant.exc (not_exists.mp window)).symm

/-- A thief that holds the lock of the deque has it for itself. -/
theorem Invariant.alone (invariant : Invariant root ⟨s, thieves⟩)
    (holds : (thieves worker).holds .deque) {other : ℕ}
    (different : other ≠ worker) : ¬ (thieves other).holds .deque := by
  intro otherHolds
  have mine := invariant.locks.thief worker .deque holds
  have theirs := invariant.locks.thief other .deque otherHolds
  rw [mine] at theirs
  exact different (by simpa using theirs.symm)

theorem Invariant.victim_free (invariant : Invariant root ⟨s, thieves⟩)
    (holds : (thieves worker).holds .deque) : ¬ s.victim.holds .deque := by
  intro victimHolds
  have mine := invariant.locks.thief worker .deque holds
  have theirs := invariant.locks.victim .deque victimHolds
  rw [mine] at theirs
  cases theirs

theorem Invariant.exc_of_holder (invariant : Invariant root ⟨s, thieves⟩)
    (holds : (thieves worker).holds .deque)
    (notInWindow : ¬ (thieves worker).InWindow) : s.exc = s.head := by
  apply invariant.exc
  intro other
  by_cases same : other = worker
  · subst other
    exact notInWindow
  · intro inWindow
    exact invariant.alone holds same inWindow.holdsDeque

/-- A step of the thief that holds the lock of the deque. -/
theorem Invariant.of_holder (invariant : Invariant root ⟨s, thieves⟩)
    (holds : (thieves worker).holds .deque)
    (locks : LocksHeld ⟨next, Function.update thieves worker pc⟩)
    (bottom : shadowStack ≤ next.head)
    (exc : ¬ pc.InWindow → next.exc = next.head)
    (victim : next.VictimFits) (deque : next.deque.length ≤ 1)
    (fits : pc.Fits next)
    (peeked : ∀ cl, pc.peeked = some cl → next.Peekable cl root)
    (entries : next.Accounted) :
    Invariant root ⟨next, Function.update thieves worker pc⟩ := by
  constructor
  case locks => exact locks
  case bottom => exact bottom
  case exc =>
    intro notInWindow
    have mine := notInWindow worker
    simp only [Function.update_self] at mine
    exact exc mine
  case victim => exact victim
  case deque => exact deque
  case fits =>
    intro other
    by_cases same : other = worker
    · subst other
      simpa using fits
    · simp only [Function.update_of_ne same]
      exact ThiefPc.fits_of_not_holdsDeque next (invariant.alone holds same)
  case peeked =>
    intro other cl otherPeeked
    by_cases same : other = worker
    · subst other
      simp only [Function.update_self] at otherPeeked
      exact peeked cl otherPeeked
    · simp only [Function.update_of_ne same] at otherPeeked
      exact absurd (ThiefPc.holdsDeque_of_peeked otherPeeked)
        (invariant.alone holds same)
  case entries => exact entries

/-- A step that leaves the pointers, the deque and the victim alone. -/
theorem Invariant.of_quiet (invariant : Invariant root ⟨s, thieves⟩)
    (owners : Lock → Option Party) (status : ℕ → ClosureStatus) (ended : Bool)
    (locks : LocksHeld ⟨{ s with locks := owners, status, regionOver := ended },
      Function.update thieves worker pc⟩)
    (window : pc.InWindow ↔ (thieves worker).InWindow)
    (fits : pc.Fits s)
    (peeked : ∀ cl, pc.peeked = some cl → s.Peekable cl root) :
    Invariant root ⟨{ s with locks := owners, status, regionOver := ended },
      Function.update thieves worker pc⟩ := by
  constructor
  case locks => exact locks
  case bottom => exact invariant.bottom
  case exc =>
    intro notInWindow
    apply invariant.exc
    intro other
    by_cases same : other = worker
    · subst other
      have mine := notInWindow worker
      simp only [Function.update_self, window] at mine
      exact mine
    · have theirs := notInWindow other
      simp only [Function.update_of_ne same] at theirs
      exact theirs
  case victim => exact invariant.victim
  case deque => exact invariant.deque
  case fits =>
    intro other
    by_cases same : other = worker
    · subst other
      simp only [Function.update_self]
      exact fits.mono rfl rfl (fun _ committed => ⟨committed, rfl⟩)
        (fun _ inUserCode => inUserCode) id
    · simp only [Function.update_of_ne same]
      exact (invariant.fits other).mono rfl rfl
        (fun _ committed => ⟨committed, rfl⟩) (fun _ inUserCode => inUserCode) id
  case peeked =>
    intro other cl otherPeeked
    by_cases same : other = worker
    · subst other
      simp only [Function.update_self] at otherPeeked
      exact peeked cl otherPeeked
    · simp only [Function.update_of_ne same] at otherPeeked
      exact invariant.peeked other cl otherPeeked
  case entries => exact invariant.entries

end Preservation

end Multicilk.Steal
