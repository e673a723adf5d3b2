import Multicilk.Steal.Invariant

/-!
# Every step keeps the invariant of the THE protocol

Most steps of a thief leave the pointers alone.  The others are taken with the
lock of the deque, which the victim needs for everything but its fast path.
-/

namespace Multicilk.Steal

open TransitionSystem

variable {root worker : ℕ} {s next : Shared} {thieves : ℕ → ThiefPc}
  {pc : ThiefPc}

theorem Shared.Committed.inUserCode (committed : s.Committed)
    (fits : s.VictimFits) (free : ¬ s.victim.holds .deque) :
    s.victim.InUserCode := by
  rcases committed with below | ⟨-, here | here⟩
  · unfold Shared.VictimFits at fits
    cases here : s.victim <;> simp only [here] at fits free <;>
      first | trivial | omega | exact absurd trivial free
  · rw [here]
    trivial
  · rw [here]
    trivial

theorem Shared.Committed.below (committed : s.Committed)
    (notLeaving : s.victim ≠ .leaveFrame)
    (notEntering : s.victim ≠ .handlerEntry) : s.head < s.tail := by
  rcases committed with below | ⟨-, leaving | entering⟩
  · exact below
  · exact absurd leaving notLeaving
  · exact absurd entering notEntering

theorem Shared.Committed.limit (committed : s.Committed) :
    s.head < s.limit := by
  rcases committed with below | ⟨same, here | here⟩
  · unfold Shared.limit
    split <;> omega
  · rw [limit_of_popping (by simp [here, VictimPc.IsPopping])]
    omega
  · rw [limit_of_popping (by simp [here, VictimPc.IsPopping])]
    omega

theorem Shared.VictimFits.of_user (here : s.victim = .user)
    (fits : s.head ≤ s.tail) : s.VictimFits := by
  unfold Shared.VictimFits
  rw [here]
  exact fits

/-- Outside the handler, the victim relies on the pointers `head` and `tail`
and on the stack, and in user code not on the deque. -/
theorem Shared.VictimFits.of_free (fits : s.VictimFits)
    (free : ¬ s.victim.holds .deque) (sameVictim : next.victim = s.victim)
    (sameHead : next.head = s.head) (sameTail : next.tail = s.tail)
    (sameStack : next.stack = s.stack) (samePushed : next.pushed = s.pushed)
    (sameDeque : next.deque = s.deque ∨ s.victim.InUserCode) :
    next.VictimFits := by
  unfold Shared.VictimFits at *
  rw [sameVictim, sameHead, sameTail, sameStack, samePushed]
  cases here : s.victim <;> simp only [here] at fits free sameDeque ⊢ <;>
    first
    | exact fits
    | exact absurd trivial free
    | exact ⟨fits.1, (sameDeque.resolve_right id).trans fits.2⟩
    | exact ⟨fits.1, fits.2.1, (sameDeque.resolve_right id).trans fits.2.2⟩

theorem Invariant.dropLast_deque (invariant : Invariant root ⟨s, thieves⟩) :
    s.deque.dropLast = [] := by
  apply List.length_eq_zero_iff.mp
  have short : s.deque.length ≤ 1 := invariant.deque
  rw [List.length_dropLast]
  omega

section Holder

variable {cl res exc head frame child : ℕ} {fresh : Bool}

/-- Incrementing and decrementing `exc`, given where it ends up. -/
private theorem Invariant.storeExc {stored : ℕ}
    (invariant : Invariant root ⟨s, thieves⟩)
    (holds : (thieves worker).holds .deque)
    (locks : LocksHeld
      ⟨{ s with exc := stored }, Function.update thieves worker pc⟩)
    (exc : ¬ pc.InWindow → stored = s.head)
    (fits : pc.Fits { s with exc := stored })
    (peeked : ∀ cl, pc.peeked = some cl → s.Peekable cl root) :
    Invariant root
      ⟨{ s with exc := stored }, Function.update thieves worker pc⟩ := by
  apply invariant.of_holder holds locks invariant.bottom exc
  case victim =>
    exact invariant.victim.of_free (invariant.victim_free holds) rfl rfl rfl
      rfl rfl (.inl rfl)
  case deque => exact invariant.deque
  case fits => exact fits
  case peeked => exact peeked
  case entries => exact invariant.entries

private theorem Invariant.promoteFresh
    {status : ℕ → ClosureStatus} (invariant : Invariant root ⟨s, thieves⟩)
    (here : thieves worker = .promote cl)
    (locks : LocksHeld ⟨{ s with status, deque := s.deque.dropLast },
      Function.update thieves worker
        (.unlockSuspended cl res s.head (s.stack s.head))⟩) :
    Invariant root ⟨{ s with status, deque := s.deque.dropLast },
      Function.update thieves worker
        (.unlockSuspended cl res s.head (s.stack s.head))⟩ := by
  have holds : (thieves worker).holds .deque := by
    rw [here]
    trivial
  have fits : (ThiefPc.promote cl).Fits s := here ▸ invariant.fits worker
  obtain ⟨exc, committed⟩ := fits
  have free := invariant.victim_free holds
  have empty := invariant.dropLast_deque
  apply invariant.of_holder holds locks invariant.bottom (absurd trivial)
  case victim =>
    exact invariant.victim.of_free free rfl rfl rfl rfl rfl
      (.inr (committed.inUserCode invariant.victim free))
  case deque => simp [empty]
  case fits => exact ⟨exc, committed, rfl, rfl, empty⟩
  case peeked => exact fun _ absent => nomatch absent
  case entries => exact invariant.entries

/-- The entry at `head` goes to the thief. -/
private theorem Invariant.storeHead
    (invariant : Invariant root ⟨s, thieves⟩)
    (here : thieves worker = .storeHead res head frame fresh)
    (locks : LocksHeld ⟨{ s with
        head := head + 1
        taken := (frame, worker) :: s.taken },
      Function.update thieves worker (.addBottom res fresh)⟩) :
    Invariant root ⟨{ s with
        head := head + 1
        taken := (frame, worker) :: s.taken },
      Function.update thieves worker (.addBottom res fresh)⟩ := by
  have holds : (thieves worker).holds .deque := by
    rw [here]
    trivial
  have fits : (ThiefPc.storeHead res head frame fresh).Fits s := here ▸ invariant.fits worker
  obtain ⟨exc, committed, rfl, rfl, empty⟩ := fits
  have free := invariant.victim_free holds
  have bottom := invariant.bottom
  have inUserCode := committed.inUserCode invariant.victim free
  apply invariant.of_holder holds locks (Nat.le_succ_of_le bottom)
  case exc => exact fun _ => exc
  case victim =>
    have fits := invariant.victim
    unfold Shared.VictimFits at fits ⊢
    rcases committed with below | ⟨same, popping | popping⟩
    · cases pc : s.victim <;> simp only [pc] at fits inUserCode ⊢ <;>
        first
        | omega
        | exact ⟨below, fits.2⟩
        | exact inUserCode.elim
    · simp only [popping]
      omega
    · simp only [popping]
      omega
  case deque => exact invariant.deque
  case fits => exact ⟨Nat.lt_succ_of_le bottom, inUserCode, empty⟩
  case peeked => exact fun _ absent => nomatch absent
  case entries =>
    have oldest := @pending_eq_cons s { s with
      head := s.head + 1
      taken := (s.stack s.head, worker) :: s.taken } rfl rfl rfl committed.limit
    have entries : s.Accounted := invariant.entries
    rw [Shared.Accounted, oldest] at entries
    apply List.Perm.trans _ entries
    simp only [List.map_cons, List.append_assoc, List.cons_append]
    exact (List.perm_middle.symm).append_left _

private theorem Invariant.addBottom {status : ℕ → ClosureStatus}
    (invariant : Invariant root ⟨s, thieves⟩)
    (here : thieves worker = .addBottom res fresh)
    (locks : LocksHeld ⟨{ s with
        status
        deque := if fresh then s.deque ++ [child]
          else (s.deque ++ [child]).tail },
      Function.update thieves worker (.unlockDeque res)⟩) :
    Invariant root ⟨{ s with
        status
        deque := if fresh then s.deque ++ [child]
          else (s.deque ++ [child]).tail },
      Function.update thieves worker (.unlockDeque res)⟩ := by
  have holds : (thieves worker).holds .deque := by
    rw [here]
    trivial
  have fits : (ThiefPc.addBottom res fresh).Fits s := here ▸ invariant.fits worker
  obtain ⟨-, inUserCode, empty⟩ := fits
  apply invariant.of_holder holds locks invariant.bottom
  case exc =>
    intro _
    exact invariant.exc_of_holder holds (by rw [here]; exact id)
  case victim =>
    exact invariant.victim.of_free (invariant.victim_free holds) rfl rfl rfl
      rfl rfl (.inr inUserCode)
  case deque =>
    have short := invariant.deque
    cases fresh with
    | true => simp [empty rfl]
    | false => simpa using short
  case fits => trivial
  case peeked => exact fun _ absent => nomatch absent
  case entries => exact invariant.entries

end Holder

theorem Shared.VictimFits.peekable {cl : ℕ} (fits : s.VictimFits)
    (top : s.deque.head? = some cl) : s.Peekable cl root := by
  have member : cl ∈ s.deque := List.mem_of_head? top
  unfold Shared.VictimFits at fits
  unfold Shared.Peekable
  cases here : s.victim <;> simp only [here] at fits ⊢ <;>
    first
    | trivial
    | exact member
    | simp [fits.2] at member

theorem Invariant.thiefStep {action : ThiefAction}
    (invariant : Invariant root ⟨s, thieves⟩)
    (taken : ThiefStep root worker s (thieves worker) action next pc) :
    Invariant root ⟨next, Function.update thieves worker pc⟩ := by
  have locks := invariant.locks.step (.thief taken)
  have fits := invariant.fits worker
  have peeked := invariant.peeked worker
  have excExact := @Invariant.exc_of_holder root worker s thieves invariant
  generalize here : thieves worker = before at taken
  simp only [here] at fits peeked excExact
  cases taken
  case incStore cl exc =>
    apply invariant.storeExc (by rw [here]; trivial) locks (absurd trivial)
    · exact congrArg (· + 1) fits
    · exact peeked
  case decStore cl exc =>
    apply invariant.storeExc (by rw [here]; trivial) locks _ trivial
    · exact fun _ absent => nomatch absent
    · intro _
      obtain ⟨increased, loaded⟩ := fits
      omega
  case promoteFresh cl res _ _ _ _ => exact invariant.promoteFresh here locks
  case storeHead res head frame fresh => exact invariant.storeHead here locks
  case addBottom res child fresh _ _ _ _ => exact invariant.addBottom here locks
  all_goals apply invariant.of_quiet _ _ _ locks
  case peekTop.peeked cl top =>
    intro cl peeked
    cases peeked
    exact invariant.victim.peekable top
  case testTail.fits cl head =>
    split
    · exact fits.1
    · exact ⟨fits.1, .inl (by have := fits.2; omega)⟩
  case testTail.window cl head =>
    rw [here]
    split <;> exact Iff.rfl
  case testTail.peeked cl head =>
    split <;> exact peeked
  case testFastTail.fits head =>
    split <;> trivial
  case testFastTail.window head =>
    rw [here]
    split <;> exact Iff.rfl
  case testFastTail.peeked head =>
    split <;> exact fun _ absent => nomatch absent
  case promoteTop.fits cl =>
    exact ⟨fits.1, fits.2, rfl, rfl, fun absent => nomatch absent⟩
  case incLoad.fits cl => exact excExact trivial id
  case loadHead.fits cl => exact ⟨fits, rfl⟩
  case decLoad.fits cl => exact ⟨fits, rfl⟩
  case lockFresh.fits res head frame _ =>
    obtain ⟨exc, committed, sameHead, sameFrame, empty⟩ := fits
    exact ⟨exc, committed, sameHead, sameFrame, fun _ => empty⟩
  all_goals
    first
    | trivial
    | exact fits
    | exact peeked
    | exact fun _ absent => nomatch absent
    | (rw [here]; exact Iff.rfl)

section Victim

variable {t callParent : ℕ}

theorem Invariant.fits_at {victim : VictimPc}
    (invariant : Invariant root ⟨s, thieves⟩) (here : s.victim = victim) :
    Shared.VictimFits { s with victim } := by
  have same : { s with victim } = s := by rw [← here]
  rw [same]
  exact invariant.victim

/-- `setup_for_execution` runs while nobody is stealing from the victim. -/
private theorem Invariant.setup (invariant : Invariant root ⟨s, thieves⟩)
    (empty : s.deque = []) (below : s.tail ≤ s.head)
    (outside : ¬ s.victim.InUserCode) (idle : ¬ s.victim.IsPopping)
    (quiet : ∀ worker cl, (thieves worker).peeked = some cl →
      thieves worker = .trylockClosure cl)
    (locks : LocksHeld ⟨s.setupForExecution t, thieves⟩) :
    Invariant root ⟨s.setupForExecution t, thieves⟩ := by
  have notCommitted : ¬ s.Committed := by
    rintro (above | ⟨-, here | here⟩)
    · omega
    · simp [here, VictimPc.InUserCode] at outside
    · simp [here, VictimPc.InUserCode] at outside
  constructor
  case locks => exact locks
  case bottom => exact Nat.le_refl _
  case exc => exact fun _ => rfl
  case victim => exact ⟨rfl, rfl, empty⟩
  case deque => exact invariant.deque
  case fits =>
    intro worker
    have fits := invariant.fits worker
    have quiet := quiet worker
    cases pc : thieves worker <;>
      simp_all [ThiefPc.Fits, ThiefPc.peeked]
  case peeked => exact fun _ _ _ => trivial
  case entries =>
    have before : s.pending = [] := pending_of_le (by
      rw [limit_of_not_popping idle]
      exact below)
    have after : (s.setupForExecution t).pending = [] := pending_of_le (by
      rw [limit_of_not_popping (by exact id)]
      exact Nat.le_refl _)
    have entries : s.Accounted := invariant.entries
    rw [Shared.Accounted, before] at entries
    rw [Shared.Accounted, after]
    exact entries

private theorem Invariant.storeParent
    (invariant : Invariant root ⟨s, thieves⟩) (here : s.victim = .user)
    (locks : LocksHeld ⟨{ s with
        stack := Function.update s.stack s.tail s.pushed
        victim := .detach }, thieves⟩) :
    Invariant root ⟨{ s with
        stack := Function.update s.stack s.tail s.pushed
        victim := .detach }, thieves⟩ := by
  have fits : s.head ≤ s.tail := invariant.fits_at here
  have oldLimit : s.limit = s.tail :=
    limit_of_not_popping (by rw [here]; exact id)
  apply invariant.of_fast locks rfl rfl
  case victim => exact ⟨fits, Function.update_self ..⟩
  case committed =>
    intro _ committed
    have below := committed.below (by simp [here]) (by simp [here])
    exact ⟨.inl below, Function.update_of_ne (Nat.ne_of_lt below) ..⟩
  case inUserCode => exact fun _ _ => trivial
  case deque => exact .inl rfl
  case peeked =>
    intro cl peekable
    simpa only [Shared.Peekable, here] using peekable
  case entries =>
    refine Shared.Accounted.congr invariant.entries rfl rfl rfl rfl ?_ ?_
    · rw [limit_of_not_popping (by exact id)]
      exact oldLimit.symm
    · intro position _ below
      rw [oldLimit] at below
      exact Function.update_of_ne (Nat.ne_of_lt below) ..

private theorem Invariant.storeTail
    (invariant : Invariant root ⟨s, thieves⟩) (here : s.victim = .detach)
    (locks : LocksHeld ⟨{ s with
        tail := s.tail + 1
        pushed := s.pushed + 1
        victim := .user }, thieves⟩) :
    Invariant root ⟨{ s with
        tail := s.tail + 1
        pushed := s.pushed + 1
        victim := .user }, thieves⟩ := by
  have fits : s.head ≤ s.tail ∧ s.stack s.tail = s.pushed :=
    invariant.fits_at here
  have oldLimit : s.limit = s.tail :=
    limit_of_not_popping (by rw [here]; exact id)
  apply invariant.of_fast locks rfl rfl
  case victim => exact Nat.le_succ_of_le fits.1
  case committed =>
    intro _ committed
    have below := committed.below (by simp [here]) (by simp [here])
    exact ⟨.inl (Nat.lt_succ_of_lt below), rfl⟩
  case inUserCode => exact fun _ _ => trivial
  case deque => exact .inl rfl
  case peeked =>
    intro cl peekable
    simpa only [Shared.Peekable, here] using peekable
  case entries =>
    have newLimit : Shared.limit { s with
        tail := s.tail + 1
        pushed := s.pushed + 1
        victim := .user } = s.tail + 1 :=
      limit_of_not_popping (by exact id)
    have youngest := @pending_eq_concat { s with
        tail := s.tail + 1
        pushed := s.pushed + 1
        victim := .user } s rfl rfl (by rw [newLimit, oldLimit])
        (by rw [oldLimit]; exact fits.1)
    simp only [oldLimit, fits.2] at youngest
    have entries : s.Accounted := invariant.entries
    simp only [Shared.Accounted, youngest, List.range_succ,
      ← List.append_assoc]
    exact entries.append_right _

private theorem Invariant.decrementTail
    (invariant : Invariant root ⟨s, thieves⟩) (here : s.victim = .user)
    (locks : LocksHeld ⟨{ s with
        tail := s.tail - 1
        victim := .leaveFrame }, thieves⟩) :
    Invariant root ⟨{ s with
        tail := s.tail - 1
        victim := .leaveFrame }, thieves⟩ := by
  have fits : s.head ≤ s.tail := invariant.fits_at here
  have bottom : 1 ≤ s.head := invariant.bottom
  apply invariant.of_fast locks rfl rfl
  case victim =>
    show s.head ≤ s.tail - 1 + 1
    omega
  case committed =>
    intro _ committed
    have below := committed.below (by simp [here]) (by simp [here])
    refine ⟨?_, rfl⟩
    rcases Nat.lt_or_ge s.head (s.tail - 1) with lower | reached
    · exact .inl lower
    · exact .inr ⟨by show s.head = s.tail - 1; omega, .inl rfl⟩
  case inUserCode => exact fun _ _ => trivial
  case deque => exact .inl rfl
  case peeked =>
    intro cl peekable
    simpa only [Shared.Peekable, here] using peekable
  case entries =>
    refine Shared.Accounted.congr invariant.entries rfl rfl rfl rfl ?_ ?_
    · rw [limit_of_popping (by exact trivial),
        limit_of_not_popping (by rw [here]; exact id)]
      show s.tail - 1 + 1 = s.tail
      omega
    · exact fun _ _ _ => rfl

private theorem Invariant.loadExc
    (invariant : Invariant root ⟨s, thieves⟩) (here : s.victim = .leaveFrame)
    (locks : LocksHeld ⟨if s.exc > s.tail then { s with victim := .handlerEntry }
      else s.continueInParent, thieves⟩) :
    Invariant root ⟨if s.exc > s.tail then { s with victim := .handlerEntry }
      else s.continueInParent, thieves⟩ := by
  have fits : s.head ≤ s.tail + 1 := invariant.fits_at here
  have atMostExc : s.head ≤ s.exc := invariant.head_le_exc
  split at locks
  next above =>
    rw [if_pos above]
    apply invariant.of_fast locks rfl rfl
    case victim => exact fits
    case committed =>
      intro _ committed
      refine ⟨?_, rfl⟩
      rcases committed with below | ⟨same, -⟩
      · exact .inl below
      · exact .inr ⟨same, .inr rfl⟩
    case inUserCode => exact fun _ _ => trivial
    case deque => exact .inl rfl
    case peeked =>
      intro cl peekable
      simpa only [Shared.Peekable, here] using peekable
    case entries =>
      refine Shared.Accounted.congr invariant.entries rfl rfl rfl rfl ?_ ?_
      · exact limit_congr_of_popping rfl (by rw [here]; trivial) trivial
      · exact fun _ _ _ => rfl
  next within =>
    rw [if_neg within]
    have reaches : s.head ≤ s.tail := by omega
    apply invariant.of_fast locks rfl rfl
    case victim => exact reaches
    case committed =>
      intro increased _
      exact ⟨.inl (by show s.head < s.tail; omega), rfl⟩
    case inUserCode => exact fun _ _ => trivial
    case deque => exact .inl rfl
    case peeked =>
      intro cl peekable
      simp only [Shared.Peekable, here] at peekable
      exact peekable
    case entries =>
      apply Shared.Accounted.continueInParent invariant.entries _ reaches
      rw [here]
      trivial

/-- A thief may still have peeked at the root closure, and then fails the test
of its status. -/
private theorem Invariant.exitRegion
    (invariant : Invariant root ⟨s, thieves⟩) (here : s.victim = .user)
    (atBottom : s.tail = shadowStack) (alone : s.deque = [root])
    (locks : LocksHeld ⟨{ s with
        deque := []
        regionOver := true
        victim := .outside }, thieves⟩) :
    Invariant root ⟨{ s with
        deque := []
        regionOver := true
        victim := .outside }, thieves⟩ := by
  have fits : s.head ≤ s.tail := invariant.fits_at here
  have bottom : shadowStack ≤ s.head := invariant.bottom
  apply invariant.of_fast locks rfl rfl
  case victim => exact ⟨by show s.tail ≤ s.head; omega, rfl⟩
  case committed =>
    intro _ committed
    have below := committed.below (by simp [here]) (by simp [here])
    omega
  case inUserCode =>
    intro above
    omega
  case deque => exact .inr rfl
  case peeked =>
    intro cl peekable
    simpa only [Shared.Peekable, here, alone, List.mem_singleton] using peekable
  case entries =>
    refine Shared.Accounted.congr invariant.entries rfl rfl rfl rfl ?_ ?_
    · exact limit_congr_of_not_popping rfl (by rw [here]; exact id) id
    · exact fun _ _ _ => rfl

/-- Going back to `worker_scheduler` does not disturb a thief. -/
private theorem Invariant.reenterScheduler
    (invariant : Invariant root ⟨s, thieves⟩)
    (here : s.victim = .outside ∨ s.victim = .stealing)
    (locks : LocksHeld ⟨{ s with victim := .scheduler }, thieves⟩) :
    Invariant root ⟨{ s with victim := .scheduler }, thieves⟩ := by
  have below : s.tail ≤ s.head := by
    rcases here with here | here
    · have fits : s.tail ≤ s.head ∧ s.deque = [] := invariant.fits_at here
      exact fits.1
    · have fits : s.tail ≤ s.head ∧ s.deque = [] := invariant.fits_at here
      exact fits.1
  have idle : ¬ s.victim.IsPopping := by
    rcases here with here | here <;> rw [here] <;> exact id
  apply invariant.of_fast locks rfl rfl
  case victim => exact below
  case committed =>
    intro _ committed
    have above := committed.below (by rcases here with here | here <;> simp [here])
      (by rcases here with here | here <;> simp [here])
    omega
  case inUserCode =>
    intro _ inUserCode
    rcases here with here | here <;> exact absurd inUserCode (by rw [here]; exact id)
  case deque => exact .inl rfl
  case peeked => exact fun _ _ => trivial
  case entries =>
    refine Shared.Accounted.congr invariant.entries rfl rfl rfl rfl ?_ ?_
    · exact limit_congr_of_not_popping rfl idle id
    · exact fun _ _ _ => rfl

/-- A step that the victim takes with the lock of the deque, or finding it
free. -/
private theorem Invariant.of_locked (invariant : Invariant root ⟨s, thieves⟩)
    (apart : ∀ worker, ¬ (thieves worker).holds .deque)
    (locks : LocksHeld ⟨next, thieves⟩) (sameHead : next.head = s.head)
    (sameStack : next.stack = s.stack) (samePopped : next.popped = s.popped)
    (sameTaken : next.taken = s.taken) (samePushed : next.pushed = s.pushed)
    (exc : s.exc = s.head → next.exc = s.head) (victim : next.VictimFits)
    (deque : next.deque.length ≤ 1) (sameLimit : next.limit = s.limit) :
    Invariant root ⟨next, thieves⟩ := by
  apply invariant.of_apart apart locks
  case bottom =>
    rw [sameHead]
    exact invariant.bottom
  case exc =>
    rw [sameHead]
    exact exc
  case victim => exact victim
  case deque => exact deque
  case entries =>
    refine Shared.Accounted.congr invariant.entries samePopped sameTaken
      samePushed sameHead sameLimit ?_
    exact fun position _ _ => congrFun sameStack position

/-- A thief that has not locked the closure it peeked at is about to try. -/
theorem Invariant.not_locked {cl : ℕ} (invariant : Invariant root ⟨s, thieves⟩)
    (peeked : (thieves worker).peeked = some cl)
    (free : s.locks (.closure cl) = none) :
    thieves worker = .trylockClosure cl := by
  have owns := invariant.locks.thief worker (.closure cl)
  simp only [free, ThiefPc.holds] at owns
  cases here : thieves worker <;>
    simp_all [ThiefPc.peeked, ThiefPc.lockedClosure]

theorem Invariant.victimStep {action : VictimAction}
    (invariant : Invariant root ⟨s, thieves⟩)
    (taken : VictimStep root s action next) :
    Invariant root ⟨next, thieves⟩ := by
  have locks := invariant.locks.step (.victim taken)
  have apartOfFree : s.locks .deque = none →
      ∀ worker, ¬ (thieves worker).holds .deque :=
    fun free => invariant.apart (by simp [free])
  have apartOfHeld : s.victim.holds .deque →
      ∀ worker, ¬ (thieves worker).holds .deque := by
    intro holds
    have owns : s.locks .deque = some .victim := invariant.locks.victim .deque holds
    exact invariant.apart (by simp [owns])
  have bottom : shadowStack ≤ s.head := invariant.bottom
  have short : s.deque.length ≤ 1 := invariant.deque
  have entries : s.Accounted := invariant.entries
  cases taken
  case storeParent here => exact invariant.storeParent here locks
  case storeTail here => exact invariant.storeTail here locks
  case decrementTail here => exact invariant.decrementTail here locks
  case loadExc here => exact invariant.loadExc here locks
  case exitRegion here atBottom alone =>
    exact invariant.exitRegion here atBottom alone locks
  case enterScheduler here => exact invariant.reenterScheduler (.inl here) locks
  case nextIteration here => exact invariant.reenterScheduler (.inr here) locks
  case execute t here free ready =>
    have fits : s.tail ≤ s.head ∧ s.deque = [] := invariant.fits_at here
    apply invariant.setup fits.2 fits.1 (by rw [here]; exact id)
      (by rw [here]; exact id)
    · intro worker cl peeked
      have peekable : s.Peekable cl root := invariant.peeked worker cl peeked
      simp only [Shared.Peekable, here] at peekable
    · exact locks
  case executeRoot here free ready =>
    have fits : s.tail ≤ s.head ∧ s.deque = [] := invariant.fits_at here
    apply invariant.setup fits.2 fits.1 (by rw [here]; exact id)
      (by rw [here]; exact id)
    · intro worker cl peeked
      have peekable : s.Peekable cl root := invariant.peeked worker cl peeked
      simp only [Shared.Peekable, here] at peekable
      subst peekable
      exact invariant.not_locked peeked free
    · exact locks
  case lockDeque here free =>
    have fits : s.head ≤ s.tail + 1 := invariant.fits_at here
    exact invariant.of_locked (apartOfFree free) locks rfl rfl rfl rfl rfl id
      fits short
      (limit_congr_of_popping rfl (by rw [here]; trivial) trivial)
  case lockBottom t here bottomOf free =>
    have fits : s.head ≤ s.tail + 1 := invariant.fits_at here
    exact invariant.of_locked (apartOfHeld (by rw [here]; trivial)) locks
      rfl rfl rfl rfl rfl id fits short
      (limit_congr_of_popping rfl (by rw [here]; trivial) trivial)
  case resetExc t here =>
    have fits : s.head ≤ s.tail + 1 := invariant.fits_at here
    exact invariant.of_locked (apartOfHeld (by rw [here]; trivial)) locks
      rfl rfl rfl rfl rfl (fun _ => rfl) ⟨fits, rfl⟩ short
      (limit_congr_of_popping rfl (by rw [here]; trivial) trivial)
  case testHeadSteal t here stolen =>
    have fits : s.head ≤ s.tail + 1 ∧ s.exc = s.head := invariant.fits_at here
    have onePast : s.head = s.tail + 1 := by omega
    apply invariant.of_apart (apartOfHeld (by rw [here]; trivial)) locks
    case bottom => split <;> exact bottom
    case exc => split <;> exact id
    case victim => split <;> exact onePast
    case deque => split <;> exact short
    case entries =>
      have before : s.pending = [] := pending_of_le (by
        rw [limit_of_popping (by rw [here]; trivial)]
        exact Nat.le_of_eq onePast.symm)
      rw [Shared.Accounted, before] at entries
      rw [Shared.Accounted, pending_of_le]
      · split <;> exact entries
      · rw [limit_of_not_popping (by exact id)]
        split <;> exact Nat.le_of_lt stolen
  case testHeadFalseAlarm t here within =>
    have reaches : s.head ≤ s.tail := by omega
    exact invariant.of_locked (apartOfHeld (by rw [here]; trivial)) locks
      rfl rfl rfl rfl rfl id reaches short
      (limit_congr_of_popping rfl (by rw [here]; trivial) trivial)
  case unlockClosure t stolen here =>
    have fits : if stolen then s.head = s.tail + 1 else s.head ≤ s.tail :=
      invariant.fits_at here
    apply invariant.of_locked (apartOfHeld (by rw [here]; trivial)) locks
      rfl rfl rfl rfl rfl id fits short
    cases stolen with
    | true => exact limit_congr_of_not_popping rfl (by rw [here]; exact id) id
    | false => exact limit_congr_of_popping rfl (by rw [here]; trivial) trivial
  case longjmpToRuntime here =>
    have fits : s.head = s.tail + 1 := invariant.fits_at here
    have below : s.tail ≤ s.head := by omega
    exact invariant.of_locked (apartOfHeld (by rw [here]; trivial)) locks
      rfl rfl rfl rfl rfl id below short
      (limit_congr_of_not_popping rfl (by rw [here]; exact id) id)
  case returnToUser here =>
    have reaches : s.head ≤ s.tail := invariant.fits_at here
    apply invariant.of_apart (apartOfHeld (by rw [here]; trivial)) locks bottom
      id reaches short
    apply Shared.Accounted.continueInParent _ _ reaches
    · exact entries
    · show s.victim.IsPopping
      rw [here]
      trivial
  case syncSuspend t here atBottom free bottomOf freeClosure =>
    have below : s.tail ≤ s.head := by omega
    apply invariant.of_locked (apartOfFree free) locks rfl rfl rfl rfl rfl id
      below
    · simp [invariant.dropLast_deque]
    · exact limit_congr_of_not_popping rfl (by rw [here]; exact id) id
  case setReturn t callParent here atBottom free bottomOf _ _ _ _ =>
    have fits : s.head ≤ s.tail := invariant.fits_at here
    apply invariant.of_locked (apartOfFree free) locks rfl rfl rfl rfl rfl
      (fun _ => rfl)
    · exact Shared.VictimFits.of_user here fits
    · simp [invariant.dropLast_deque]
    · have idle : ¬ s.victim.IsPopping := by
        rw [here]
        exact id
      exact limit_congr_of_not_popping rfl idle idle
  case extractBottom here free =>
    have fits : s.tail ≤ s.head := invariant.fits_at here
    apply invariant.of_locked (apartOfFree free) locks rfl rfl rfl rfl rfl id
    · exact ⟨fits, invariant.dropLast_deque⟩
    · simp [invariant.dropLast_deque]
    · exact limit_congr_of_not_popping rfl (by rw [here]; exact id) id
  case addBottom t here free =>
    have fits : s.head = shadowStack ∧ s.tail = shadowStack ∧ s.deque = [] :=
      invariant.fits_at here
    apply invariant.of_locked (apartOfFree free) locks rfl rfl rfl rfl rfl id
    · show s.head ≤ s.tail
      omega
    · simp [fits.2.2]
    · exact limit_congr_of_not_popping rfl (by rw [here]; exact id) id

end Victim

theorem Invariant.otherStep {action : OtherAction}
    (invariant : Invariant root ⟨s, thieves⟩)
    (taken : OtherStep root s action next) :
    Invariant root ⟨next, thieves⟩ := by
  have locks := invariant.locks.step (.other taken)
  cases taken
  all_goals
    exact invariant.of_fast locks rfl rfl invariant.victim
      (fun _ committed => ⟨committed, rfl⟩) (fun _ inUserCode => inUserCode)
      (.inl rfl) (fun _ peekable => peekable) invariant.entries

theorem Invariant.step {before after : State} {action : Action}
    (invariant : Invariant root before) (taken : Step root before action after) :
    Invariant root after := by
  cases taken with
  | victim taken => exact invariant.victimStep taken
  | thief taken => exact invariant.thiefStep taken
  | other taken => exact invariant.otherStep taken

theorem invariant_of_run {state : State} {trace : List (State × Action)}
    (run : Run (Step root) initial trace state) : Invariant root state :=
  run.invariant (invariant_initial root)
    fun _ _ _ invariant taken => invariant.step taken

end Multicilk.Steal
