import Multicilk.Steal.Protocol
import Multicilk.Support.LockTable
import Multicilk.Support.Run

/-!
# Who holds the locks of a steal attempt

The program point of a thief says which locks it holds.  It holds these in
every run, and it holds no others as long as no attempt ends in the default
case of the status test.
-/

namespace Multicilk.Steal

open TransitionSystem

/-- Program points at which the deque of the victim is locked. -/
def ThiefPc.holdsDeque : ThiefPc → Prop
  | .idle | .fastTest _ | .trylockDeque | .finishPromote _ | .unlockRes _ =>
      False
  | _ => True

/-- The closure that is locked at a program point. -/
def ThiefPc.lockedClosure : ThiefPc → Option ℕ
  | .testStatus cl | .incLoad cl | .incStore cl _ | .loadHead cl
  | .loadTail cl _ | .decLoad cl | .decStore cl _ | .giveUp cl | .promote cl
  | .unlockSuspended cl _ _ _ => some cl
  | .storeHead res _ _ _ | .addBottom res _ | .unlockDeque res
  | .finishPromote res | .unlockRes res => some res
  | _ => none

/-- The locks that belong to a program point of a thief. -/
def ThiefPc.holds (pc : ThiefPc) : Lock → Prop
  | .deque => pc.holdsDeque
  | .closure cl => pc.lockedClosure = some cl

def VictimPc.holds (pc : VictimPc) : Lock → Prop
  | .deque =>
      match pc with
      | .handlerPeek | .handlerReset _ | .handlerTest _ | .handlerUnlock _ _
      | .handlerUnlockDeque _ => True
      | _ => False
  | .closure cl =>
      match pc with
      | .handlerReset t | .handlerTest t | .handlerUnlock t _ => cl = t
      | _ => False

/-- Every party holds the locks that belong to its program point. -/
structure LocksHeld (state : State) : Prop where
  victim : ∀ lock, state.shared.victim.holds lock →
    state.shared.locks lock = some .victim
  thief : ∀ worker lock, (state.thieves worker).holds lock →
    state.shared.locks lock = some (.thief worker)

/-- A thief holds no other locks than those of its program point. -/
def NoOtherLocks (state : State) : Prop :=
  ∀ worker lock, state.shared.locks lock = some (.thief worker) →
    (state.thieves worker).holds lock

theorem locksHeld_initial : LocksHeld initial := by
  constructor
  · intro lock holds
    cases lock <;> cases holds
  · intro worker lock holds
    cases lock <;> cases holds

theorem noOtherLocks_initial : NoOtherLocks initial := by
  intro worker lock owns
  cases owns

section Steps

variable {root worker : ℕ} {s next : Shared} {thieves : ℕ → ThiefPc}
  {pc : ThiefPc}

theorem VictimStep.lockMove {action : VictimAction}
    (taken : VictimStep root s action next) :
    LockTable.Move .victim s.locks next.locks s.victim.holds
      next.victim.holds := by
  cases taken
  case lockDeque here free =>
    apply LockTable.Move.acquire free
    intro lock
    cases lock <;> simp [VictimPc.holds, here]
  case lockBottom t here bottom free =>
    apply LockTable.Move.acquire free
    intro lock
    cases lock <;> simp [VictimPc.holds, here]
  case unlockClosure t stolen here =>
    apply LockTable.Move.release
    · simp [VictimPc.holds, here]
    · intro lock
      cases lock <;> simp [VictimPc.holds, here]
  case longjmpToRuntime here =>
    apply LockTable.Move.release
    · simp [VictimPc.holds, here]
    · intro lock
      cases lock <;> simp [VictimPc.holds, here]
  case returnToUser here =>
    apply LockTable.Move.release
    · simp [VictimPc.holds, here]
    · intro lock
      cases lock <;>
        simp [VictimPc.holds, here, Shared.release, Shared.continueInParent]
  case loadExc here =>
    split <;>
      apply LockTable.Move.stay <;>
      intro lock <;>
      cases lock <;>
      simp [VictimPc.holds, here, Shared.continueInParent]
  case testHeadSteal t here stolen =>
    split <;>
      apply LockTable.Move.stay <;>
      intro lock <;>
      cases lock <;>
      simp [VictimPc.holds, here]
  all_goals
    apply LockTable.Move.stay
    intro lock
    cases lock <;>
      simp_all [VictimPc.holds, Shared.setStatus, Shared.setupForExecution]

/-- The status test ends the attempt without giving any lock back. -/
def ThiefStep.Default (s : Shared) : ThiefPc → ThiefAction → Prop
  | .testStatus cl, .testStatus =>
      s.status cl ≠ .running ∧ s.status cl ≠ .returning
  | _, _ => False

theorem ThiefStep.lockMove {action : ThiefAction} {before : ThiefPc}
    (taken : ThiefStep root worker s before action next pc)
    (known : ¬ ThiefStep.Default s before action) :
    LockTable.Move (.thief worker) s.locks next.locks before.holds
      pc.holds := by
  cases taken
  case trylockDeque free =>
    apply LockTable.Move.acquire free
    intro lock
    cases lock <;>
      simp [ThiefPc.holds, ThiefPc.holdsDeque, ThiefPc.lockedClosure]
  case trylockClosure cl free =>
    apply LockTable.Move.acquire free
    intro lock
    cases lock <;>
      simp [ThiefPc.holds, ThiefPc.holdsDeque, ThiefPc.lockedClosure, eq_comm]
  case lockFresh res head frame free =>
    apply LockTable.Move.acquire free
    intro lock
    cases lock <;>
      simp [ThiefPc.holds, ThiefPc.holdsDeque, ThiefPc.lockedClosure, eq_comm]
  case peekEmpty _ | trylockClosureFailed _ | giveUp | giveUpDeque
      | unlockSuspended | unlockDeque | unlockRes =>
    all_goals
      apply LockTable.Move.release
      · simp [ThiefPc.holds, ThiefPc.holdsDeque, ThiefPc.lockedClosure]
      · intro lock
        cases lock <;>
          simp [ThiefPc.holds, ThiefPc.holdsDeque, ThiefPc.lockedClosure,
            eq_comm]
  case testDefault cl notRunning notReturning _ =>
    exact absurd ⟨notRunning, notReturning⟩ known
  case testFastTail head =>
    split <;>
      apply LockTable.Move.stay <;>
      intro lock <;>
      cases lock <;>
      simp [ThiefPc.holds, ThiefPc.holdsDeque, ThiefPc.lockedClosure]
  case testTail cl head =>
    split <;>
      apply LockTable.Move.stay <;>
      intro lock <;>
      cases lock <;>
      simp [ThiefPc.holds, ThiefPc.holdsDeque, ThiefPc.lockedClosure]
  all_goals
    apply LockTable.Move.stay
    intro lock
    cases lock <;>
      simp [ThiefPc.holds, ThiefPc.holdsDeque, ThiefPc.lockedClosure]

theorem OtherStep.lockMove {action : OtherAction}
    (taken : OtherStep root s action next) (lock : Lock) :
    next.locks lock = s.locks lock ∨
      (s.locks lock = none ∧ next.locks lock = some .elsewhere) ∨
      (s.locks lock = some .elsewhere ∧ next.locks lock = none) := by
  cases taken
  case lock cl free =>
    by_cases same : lock = .closure cl
    · subst lock
      exact .inr (.inl ⟨free, Function.update_self ..⟩)
    · exact .inl (Function.update_of_ne same ..)
  case unlock cl owns =>
    by_cases same : lock = .closure cl
    · subst lock
      exact .inr (.inr ⟨owns, Function.update_self ..⟩)
    · exact .inl (Function.update_of_ne same ..)
  all_goals exact .inl rfl

theorem OtherStep.victim_eq {action : OtherAction}
    (taken : OtherStep root s action next) : next.victim = s.victim := by
  cases taken <;> rfl

theorem ThiefStep.victim_eq {action : ThiefAction} {before : ThiefPc}
    (taken : ThiefStep root worker s before action next pc) :
    next.victim = s.victim := by
  cases taken <;> rfl

theorem ThiefStep.default_cases {action : ThiefAction} {before : ThiefPc}
    (taken : ThiefStep root worker s before action next pc)
    (default : ThiefStep.Default s before action) :
    next = s ∧ pc = .idle := by
  cases taken
  case testRunning cl running => exact absurd running default.1
  case testReturning cl returning => exact absurd returning default.2
  case testDefault => exact ⟨rfl, rfl⟩
  all_goals cases default

/-- A thief keeps at most the locks of its old program point. -/
theorem ThiefStep.held {action : ThiefAction} {before : ThiefPc}
    (taken : ThiefStep root worker s before action next pc)
    (held : ∀ lock, before.holds lock →
      s.locks lock = some (.thief worker)) :
    ∀ lock, pc.holds lock → next.locks lock = some (.thief worker) := by
  by_cases known : ThiefStep.Default s before action
  · obtain ⟨-, rfl⟩ := taken.default_cases known
    intro lock holds
    cases lock <;> cases holds
  · exact (taken.lockMove known).held held

theorem ThiefStep.held_by_other {action : ThiefAction} {before : ThiefPc}
    {other : Party} {lock : Lock}
    (taken : ThiefStep root worker s before action next pc)
    (held : ∀ lock, before.holds lock →
      s.locks lock = some (.thief worker))
    (different : other ≠ .thief worker) (owns : s.locks lock = some other) :
    next.locks lock = some other := by
  by_cases known : ThiefStep.Default s before action
  · obtain ⟨rfl, -⟩ := taken.default_cases known
    exact owns
  · exact (taken.lockMove known).held_by_other held different owns

theorem OtherStep.locks_iff {action : OtherAction} {party : Party}
    (taken : OtherStep root s action next) (different : party ≠ .elsewhere)
    (lock : Lock) :
    next.locks lock = some party ↔ s.locks lock = some party := by
  rcases taken.lockMove lock with same | ⟨free, locked⟩ | ⟨locked, free⟩
  · rw [same]
  · simp [free, locked, different.symm]
  · simp [free, locked, different.symm]

end Steps

theorem LocksHeld.step {root : ℕ} {state next : State} {action : Action}
    (locks : LocksHeld state) (taken : Step root state action next) :
    LocksHeld next := by
  cases taken with
  | victim taken =>
      constructor
      · exact taken.lockMove.held locks.victim
      · intro worker lock holds
        exact taken.lockMove.held_by_other locks.victim (by simp)
          (locks.thief worker lock holds)
  | @thief s next thieves worker pc action taken =>
      constructor
      · intro lock holds
        apply taken.held_by_other (locks.thief worker) (by simp)
        apply locks.victim
        exact taken.victim_eq ▸ holds
      · intro other lock holds
        by_cases same : other = worker
        · subst other
          simp only [Function.update_self] at holds
          exact taken.held (locks.thief worker) lock holds
        · simp only [Function.update_of_ne same] at holds
          apply taken.held_by_other (locks.thief worker) (by simpa using same)
          exact locks.thief other lock holds
  | other taken =>
      constructor
      · intro lock holds
        rw [taken.locks_iff (by simp)]
        exact locks.victim lock (taken.victim_eq ▸ holds)
      · intro worker lock holds
        rw [taken.locks_iff (by simp)]
        exact locks.thief worker lock holds

/-- The closure whose status is tested is running or returning. -/
def KnownStatus (state : State) : Action → Prop
  | .thief worker action =>
      ¬ ThiefStep.Default state.shared (state.thieves worker) action
  | _ => True

theorem NoOtherLocks.step {root : ℕ} {state next : State} {action : Action}
    (locks : LocksHeld state) (noOther : NoOtherLocks state)
    (known : KnownStatus state action) (taken : Step root state action next) :
    NoOtherLocks next := by
  intro other lock owns
  cases taken with
  | victim taken =>
      exact noOther other lock (taken.lockMove.owned_by_other (by simp) owns)
  | @thief s next thieves worker pc action taken =>
      have move := taken.lockMove known
      by_cases same : other = worker
      · subst other
        simp only [Function.update_self]
        exact move.owned (noOther worker) lock owns
      · simp only [Function.update_of_ne same]
        exact noOther other lock
          (move.owned_by_other (by simpa using same) owns)
  | other taken =>
      exact noOther other lock ((taken.locks_iff (by simp) lock).mp owns)

/-- A worker that is not in the middle of a steal attempt holds neither the
lock of the deque nor that of any closure. -/
def NoLeak (state : State) : Prop :=
  ∀ worker, state.thieves worker = .idle → ∀ lock,
    state.shared.locks lock ≠ some (.thief worker)

theorem NoOtherLocks.noLeak {state : State} (noOther : NoOtherLocks state) :
    NoLeak state := by
  intro worker idle lock owns
  have holds := noOther worker lock owns
  rw [idle] at holds
  cases lock <;> cases holds

theorem LocksHeld.leak {root : ℕ} {state next : State} {action : Action}
    (locks : LocksHeld state) (unknown : ¬ KnownStatus state action)
    (taken : Step root state action next) : ¬ NoLeak next := by
  cases taken with
  | victim taken => exact absurd trivial unknown
  | other taken => exact absurd trivial unknown
  | @thief s next thieves worker pc action taken =>
      have default := not_not.mp unknown
      obtain ⟨rfl, rfl⟩ := taken.default_cases default
      intro noLeak
      apply noLeak worker (by simp) .deque
      apply locks.thief worker
      simp only at default ⊢
      cases here : thieves worker <;>
        simp_all [ThiefStep.Default, ThiefPc.holds, ThiefPc.holdsDeque]

/-- A steal attempt that succeeds while the victim is in user code. -/
theorem steal_succeeds : ∃ final,
    ReachableBy KnownStatus (Step 0) initial final ∧
      final.thieves 0 = .idle ∧ final.shared.taken = [(0, 0)] ∧
      final.shared.victim = .user ∧
      final.shared.head = final.shared.tail := by
  refine ⟨_, ReachableBy.refl
    |>.snoc (.other (.makeRootReady rfl)) trivial
    |>.snoc (.victim (.executeRoot rfl rfl rfl)) trivial
    |>.snoc (.victim (.addBottom rfl rfl)) trivial
    |>.snoc (.victim (.storeParent rfl)) trivial
    |>.snoc (.victim (.storeTail rfl)) trivial
    |>.snoc (@Step.thief _ _ _ _ 0 _ _ .loadFastHead) id
    |>.snoc (@Step.thief _ _ _ _ 0 _ _ .testFastTail) id
    |>.snoc (@Step.thief _ _ _ _ 0 _ _ (.trylockDeque rfl)) id
    |>.snoc (@Step.thief _ _ _ _ 0 _ _ (.peekTop rfl)) id
    |>.snoc (@Step.thief _ _ _ _ 0 _ _ (.trylockClosure rfl)) id
    |>.snoc (@Step.thief _ _ _ _ 0 _ _ (.testRunning rfl)) (·.1 rfl)
    |>.snoc (@Step.thief _ _ _ _ 0 _ _ .incLoad) id
    |>.snoc (@Step.thief _ _ _ _ 0 _ _ .incStore) id
    |>.snoc (@Step.thief _ _ _ _ 0 _ _ .loadHead) id
    |>.snoc (@Step.thief _ _ _ _ 0 _ _ .testTail) id
    |>.snoc (@Step.thief _ _ _ _ 0 _ _ .promoteTop) id
    |>.snoc (@Step.thief _ _ _ _ 0 _ _ .storeHead) id
    |>.snoc (@Step.thief _ _ _ _ 0 _ _ (@ThiefStep.addBottom _ _ _ _ 1 _
      (by decide) (by decide) (by decide) rfl)) id
    |>.snoc (@Step.thief _ _ _ _ 0 _ _ .unlockDeque) id
    |>.snoc (@Step.thief _ _ _ _ 0 _ _ .finishPromote) id
    |>.snoc (@Step.thief _ _ _ _ 0 _ _ .unlockRes) id, rfl, rfl, rfl, rfl⟩

/-- In every run, all steal attempts that have returned have given back their
locks, if and only if every closure that was peeked and locked was running or
returning at the status test. -/
theorem noLeak_iff_knownStatus {root : ℕ} {trace : List (State × Action)}
    {final : State} (run : Run (Step root) initial trace final) :
    ((∀ entry ∈ trace, NoLeak entry.1) ∧ NoLeak final) ↔
      Meets KnownStatus trace := by
  apply @Run.property_iff _ _ _ _ _ _ KnownStatus
    (fun state => LocksHeld state ∧ NoOtherLocks state) _ run
  · exact ⟨locksHeld_initial, noOtherLocks_initial⟩
  · rintro state ⟨-, noOther⟩
    exact noOther.noLeak
  · rintro source action target ⟨locks, noOther⟩ known taken
    exact ⟨locks.step taken, noOther.step locks known taken⟩
  · rintro source action target ⟨locks, -⟩ unknown taken
    exact locks.leak unknown taken

theorem noLeak_after_steal :
    ∃ trace final, Run (Step 0) initial trace final ∧
      final.thieves 0 = .idle ∧ final.shared.taken = [(0, 0)] ∧
      NoLeak final := by
  obtain ⟨final, ⟨trace, run, known⟩, idle, taken, -⟩ := steal_succeeds
  exact ⟨trace, final, run, idle, taken,
    ((noLeak_iff_knownStatus run).mpr known).2⟩

/-- The victim leaves the region, and the next one begins, between the peek and
the status test of a thief. -/
theorem locks_leaked :
    ∃ trace final, Run (Step 0) initial trace final ∧
      trace.map Prod.snd = [.other .makeRootReady, .victim .executeRoot,
        .victim .addBottom, .victim .storeParent, .victim .storeTail,
        .thief 0 .loadFastHead, .thief 0 .testFastTail,
        .thief 0 .trylockDeque, .thief 0 .peekTop,
        .victim .decrementTail, .victim .loadExc, .victim .exitRegion,
        .other .makeRootReady, .thief 0 .trylockClosure,
        .thief 0 .testStatus] ∧
      final.thieves 0 = .idle ∧
      final.shared.locks .deque = some (.thief 0) ∧
      final.shared.locks (.closure 0) = some (.thief 0) := by
  refine ⟨_, _, ((((((((((((((Run.refl.snoc
    (.other (.makeRootReady rfl))).snoc
    (.victim (.executeRoot rfl rfl rfl))).snoc
    (.victim (.addBottom rfl rfl))).snoc
    (.victim (.storeParent rfl))).snoc
    (.victim (.storeTail rfl))).snoc
    (@Step.thief _ _ _ _ 0 _ _ .loadFastHead)).snoc
    (@Step.thief _ _ _ _ 0 _ _ .testFastTail)).snoc
    (@Step.thief _ _ _ _ 0 _ _ (.trylockDeque rfl))).snoc
    (@Step.thief _ _ _ _ 0 _ _ (.peekTop rfl))).snoc
    (.victim (.decrementTail rfl))).snoc
    (.victim (.loadExc rfl))).snoc
    (.victim (.exitRegion rfl rfl rfl))).snoc
    (.other (.makeRootReady rfl))).snoc
    (@Step.thief _ _ _ _ 0 _ _ (.trylockClosure rfl))).snoc
    (@Step.thief _ _ _ _ 0 _ _ (.testDefault nofun nofun rfl)),
    rfl, rfl, rfl, rfl⟩

end Multicilk.Steal
