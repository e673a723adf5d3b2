import Mathlib.Data.Nat.Notation
import Mathlib.Logic.Function.Basic
import Multicilk.Scheduler.Status

/-!
# Stealing from one worker

One worker, the victim, runs user code that detaches and leaves frames, and
any number of thieves try to steal from it.  Reads and writes of `head`, `tail`
and `exc` are single steps, as are lock operations; what is done under a lock
and touches none of the three is done in one step.

Positions of the shadow stack are counted from one, so that a pop with an
empty stack leads to position zero.  Entries are named by the number of the
push that made them.
-/

namespace Multicilk.Steal

/-- The first position of the shadow stack. -/
def shadowStack : ℕ := 1

/-- Who can hold a lock.  Workers that do not touch the shadow stack or the
deque of the victim are taken together. -/
inductive Party where
  | victim
  | thief (worker : ℕ)
  | elsewhere
  deriving DecidableEq, Repr

/-- The lock of the victim's deque and those of the closures. -/
inductive Lock where
  | deque
  | closure (cl : ℕ)
  deriving DecidableEq, Repr

inductive VictimPc where
  /-- In user code. -/
  | user
  /-- In `__cilkrts_detach`, with the parent stored at `*tail`. -/
  | detach
  /-- In `__cilkrts_leave_frame` or `__cilkrts_pause_frame`, with `tail`
  decremented. -/
  | leaveFrame
  /-- In `Cilk_exception_handler`, before `deque_lock_self`. -/
  | handlerEntry
  /-- The deque is locked, the closure at its bottom is not. -/
  | handlerPeek
  | handlerReset (t : ℕ)
  | handlerTest (t : ℕ)
  | handlerUnlock (t : ℕ) (stolen : Bool)
  | handlerUnlockDeque (stolen : Bool)
  /-- In `worker_scheduler`, about to look into its own deque. -/
  | scheduler
  /-- In `worker_scheduler`, and its own deque has been found empty. -/
  | stealing
  /-- In `do_what_it_says`, after `setup_for_execution`. -/
  | launching (t : ℕ)
  /-- Outside `worker_scheduler`, after `exit_cilkified_root`. -/
  | outside
  deriving DecidableEq, Repr

/-- The program points of `Closure_steal` and of the functions it calls. -/
inductive ThiefPc where
  | idle
  /-- The fast test has loaded `head`. -/
  | fastTest (head : ℕ)
  | trylockDeque
  | peekTop
  | trylockClosure (cl : ℕ)
  | testStatus (cl : ℕ)
  /-- `increment_exception_pointer`. -/
  | incLoad (cl : ℕ)
  | incStore (cl exc : ℕ)
  | loadHead (cl : ℕ)
  | loadTail (cl head : ℕ)
  /-- `decrement_exception_pointer`. -/
  | decLoad (cl : ℕ)
  | decStore (cl exc : ℕ)
  | giveUp (cl : ℕ)
  | giveUpDeque
  /-- `promote_child`. -/
  | promote (cl : ℕ)
  | unlockSuspended (cl res head frame : ℕ)
  | lockFresh (res head frame : ℕ)
  | storeHead (res head frame : ℕ) (fresh : Bool)
  | addBottom (res : ℕ) (fresh : Bool)
  | unlockDeque (res : ℕ)
  /-- `finish_promote`. -/
  | finishPromote (res : ℕ)
  | unlockRes (res : ℕ)
  deriving DecidableEq, Repr

/-- What the victim and the thieves share. -/
structure Shared where
  head : ℕ
  tail : ℕ
  exc : ℕ
  stack : ℕ → ℕ
  /-- The number of entries that have been pushed. -/
  pushed : ℕ
  /-- Entries whose frames have returned to their parents on the victim. -/
  popped : List ℕ
  /-- Entries that have been stolen, with their thieves. -/
  taken : List (ℕ × ℕ)
  victim : VictimPc
  deque : List ℕ
  locks : Lock → Option Party
  status : ℕ → ClosureStatus
  /-- The Cilkified region has ended and the next one has not begun. -/
  regionOver : Bool

structure State where
  shared : Shared
  thieves : ℕ → ThiefPc

namespace Shared

def setStatus (shared : Shared) (cl : ℕ) (status : ClosureStatus) : Shared :=
  { shared with status := Function.update shared.status cl status }

def acquire (shared : Shared) (lock : Lock) (party : Party) : Shared :=
  { shared with locks := Function.update shared.locks lock (some party) }

def release (shared : Shared) (lock : Lock) : Shared :=
  { shared with locks := Function.update shared.locks lock none }

/-- The entry at `tail` is popped and the victim continues in the parent. -/
def continueInParent (shared : Shared) : Shared :=
  { shared with
    popped := shared.stack shared.tail :: shared.popped
    victim := .user }

/-- `setup_for_execution`. -/
def setupForExecution (shared : Shared) (t : ℕ) : Shared :=
  { shared.setStatus t .running with
    head := shadowStack
    tail := shadowStack
    exc := shadowStack
    victim := .launching t }

end Shared

inductive VictimAction where
  | storeParent
  | storeTail
  | decrementTail
  | loadExc
  | lockDeque
  | lockBottom (t : ℕ)
  | resetExc
  | testHead
  | unlockClosure
  | unlockDeque
  | syncSuspend (t : ℕ)
  | setReturn (t callParent : ℕ)
  | exitRegion
  | enterScheduler
  | extractBottom
  | nextIteration
  | execute (t : ℕ)
  | executeRoot
  | addBottom
  deriving DecidableEq, Repr

section Victim

variable (root : ℕ)

/-- The steps of the victim.  A sync, the return from a called full frame and
the end of the region are reached in user code only when every frame that was
detached on this worker has been left, so with `tail` at the bottom. -/
inductive VictimStep : Shared → VictimAction → Shared → Prop where
  | storeParent {s : Shared} :
      s.victim = .user →
      VictimStep s .storeParent { s with
        stack := Function.update s.stack s.tail s.pushed
        victim := .detach }
  | storeTail {s : Shared} :
      s.victim = .detach →
      VictimStep s .storeTail { s with
        tail := s.tail + 1
        pushed := s.pushed + 1
        victim := .user }
  | decrementTail {s : Shared} :
      s.victim = .user →
      VictimStep s .decrementTail { s with
        tail := s.tail - 1
        victim := .leaveFrame }
  | loadExc {s : Shared} :
      s.victim = .leaveFrame →
      VictimStep s .loadExc
        (if s.exc > s.tail then { s with victim := .handlerEntry }
        else s.continueInParent)
  | lockDeque {s : Shared} :
      s.victim = .handlerEntry → s.locks .deque = none →
      VictimStep s .lockDeque { s.acquire .deque .victim with
        victim := .handlerPeek }
  | lockBottom {s : Shared} {t : ℕ} :
      s.victim = .handlerPeek → s.deque.getLast? = some t →
      s.locks (.closure t) = none →
      VictimStep s (.lockBottom t) { s.acquire (.closure t) .victim with
        victim := .handlerReset t }
  | resetExc {s : Shared} {t : ℕ} :
      s.victim = .handlerReset t →
      VictimStep s .resetExc { s with
        exc := s.head
        victim := .handlerTest t }
  | testHeadSteal {s : Shared} {t : ℕ} :
      s.victim = .handlerTest t → s.head > s.tail →
      VictimStep s .testHead {
        (if s.status t = .running then s.setStatus t .returning else s) with
        victim := .handlerUnlock t true }
  | testHeadFalseAlarm {s : Shared} {t : ℕ} :
      s.victim = .handlerTest t → ¬ s.head > s.tail →
      VictimStep s .testHead { s with victim := .handlerUnlock t false }
  | unlockClosure {s : Shared} {t : ℕ} {stolen : Bool} :
      s.victim = .handlerUnlock t stolen →
      VictimStep s .unlockClosure { s.release (.closure t) with
        victim := .handlerUnlockDeque stolen }
  | longjmpToRuntime {s : Shared} :
      s.victim = .handlerUnlockDeque true →
      VictimStep s .unlockDeque { s.release .deque with victim := .scheduler }
  | returnToUser {s : Shared} :
      s.victim = .handlerUnlockDeque false →
      VictimStep s .unlockDeque (s.release .deque).continueInParent
  | syncSuspend {s : Shared} {t : ℕ} :
      s.victim = .user → s.tail = shadowStack → s.locks .deque = none →
      s.deque.getLast? = some t → s.locks (.closure t) = none →
      VictimStep s (.syncSuspend t) { s.setStatus t .suspended with
        deque := s.deque.dropLast
        victim := .scheduler }
  | setReturn {s : Shared} {t callParent : ℕ} :
      s.victim = .user → s.tail = shadowStack → s.locks .deque = none →
      s.deque.getLast? = some t → s.locks (.closure t) = none →
      callParent ∉ s.deque → s.locks (.closure callParent) = none →
      s.status callParent = .suspended →
      VictimStep s (.setReturn t callParent) {
        (s.setStatus t .postInvalid).setStatus callParent .running with
        deque := s.deque.dropLast ++ [callParent]
        exc := s.head }
  | exitRegion {s : Shared} :
      s.victim = .user → s.tail = shadowStack → s.deque = [root] →
      VictimStep s .exitRegion { s with
        deque := []
        regionOver := true
        victim := .outside }
  | enterScheduler {s : Shared} :
      s.victim = .outside →
      VictimStep s .enterScheduler { s with victim := .scheduler }
  | extractBottom {s : Shared} :
      s.victim = .scheduler → s.locks .deque = none →
      VictimStep s .extractBottom { s with
        deque := s.deque.dropLast
        victim := .stealing }
  | nextIteration {s : Shared} :
      s.victim = .stealing →
      VictimStep s .nextIteration { s with victim := .scheduler }
  | execute {s : Shared} {t : ℕ} :
      s.victim = .stealing → s.locks (.closure t) = none → s.status t = .ready →
      VictimStep s (.execute t) (s.setupForExecution t)
  | executeRoot {s : Shared} :
      s.victim = .outside → s.locks (.closure root) = none →
      s.status root = .ready →
      VictimStep s .executeRoot (s.setupForExecution root)
  | addBottom {s : Shared} {t : ℕ} :
      s.victim = .launching t → s.locks .deque = none →
      VictimStep s .addBottom { s with
        deque := s.deque ++ [t]
        victim := .user }

end Victim

inductive ThiefAction where
  | loadFastHead
  | testFastTail
  | trylockDeque
  | peekTop
  | trylockClosure
  | testStatus
  | incLoad
  | incStore
  | loadHead
  | testTail
  | decLoad
  | decStore
  | unlockClosure
  | unlockDequeFailed
  | promoteTop
  | promoteFresh (res : ℕ)
  | unlockSuspended
  | lockFresh
  | storeHead
  | addBottom (child : ℕ)
  | unlockDeque
  | finishPromote
  | unlockRes
  deriving DecidableEq, Repr

section Thief

variable (root worker : ℕ)

/-- The steps of `Closure_steal(w, victim)`.  A closure that is peeked while it
is neither running nor returning stops the program unless it is the root
closure. -/
inductive ThiefStep : Shared → ThiefPc → ThiefAction → Shared → ThiefPc →
    Prop where
  | loadFastHead {s : Shared} :
      ThiefStep s .idle .loadFastHead s (.fastTest s.head)
  | testFastTail {s : Shared} {head : ℕ} :
      ThiefStep s (.fastTest head) .testFastTail s
        (if head ≥ s.tail then .idle else .trylockDeque)
  | trylockDeque {s : Shared} :
      s.locks .deque = none →
      ThiefStep s .trylockDeque .trylockDeque
        (s.acquire .deque (.thief worker)) .peekTop
  | trylockDequeFailed {s : Shared} :
      s.locks .deque ≠ none →
      ThiefStep s .trylockDeque .trylockDeque s .idle
  | peekTop {s : Shared} {cl : ℕ} :
      s.deque.head? = some cl →
      ThiefStep s .peekTop .peekTop s (.trylockClosure cl)
  | peekEmpty {s : Shared} :
      s.deque.head? = none →
      ThiefStep s .peekTop .peekTop (s.release .deque) .idle
  | trylockClosure {s : Shared} {cl : ℕ} :
      s.locks (.closure cl) = none →
      ThiefStep s (.trylockClosure cl) .trylockClosure
        (s.acquire (.closure cl) (.thief worker)) (.testStatus cl)
  | trylockClosureFailed {s : Shared} {cl : ℕ} :
      s.locks (.closure cl) ≠ none →
      ThiefStep s (.trylockClosure cl) .trylockClosure
        (s.release .deque) .idle
  | testRunning {s : Shared} {cl : ℕ} :
      s.status cl = .running →
      ThiefStep s (.testStatus cl) .testStatus s (.incLoad cl)
  | testReturning {s : Shared} {cl : ℕ} :
      s.status cl = .returning →
      ThiefStep s (.testStatus cl) .testStatus s (.giveUp cl)
  | testDefault {s : Shared} {cl : ℕ} :
      s.status cl ≠ .running → s.status cl ≠ .returning → cl = root →
      ThiefStep s (.testStatus cl) .testStatus s .idle
  | incLoad {s : Shared} {cl : ℕ} :
      ThiefStep s (.incLoad cl) .incLoad s (.incStore cl s.exc)
  | incStore {s : Shared} {cl exc : ℕ} :
      ThiefStep s (.incStore cl exc) .incStore
        { s with exc := exc + 1 } (.loadHead cl)
  | loadHead {s : Shared} {cl : ℕ} :
      ThiefStep s (.loadHead cl) .loadHead s (.loadTail cl s.head)
  | testTail {s : Shared} {cl head : ℕ} :
      ThiefStep s (.loadTail cl head) .testTail s
        (if head ≥ s.tail then .decLoad cl else .promote cl)
  | decLoad {s : Shared} {cl : ℕ} :
      ThiefStep s (.decLoad cl) .decLoad s (.decStore cl s.exc)
  | decStore {s : Shared} {cl exc : ℕ} :
      ThiefStep s (.decStore cl exc) .decStore
        { s with exc := exc - 1 } (.giveUp cl)
  | giveUp {s : Shared} {cl : ℕ} :
      ThiefStep s (.giveUp cl) .unlockClosure
        (s.release (.closure cl)) .giveUpDeque
  | giveUpDeque {s : Shared} :
      ThiefStep s .giveUpDeque .unlockDequeFailed
        (s.release .deque) .idle
  | promoteTop {s : Shared} {cl : ℕ} :
      ThiefStep s (.promote cl) .promoteTop s
        (.storeHead cl s.head (s.stack s.head) false)
  | promoteFresh {s : Shared} {cl res : ℕ} :
      s.deque.getLast? = some cl →
      res ∉ s.deque → res ≠ root → s.locks (.closure res) = none →
      ThiefStep s (.promote cl) (.promoteFresh res)
        { (s.setStatus res .running).setStatus cl .suspended with
          deque := s.deque.dropLast }
        (.unlockSuspended cl res s.head (s.stack s.head))
  | unlockSuspended {s : Shared} {cl res head frame : ℕ} :
      ThiefStep s (.unlockSuspended cl res head frame) .unlockSuspended
        (s.release (.closure cl)) (.lockFresh res head frame)
  | lockFresh {s : Shared} {res head frame : ℕ} :
      s.locks (.closure res) = none →
      ThiefStep s (.lockFresh res head frame) .lockFresh
        (s.acquire (.closure res) (.thief worker))
        (.storeHead res head frame true)
  | storeHead {s : Shared} {res head frame : ℕ} {fresh : Bool} :
      ThiefStep s (.storeHead res head frame fresh) .storeHead
        { s with
          head := head + 1
          taken := (frame, worker) :: s.taken }
        (.addBottom res fresh)
  | addBottom {s : Shared} {res child : ℕ} {fresh : Bool} :
      child ∉ s.deque → child ≠ root → child ≠ res →
      s.locks (.closure child) = none →
      ThiefStep s (.addBottom res fresh) (.addBottom child)
        { s.setStatus child .running with
          deque := if fresh then s.deque ++ [child]
            else (s.deque ++ [child]).tail }
        (.unlockDeque res)
  | unlockDeque {s : Shared} {res : ℕ} :
      ThiefStep s (.unlockDeque res) .unlockDeque
        (s.release .deque) (.finishPromote res)
  | finishPromote {s : Shared} {res : ℕ} :
      ThiefStep s (.finishPromote res) .finishPromote
        (s.setStatus res .ready) (.unlockRes res)
  | unlockRes {s : Shared} {res : ℕ} :
      ThiefStep s (.unlockRes res) .unlockRes
        (s.release (.closure res)) .idle

end Thief

inductive OtherAction where
  | exitElsewhere
  | makeRootReady
  | lock (cl : ℕ)
  | setStatus (cl : ℕ) (status : ClosureStatus)
  | unlock (cl : ℕ)
  deriving DecidableEq, Repr

section Other

variable (root : ℕ)

/-- What the Cilkifying thread and the other workers do.  A new region sets the
status of the root closure without a lock; any other closure is changed under
its lock, and only when the victim neither has it in its deque nor is about to
put it there. -/
inductive OtherStep : Shared → OtherAction → Shared → Prop where
  | exitElsewhere {s : Shared} :
      s.victim ∈ [.scheduler, .stealing, .outside] → s.deque = [] →
      OtherStep s .exitElsewhere { s with regionOver := true }
  | makeRootReady {s : Shared} :
      s.regionOver = true →
      OtherStep s .makeRootReady
        { s.setStatus root .ready with regionOver := false }
  | lock {s : Shared} {cl : ℕ} :
      s.locks (.closure cl) = none →
      OtherStep s (.lock cl) (s.acquire (.closure cl) .elsewhere)
  | setStatus {s : Shared} {cl : ℕ} {status : ClosureStatus} :
      s.locks (.closure cl) = some .elsewhere → cl ∉ s.deque →
      s.victim ≠ .launching cl →
      OtherStep s (.setStatus cl status) (s.setStatus cl status)
  | unlock {s : Shared} {cl : ℕ} :
      s.locks (.closure cl) = some .elsewhere →
      OtherStep s (.unlock cl) (s.release (.closure cl))

end Other

inductive Action where
  | victim (action : VictimAction)
  | thief (worker : ℕ) (action : ThiefAction)
  | other (action : OtherAction)
  deriving DecidableEq, Repr

inductive Step (root : ℕ) : State → Action → State → Prop where
  | victim {s next : Shared} {thieves : ℕ → ThiefPc} {action : VictimAction} :
      VictimStep root s action next →
      Step root ⟨s, thieves⟩ (.victim action) ⟨next, thieves⟩
  | thief {s next : Shared} {thieves : ℕ → ThiefPc} {worker : ℕ} {pc : ThiefPc}
      {action : ThiefAction} :
      ThiefStep root worker s (thieves worker) action next pc →
      Step root ⟨s, thieves⟩ (.thief worker action)
        ⟨next, Function.update thieves worker pc⟩
  | other {s next : Shared} {thieves : ℕ → ThiefPc} {action : OtherAction} :
      OtherStep root s action next →
      Step root ⟨s, thieves⟩ (.other action) ⟨next, thieves⟩

/-- Before the first region.  All workers have an empty deque and an empty
shadow stack, and nobody is stealing. -/
def initial : State where
  shared :=
    { head := shadowStack
      tail := shadowStack
      exc := shadowStack
      stack := fun _ => 0
      pushed := 0
      popped := []
      taken := []
      victim := .outside
      deque := []
      locks := fun _ => none
      status := fun _ => .preInvalid
      regionOver := true }
  thieves := fun _ => .idle

end Multicilk.Steal
