import Multicilk.Scheduler.Operations
import Multicilk.Support.Run

/-!
# The workers of a Cilkified region

Every worker is in compiled code or in the runtime.  What it does under the
locks of a deque and of closures is one step, and in between the others go on.
The compiled code calls, spawns and leaves frames in any order, but it syncs a
frame that has been stolen from before it leaves it.  There are no simulated
steals and no exceptions.
-/

namespace Multicilk.Scheduler

open TransitionSystem

/-- Where a worker is. -/
inductive Pc where
  /-- In compiled code. -/
  | user
  /-- Before `Cilk_exception_handler`. -/
  | popped
  /-- Back from `longjmp_to_runtime`. -/
  | runtime
  /-- In `worker_scheduler`, with no closure to execute. -/
  | looking
  /-- In the stealing loop. -/
  | thief
  /-- In `Closure_steal`, when the deque of the victim has been unlocked.  The
  stolen closure is still locked. -/
  | promoting (cl res : ℕ)
  /-- Before `do_what_it_says`. -/
  | holding (t : ℕ)
  /-- Before the closure is added to the deque and its frame is resumed. -/
  | executing (t : ℕ)
  /-- In `Closure_return`. -/
  | returning (child : ℕ)
deriving DecidableEq

/-- The closure that a worker has outside of its deque. -/
def Pc.closures : Pc → List ℕ
  | .promoting _ res => [res]
  | .holding t => [t]
  | .executing t => [t]
  | .returning child => [child]
  | _ => []

structure Machine (M : Type*) where
  sched : State M
  pc : ℕ → Pc

variable {M : Type*}

namespace Machine

def goto (m : Machine M) (w : ℕ) (pc : Pc) (s : State M) : Machine M :=
  { sched := s, pc := Function.update m.pc w pc }

/-- No worker holds the lock of the closure between two steps. -/
def Unlocked (m : Machine M) (c : ℕ) : Prop :=
  ∀ w cl, m.pc w ≠ .promoting cl c

/-- Where the worker goes after `do_what_it_says`. -/
def nextPc : Option ℕ → Pc
  | some t => .holding t
  | none => .looking

end Machine

open Machine

/-- What a step is, and the worker that takes it. -/
inductive Action where
  | call (w : ℕ)
  | spawn (w : ℕ)
  | update (w : ℕ)
  | leaveCalled (w : ℕ)
  | leaveSpawned (w : ℕ)
  | setReturn (w : ℕ)
  | exit (w : ℕ)
  | sync (w : ℕ)
  | exceptionHandler (w : ℕ)
  | freeFiber (w : ℕ)
  | xtractBottom (w : ℕ)
  | steal (w victim : ℕ)
  | finishPromote (w : ℕ)
  | setupForExecution (w : ℕ)
  | execute (w : ℕ)
  | returnValue (w : ℕ)
  | reducerIteration (w : ℕ)
  | finishReturn (w : ℕ)
  | mapFiber
  | unmapFiber

variable [Monoid M]

inductive Step : Machine M → Action → Machine M → Prop where
  | call {m : Machine M} {w : ℕ} :
      m.pc w = .user →
      Step m (.call w) (m.goto w .user (enterFrame m.sched w))
  | spawn {m : Machine M} {w t sf : ℕ} :
      m.pc w = .user →
      dequePeekBottom m.sched w = some t →
      (m.sched.workers w).currentStackFrame = some sf →
      Step m (.spawn w) (m.goto w .user (spawn m.sched w t))
  /-- The reducer map is made when it is first needed. -/
  | update {m : Machine M} {w : ℕ} (map : M) :
      m.pc w = .user →
      Step m (.update w) (m.goto w .user
        (m.sched.modifyWorker w ({ · with reducerMap := some map })))
  /-- The frame has no closure. -/
  | leaveCalled {m : Machine M} {w sf : ℕ} :
      m.pc w = .user →
      (m.sched.workers w).currentStackFrame = some sf →
      (m.sched.frames sf).unsynched = false →
      (m.sched.frames sf).last = false →
      (m.sched.frames sf).detached = false →
      (m.sched.frames sf).stolen = false →
      Step m (.leaveCalled w) (m.goto w .user (popFrame m.sched w sf))
  | leaveSpawned {m : Machine M} {w sf : ℕ} {s : State M} :
      m.pc w = .user →
      (m.sched.workers w).currentStackFrame = some sf →
      (m.sched.frames sf).unsynched = false →
      (m.sched.frames sf).last = false →
      (m.sched.frames sf).detached = true →
      s = leaveDetached (popFrame m.sched w sf) w sf →
      Step m (.leaveSpawned w)
        (m.goto w (if exceptionRaised s w then .popped else .user) s)
  /-- `Cilk_set_return`. -/
  | setReturn {m : Machine M} {w sf t callParent : ℕ} :
      m.pc w = .user →
      (m.sched.workers w).currentStackFrame = some sf →
      (m.sched.frames sf).unsynched = false →
      (m.sched.frames sf).last = false →
      (m.sched.frames sf).detached = false →
      (m.sched.frames sf).stolen = true →
      dequePeekBottom m.sched w = some t →
      (m.sched.closures t).callParent = some callParent →
      m.Unlocked t →
      m.Unlocked callParent →
      Step m (.setReturn w) (m.goto w .user
        (cilkSetReturn (popFrame m.sched w sf) w t callParent))
  | exit {m : Machine M} {w sf : ℕ} :
      m.pc w = .user →
      (m.sched.workers w).currentStackFrame = some sf →
      (m.sched.frames sf).unsynched = false →
      (m.sched.frames sf).last = true →
      Step m (.exit w) (m.goto w .runtime
        (exitCilkifiedRoot (popFrame m.sched w sf) w sf))
  | sync {m : Machine M} {w sf t : ℕ} {s : State M} {ready : Bool} :
      m.pc w = .user →
      (m.sched.workers w).currentStackFrame = some sf →
      (m.sched.frames sf).unsynched = true →
      dequePeekBottom m.sched w = some t →
      m.Unlocked t →
      cilkSync m.sched w t = (s, ready) →
      Step m (.sync w) (m.goto w (if ready then .user else .runtime) s)
  | exceptionHandler {m : Machine M} {w t : ℕ} {s : State M}
      {stolen : Bool} :
      m.pc w = .popped →
      dequePeekBottom m.sched w = some t →
      m.Unlocked t →
      cilkExceptionHandler m.sched w t = (s, stolen) →
      Step m (.exceptionHandler w)
        (m.goto w (if stolen then .runtime else .user) s)
  | freeFiber {m : Machine M} {w : ℕ} :
      m.pc w = .runtime →
      Step m (.freeFiber w) (m.goto w .looking (freeFiber m.sched w))
  | xtractNothing {m : Machine M} {w : ℕ} :
      m.pc w = .looking →
      dequePeekBottom m.sched w = none →
      Step m (.xtractBottom w) (m.goto w .thief m.sched)
  | xtractBottom {m : Machine M} {w t : ℕ} :
      m.pc w = .looking →
      dequePeekBottom m.sched w = some t →
      Step m (.xtractBottom w)
        (m.goto w (.holding t) (dequeXtractBottom m.sched w))
  | steal {m : Machine M} {w victim fiber cl res : ℕ} {s : State M} :
      m.pc w = .thief →
      victim ≠ w →
      fiber ∈ m.sched.pool →
      dequePeekTop m.sched victim = some cl →
      m.Unlocked cl →
      closureStealTop m.sched victim fiber = some (s, cl, res) →
      Step m (.steal w victim) (m.goto w (.promoting cl res) s)
  | finishPromote {m : Machine M} {w cl res fuel : ℕ} {s : State M} :
      m.pc w = .promoting cl res →
      finishPromote m.sched fuel res (cl ≠ res) = some s →
      Step m (.finishPromote w) (m.goto w (.holding res) s)
  | setupForExecution {m : Machine M} {w t : ℕ} :
      m.pc w = .holding t →
      m.Unlocked t →
      (m.sched.closures t).status = .ready →
      Step m (.setupForExecution w)
        (m.goto w (.executing t) (setupForExecution m.sched w t))
  | execute {m : Machine M} {w t : ℕ} :
      m.pc w = .executing t →
      Step m (.execute w) (m.goto w .user
        (longjmpToUserCode (dequeAddBottom m.sched t w) w t))
  | returnValue {m : Machine M} {w t : ℕ} :
      m.pc w = .holding t →
      m.Unlocked t →
      (m.sched.closures t).status = .returning →
      Step m (.returnValue w) (m.goto w (.returning t) m.sched)
  | reducerIteration {m : Machine M} {w child parent : ℕ} :
      m.pc w = .returning child →
      (m.sched.closures child).spawnParent = some parent →
      m.Unlocked parent →
      m.Unlocked child →
      (leftRmap m.sched parent child).isSome ∨
        (m.sched.closures child).rightRmap.isSome →
      Step m (.reducerIteration w)
        (m.goto w (.returning child)
          (reducerIteration m.sched w parent child))
  | finishReturn {m : Machine M} {w child parent : ℕ} {s : State M}
      {res : Option ℕ} :
      m.pc w = .returning child →
      (m.sched.closures child).spawnParent = some parent →
      m.Unlocked parent →
      m.Unlocked child →
      leftRmap m.sched parent child = none →
      (m.sched.closures child).rightRmap = none →
      finishReturn m.sched w parent child = (s, res) →
      Step m (.finishReturn w) (m.goto w (nextPc res) s)
  | mapFiber {m : Machine M} :
      Step m .mapFiber { m with sched := cilkFiberAllocate m.sched }
  | unmapFiber {m : Machine M} {fiber : ℕ} :
      fiber ∈ m.sched.pool →
      Step m .unmapFiber
        { m with sched := cilkFiberDeallocate m.sched fiber }

/-- At the start of a region the root closure is all there is, and one worker is
to execute it. -/
structure Initial (m : Machine M) : Prop where
  others : ∀ w, m.pc w = .looking ∨ m.pc w = .thief ∨
    m.pc w = .holding m.sched.rootClosure
  boss : ∃! w, m.pc w = .holding m.sched.rootClosure
  deques : ∀ w, m.sched.deques w = []
  fiberToFree : ∀ w, (m.sched.workers w).fiberToFree = none
  provablyGoodSteal : ∀ w, (m.sched.workers w).provablyGoodSteal = false
  root : ∃ sf fiber, sf < m.sched.entered ∧
    m.sched.closures m.sched.rootClosure =
      { status := .ready, frame := some sf, fiber := some fiber } ∧
    m.sched.frames sf = {
      stolen := true, last := true, callParent := some sf
      sp := some fiber } ∧
    fiber < m.sched.mapped ∧ fiber ∉ m.sched.pool ∧ fiber ∉ m.sched.unmapped
  rootCreated : m.sched.rootClosure < m.sched.created
  unused : ∀ c, c ≠ m.sched.rootClosure → m.sched.closures c = {}
  pooled : (m.sched.pool ++ m.sched.unmapped).Nodup ∧
    ∀ fiber ∈ m.sched.pool ++ m.sched.unmapped, fiber < m.sched.mapped
  history : m.sched.taken = [] ∧ m.sched.returned = [] ∧
    m.sched.destroyed = []

abbrev Reaches (m : Machine M) : Prop := Reachable Initial Step m

end Multicilk.Scheduler
