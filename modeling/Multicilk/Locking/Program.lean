import Multicilk.Scheduler.Ancestry
import Multicilk.Support.LockScript

/-!
# The locks of the scheduler

Every part of the scheduler takes its locks and gives them back in the order of
the code.  What it does to closures and deques is one step of its worker, while
it holds the locks for it.
-/

namespace Multicilk.Locking

open Scheduler LockScript

/-- The locks of what all workers share. -/
inductive Shared where
  | fiberPool
  | allocator
deriving DecidableEq

inductive Lock where
  | deque (w : ℕ)
  | closure (c : ℕ)
  | shared (what : Shared)
deriving DecidableEq

/-- Where loops of the code begin. -/
inductive Label where
  /-- Where a worker goes on depends on where it is. -/
  | worker
  /-- The loops of `Closure_return`. -/
  | returnExceptions (parent child : ℕ)
  | returnMaps (parent child : ℕ)

abbrev Code (M : Type*) := Script (Machine M) Lock Label

variable {M : Type*}

section Memory

def visits (what : Shared) : ℕ → Code M → Code M
  | 0, next => next
  | n + 1, next =>
    .lock (.shared what) (.unlock (.shared what) (visits what n next))

/-- `cilk_internal_malloc` and `cilk_internal_free`, any number of times.  The
allocator is locked when the worker has too few or too many blocks. -/
def internalMalloc (next : Code M) : Code M :=
  .choose fun n => visits .allocator n next

/-- `cilk_fiber_allocate_from_pool` and `cilk_fiber_deallocate_to_pool`.  The
batch functions go to the global pool first and then to the allocator. -/
def fiberBatch (next : Code M) : Code M :=
  .choose fun n => visits .fiberPool n (internalMalloc next)

end Memory

variable [Monoid M]

def step (action : Scheduler.Action) (m m' : Machine M) : Prop :=
  Scheduler.Step m action m'

section Running

/-- The compiled code has found `CILK_FRAME_UNSYNCHED`. -/
def cilkSync (w : ℕ) : Code M :=
  .lock (.deque w) <| .look fun m =>
    match dequePeekBottom m.sched w with
    | none => .stop
    | some t =>
      .lock (.closure t) <| fiberBatch <| .act (step (.sync w)) <|
      .unlock (.closure t) <| .unlock (.deque w) <|
      internalMalloc (.goto .worker)

def cilkSetReturn (w : ℕ) : Code M :=
  .lock (.deque w) <| .look fun m =>
    match dequePeekBottom m.sched w with
    | none => .stop
    | some t =>
      .lock (.closure t) <| .look fun m =>
        match (m.sched.closures t).callParent with
        | none => .stop
        | some callParent =>
          .unlock (.closure t) <| .lock (.closure callParent) <|
          .act (step (.setReturn w)) <| .unlock (.closure callParent) <|
          internalMalloc <| .unlock (.deque w) (.goto .worker)

def cilkExceptionHandler (w : ℕ) : Code M :=
  .lock (.deque w) <| .look fun m =>
    match dequePeekBottom m.sched w with
    | none => .stop
    | some t =>
      .lock (.closure t) <| .act (step (.exceptionHandler w)) <|
      .unlock (.closure t) <| .unlock (.deque w) (.goto .worker)

/-- The current frame is such that the compiled code calls `__cilkrts_sync`. -/
def syncs (s : State M) (w : ℕ) : Bool :=
  (s.workers w).currentStackFrame.any fun sf => (s.frames sf).unsynched

/-- The current frame is such that `__cilkrts_leave_frame` calls
`Cilk_set_return`. -/
def returns (s : State M) (w : ℕ) : Bool :=
  (s.workers w).currentStackFrame.any fun sf =>
    !(s.frames sf).unsynched && !(s.frames sf).last &&
      !(s.frames sf).detached && (s.frames sf).stolen

/-- The region is over when the last frame is left.  Reducers need memory. -/
def compiledCode (w : ℕ) : Code M :=
  .choose fun
    | 0 => .act (step (.call w)) (.goto .worker)
    | 1 => .act (step (.spawn w)) (.goto .worker)
    | 2 => .act (step (.update w)) (.goto .worker)
    | 3 => .act (step (.leaveCalled w)) (.goto .worker)
    | 4 => .act (step (.leaveSpawned w)) (.goto .worker)
    | 5 => .look fun m =>
      if syncs m.sched w then cilkSync w else .goto .worker
    | 6 => .look fun m =>
      if returns m.sched w then cilkSetReturn w else .goto .worker
    | 7 => internalMalloc (.goto .worker)
    | _ => .stop

end Running

section Stealing

def finishPromote (w res : ℕ) : Code M :=
  internalMalloc <| .act (step (.finishPromote w)) <|
  .unlock (.closure res) (.goto .worker)

/-- `extract_top_spawning_closure` when the thief can steal.  A new closure of
the spawning frame is locked instead of the top closure. -/
def extractTopSpawningClosure (w victim cl res : ℕ) : Code M :=
  internalMalloc <|
  if cl = res then
    fiberBatch <| .unlock (.deque victim) (finishPromote w res)
  else
    .unlock (.closure cl) <| .lock (.closure res) <| internalMalloc <|
    fiberBatch <| .unlock (.deque victim) (finishPromote w res)

/-- If there is no fiber in a pool, one is mapped for the thief.  The steal fails
when the victim is faster. -/
def trySteal (w victim : ℕ) (m m' : Machine M) : Prop :=
  (∃ pooled, (pooled = m ∨ step .mapFiber m pooled) ∧
    step (.steal w victim) pooled m') ∨ m' = m

def giveUp (victim cl : ℕ) : Code M :=
  .unlock (.closure cl) <| .unlock (.deque victim) (.goto .worker)

/-- Both locks are kept for a root closure that is about to run. -/
def stealTop (w victim cl : ℕ) : Code M :=
  .look fun m =>
    match (m.sched.closures cl).status with
    | .running => .act (trySteal w victim) <| .look fun m =>
      match m.pc w with
      | .promoting _ res => extractTopSpawningClosure w victim cl res
      | _ => giveUp victim cl
    | .returning => giveUp victim cl
    | _ => if cl = m.sched.rootClosure then .goto .worker else .stop

def closureSteal (w victim : ℕ) : Code M :=
  .tryLock (.deque victim)
    (.look fun m =>
      match dequePeekTop m.sched victim with
      | none => .unlock (.deque victim) (.goto .worker)
      | some cl =>
        .tryLock (.closure cl) (stealTop w victim cl)
          (.unlock (.deque victim) (.goto .worker)))
    (.goto .worker)

end Stealing

section Returning

def closureReturn (child : ℕ) : Code M :=
  .look fun m =>
    match (m.sched.closures child).spawnParent with
    | none => .stop
    | some parent =>
      .lock (.closure parent) <| .lock (.closure child)
        (.goto (.returnExceptions parent child))

/-- The locks are given back while an exception is deleted. -/
def returnExceptions (parent child : ℕ) : Code M :=
  .choose fun
    | 0 => .goto (.returnMaps parent child)
    | _ =>
      .unlock (.closure child) <| .unlock (.closure parent) <|
      .lock (.closure parent) <| .lock (.closure child)
        (.goto (.returnExceptions parent child))

/-- The locks are given back while maps are merged. -/
def returnMaps (w parent child : ℕ) : Code M :=
  .look fun m =>
    if (leftRmap m.sched parent child).isSome ∨
        (m.sched.closures child).rightRmap.isSome then
      .act (step (.reducerIteration w)) <| .unlock (.closure child) <|
      .unlock (.closure parent) <| internalMalloc <|
      .lock (.closure parent) <| .lock (.closure child)
        (.goto (.returnMaps parent child))
    else
      fiberBatch <| .act (step (.finishReturn w)) <|
      .unlock (.closure child) <| internalMalloc <|
      .unlock (.closure parent) (.goto .worker)

def doWhatItSays (w t : ℕ) : Code M :=
  .lock (.closure t) <| .look fun m =>
    match (m.sched.closures t).status with
    | .ready => .act (step (.setupForExecution w)) <|
      .unlock (.closure t) (.goto .worker)
    | .returning => .act (step (.returnValue w)) <|
      .unlock (.closure t) (.goto .worker)
    | _ => .stop

end Returning

/-- A closure is promoted without going back to the label. -/
def program (w : ℕ) : Label → Code M
  | .worker => .look fun m =>
    match m.pc w with
    | .user => compiledCode w
    | .popped => cilkExceptionHandler w
    | .runtime => fiberBatch <| .act (step (.freeFiber w)) (.goto .worker)
    | .looking =>
      .lock (.deque w) <| .act (step (.xtractBottom w)) <|
      .unlock (.deque w) (.goto .worker)
    | .thief => .choose fun victim =>
      if victim = w then .goto .worker else closureSteal w victim
    | .promoting _ _ => .stop
    | .holding t => doWhatItSays w t
    | .executing _ =>
      .lock (.deque w) <| .act (step (.execute w)) <|
      .unlock (.deque w) (.goto .worker)
    | .returning child => closureReturn child
  | .returnExceptions parent child => returnExceptions parent child
  | .returnMaps parent child => returnMaps w parent child

abbrev Threads (M : Type*) := LockScript.Threads (Machine M) Lock Label

/-- At the start of a region no lock is taken. -/
structure Initial (m : Threads M) : Prop where
  state : Scheduler.Initial m.state
  owner : ∀ lock, m.owner lock = none
  script : ∀ w, m.script w = .goto .worker

abbrev Reaches (m : Threads M) : Prop :=
  TransitionSystem.Reachable Initial
    (fun m (w : ℕ) m' => LockScript.Step program m w m') m

end Multicilk.Locking
