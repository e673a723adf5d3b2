import Mathlib.Data.Nat.Notation
import Mathlib.Logic.Function.Basic

/-!
# Handing over a Cilkified region

The Cilkifying thread and the workers share the flags `start`, `done` and
`cilkified` and the number of the exiting worker.  Every read and every write of
one of these is a step of its own.  What the workers do with other closures than
the root is left open.
-/

namespace Multicilk.Region

/-- Where the Cilkifying thread is: outside of all regions, before the next
store of `invoke_cilkified_root`, in `wait_until_cilk_done`, or in
`__cilkrts_stop_workers`. -/
inductive BossPc where
  | outside
  | storeCilkified
  | storeDone
  | storeStart
  | waiting
  | stopStart
  | joining
deriving DecidableEq

/-- The closure `t` in `worker_scheduler`. -/
inductive Found where
  | nothing
  | other
  | root
deriving DecidableEq

/-- Where a worker is. -/
inductive WorkerPc where
  /-- In `scheduler_thread_proc`, before the region. -/
  | waitStart
  | testTerminate
  | testEntering
  /-- In `worker_scheduler`, before the test of `done`. -/
  | loop (t : Found)
  /-- Trying to find a closure. -/
  | searching
  /-- In user code or in the runtime routines that it calls. -/
  | executing (root : Bool)
  /-- In `exit_cilkified_root`, before the next store. -/
  | storeStart
  | storeDone
  | clearDeque
  /-- In `scheduler_thread_proc`, after the region. -/
  | testExiting
  | storeCilkified
  | terminated
deriving DecidableEq

structure State (W : Type*) where
  start : Bool
  done : Bool
  cilkified : Bool
  terminate : Bool
  exitingWorker : W
  boss : BossPc
  worker : W → WorkerPc
  /-- How often the root closure is suspended. -/
  parked : ℕ
  /-- The number of regions that have been started. -/
  region : ℕ
  /-- The region in which a worker has last seen `start`. -/
  seen : W → ℕ
  /-- Who has entered `worker_scheduler` with the root closure, who has run
  `exit_cilkified_root`, and who has cleared `cilkified`, in which region. -/
  entries : List (W × ℕ)
  exits : List (W × ℕ)
  clears : List (W × ℕ)
  /-- The regions for which `wait_until_cilk_done` has returned. -/
  returns : List ℕ

inductive Action (W : Type*) where
  | makeRootReady
  | setCilkified
  | resetDone
  | setStart
  | returnFromWait
  | setTerminate
  | releaseWorkers
  | passStart (worker : W)
  | move (worker : W) (pc : WorkerPc)
  | enterRoot (worker : W)
  | stealRoot (thief victim : W)
  | suspendRoot (worker : W)
  | continueRoot (worker : W)
  | returnToRoot (worker : W)
  | recordExit (worker : W)
  | resetStart (worker : W)
  | setDone (worker : W)
  | exitRegion (worker : W)
  | clearCilkified (worker : W)

variable {W : Type*}

/-- The steps of a worker that only change where it is. -/
inductive WorkerStep (s : State W) (worker : W) :
    WorkerPc → WorkerPc → Prop where
  | terminate : s.terminate = true →
      WorkerStep s worker .testTerminate .terminated
  | goOn : s.terminate = false →
      WorkerStep s worker .testTerminate .testEntering
  | enter : worker ≠ s.exitingWorker →
      WorkerStep s worker .testEntering (.loop .nothing)
  | leave {t : Found} : s.done = true →
      WorkerStep s worker (.loop t) .testExiting
  | executeRoot : s.done = false →
      WorkerStep s worker (.loop .root) (.executing true)
  | execute : s.done = false →
      WorkerStep s worker (.loop .other) (.executing false)
  | search : s.done = false →
      WorkerStep s worker (.loop .nothing) .searching
  | giveUp : s.done = true →
      WorkerStep s worker .searching (.loop .nothing)
  /-- Some other closure, of the own deque or stolen. -/
  | find : WorkerStep s worker .searching (.executing false)
  | backToRuntime {t : Found} : t ≠ .root →
      WorkerStep s worker (.executing false) (.loop t)
  | isExiting : worker = s.exitingWorker →
      WorkerStep s worker .testExiting .storeCilkified
  | notExiting : worker ≠ s.exitingWorker →
      WorkerStep s worker .testExiting .waitStart

variable [DecidableEq W]

def State.move (s : State W) (worker : W) (pc : WorkerPc) : State W :=
  { s with worker := Function.update s.worker worker pc }

/-- The steps of the Cilkifying thread and of the workers. -/
inductive Step : State W → Action W → State W → Prop where
  | makeRootReady {s : State W} :
      s.boss = .outside →
      Step s .makeRootReady { s with boss := .storeCilkified }
  | setCilkified {s : State W} :
      s.boss = .storeCilkified →
      Step s .setCilkified { s with boss := .storeDone, cilkified := true }
  | resetDone {s : State W} :
      s.boss = .storeDone →
      Step s .resetDone { s with boss := .storeStart, done := false }
  | setStart {s : State W} :
      s.boss = .storeStart →
      Step s .setStart { s with
        boss := .waiting
        start := true
        region := s.region + 1 }
  | returnFromWait {s : State W} :
      s.boss = .waiting → s.cilkified = false →
      Step s .returnFromWait { s with
        boss := .outside
        returns := s.returns ++ [s.region] }
  | setTerminate {s : State W} :
      s.boss = .outside →
      Step s .setTerminate { s with boss := .stopStart, terminate := true }
  | releaseWorkers {s : State W} :
      s.boss = .stopStart →
      Step s .releaseWorkers { s with boss := .joining, start := true }
  | passStart {s : State W} {worker : W} :
      s.worker worker = .waitStart → s.start = true →
      Step s (.passStart worker) { s.move worker .testTerminate with
        seen := Function.update s.seen worker s.region }
  | move {s : State W} {worker : W} {pc : WorkerPc} :
      WorkerStep s worker (s.worker worker) pc →
      Step s (.move worker pc) (s.move worker pc)
  | enterRoot {s : State W} {worker : W} :
      s.worker worker = .testEntering → worker = s.exitingWorker →
      Step s (.enterRoot worker) { s.move worker (.loop .root) with
        entries := s.entries ++ [(worker, s.region)] }
  /-- The victim goes on with a child of the root. -/
  | stealRoot {s : State W} {thief victim : W} :
      s.worker thief = .searching → s.worker victim = .executing true →
      Step s (.stealRoot thief victim)
        ((s.move victim (.executing false)).move thief (.executing true))
  /-- The root waits for its children or for a callee. -/
  | suspendRoot {s : State W} {worker : W} :
      s.worker worker = .executing true →
      Step s (.suspendRoot worker) { s.move worker (.executing false) with
        parked := s.parked + 1 }
  /-- A callee of the root returns to it. -/
  | continueRoot {s : State W} {worker : W} :
      s.worker worker = .executing false → 0 < s.parked →
      Step s (.continueRoot worker) { s.move worker (.executing true) with
        parked := s.parked - 1 }
  /-- The last child of the root returns. -/
  | returnToRoot {s : State W} {worker : W} :
      s.worker worker = .executing false → 0 < s.parked →
      Step s (.returnToRoot worker) { s.move worker (.loop .root) with
        parked := s.parked - 1 }
  | recordExit {s : State W} {worker : W} :
      s.worker worker = .executing true →
      Step s (.recordExit worker) { s.move worker .storeStart with
        exitingWorker := worker }
  | resetStart {s : State W} {worker : W} :
      s.worker worker = .storeStart →
      Step s (.resetStart worker) { s.move worker .storeDone with
        start := false }
  | setDone {s : State W} {worker : W} :
      s.worker worker = .storeDone →
      Step s (.setDone worker) { s.move worker .clearDeque with done := true }
  | exitRegion {s : State W} {worker : W} :
      s.worker worker = .clearDeque →
      Step s (.exitRegion worker) { s.move worker (.loop .nothing) with
        exits := s.exits ++ [(worker, s.region)] }
  | clearCilkified {s : State W} {worker : W} :
      s.worker worker = .storeCilkified →
      Step s (.clearCilkified worker) { s.move worker .waitStart with
        cilkified := false
        clears := s.clears ++ [(worker, s.region)] }

/-- The state after `__cilkrts_startup`; the first region starts the workers. -/
def initial (zero : W) : State W where
  start := false
  done := false
  cilkified := false
  terminate := false
  exitingWorker := zero
  boss := .outside
  worker := fun _ => .waitStart
  parked := 0
  region := 0
  seen := fun _ => 0
  entries := []
  exits := []
  clears := []
  returns := []

end Multicilk.Region
