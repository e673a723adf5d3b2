import Mathlib.Algebra.Group.Nat.Defs
import Mathlib.Data.Int.Notation
import Mathlib.Data.Nat.Notation
import Mathlib.Logic.Function.Basic

/-!
# Fiber pools

Every worker has a pool of free fibers, and exchanges batches with the global
pool under its lock.  What the global pool cannot give or take goes to the
system.  A loop over a batch is interleaved with the other workers fiber by
fiber.
-/

namespace Multicilk.FiberPool

/-- Fibers are numbered in the order in which `cilk_fiber_allocate` creates
them. -/
abbrev Fiber := ℕ

/-- The difference of two `unsigned int`. -/
def unsignedSub (a b : ℕ) : ℕ := (a + (2 ^ 32 - b % 2 ^ 32)) % 2 ^ 32

structure Stats where
  inUse : ℤ
  maxInUse : ℤ
  maxFree : ℕ

/-- A `cilk_fiber_pool`.  The last of the fibers in the array comes first. -/
structure Pool where
  fibers : List Fiber
  capacity : ℕ
  size : ℕ
  stats : Stats

namespace Stats

def init : Stats where
  inUse := 0
  maxInUse := 0
  maxFree := 0

def use (stats : Stats) (fibers : ℤ) : Stats :=
  let inUse := stats.inUse + fibers
  { stats with
    inUse
    maxInUse := if stats.maxInUse < inUse then inUse else stats.maxInUse }

def free (stats : Stats) (size : ℕ) : Stats :=
  { stats with
    maxFree := if stats.maxFree < size then size else stats.maxFree }

end Stats

namespace Pool

/-- `fiber_pool_init`. -/
def init (bufsize : ℕ) : Pool where
  fibers := []
  capacity := bufsize
  size := 0
  stats := .init

def increaseCapacity (pool : Pool) (newSize : ℕ) : Pool :=
  { pool with
    capacity := if pool.capacity < newSize then newSize else pool.capacity }

def push (pool : Pool) (fiber : Fiber) : Pool :=
  { pool with
    fibers := fiber :: pool.fibers
    size := (pool.size + 1) % 2 ^ 32 }

/-- The pool without its last fiber. -/
def pop (pool : Pool) : Pool :=
  { pool with
    fibers := pool.fibers.tail
    size := unsignedSub pool.size 1 }

def use (pool : Pool) (fibers : ℤ) : Pool :=
  { pool with stats := pool.stats.use fibers }

/-- The statistics take notice of the size. -/
def noteFree (pool : Pool) : Pool :=
  { pool with stats := pool.stats.free pool.size }

/-- Fibers have been given back. -/
def unuse (pool : Pool) (fibers : ℤ) : Pool :=
  noteFree
    { pool with
      stats := { pool.stats with inUse := pool.stats.inUse - fibers } }

/-- How many fibers a parent can give to a batch. -/
def fromParent (parent : Pool) (batchSize : ℕ) : ℕ :=
  if parent.size ≤ batchSize then parent.size else batchSize

/-- How many fibers of a batch a parent can take. -/
def toParent (parent : Pool) (batchSize : ℕ) : ℕ :=
  if batchSize ≤ unsignedSub parent.capacity parent.size then batchSize
  else unsignedSub parent.capacity parent.size

end Pool

/-- Who has called `fiber_pool_allocate_batch`. -/
inductive Caller where
  | init
  | allocate

/-- Where a worker is.  The loops count the fibers that have been moved. -/
inductive Pc where
  | unstarted
  | idle
  | allocateBatch (batchSize : ℕ) (caller : Caller)
  | fromParent (i fromParent batchSize : ℕ) (caller : Caller)
  | fromSystem (i batchSize : ℕ) (caller : Caller)
  | take
  | freeBatch (batchSize : ℕ) (fiberToReturn : Option Fiber)
  | toParent (i toParent batchSize : ℕ) (fiberToReturn : Option Fiber)
  | toSystem (i batchSize : ℕ) (fiberToReturn : Option Fiber)
  | put (fiberToReturn : Option Fiber)

namespace Pc

/-- Between `fiber_pool_lock` and `fiber_pool_unlock`. -/
def locked : Pc → Bool
  | .fromParent .. | .toParent .. => true
  | _ => false

/-- The fiber that the worker is about to give back. -/
def returned : Pc → Option Fiber
  | .freeBatch _ fiberToReturn | .toParent _ _ _ fiberToReturn
  | .toSystem _ _ fiberToReturn | .put fiberToReturn => fiberToReturn
  | _ => none

end Pc

/-- `fiber_pool_cap`, an `unsigned int` of which `set_fiber_pool_cap` demands
at least this. -/
structure FiberPoolCap where
  cap : ℕ
  atLeast : 8 ≤ cap
  fits : cap < 2 ^ 32

structure State (nworkers : ℕ) where
  global : Pool
  mutexOwner : Option (Fin nworkers)
  pools : Fin nworkers → Pool
  pc : Fin nworkers → Pc
  /-- The number of fibers that have been created. -/
  created : ℕ
  handedOut : List Fiber
  deallocated : List Fiber

variable {nworkers : ℕ}

/-- The worker goes on with another pool. -/
def State.goto (s : State nworkers) (w : Fin nworkers) (pool : Pool) (pc : Pc) :
    State nworkers :=
  { s with
    pools := Function.update s.pools w pool
    pc := Function.update s.pc w pc }

section Goto

variable {s : State nworkers} {w : Fin nworkers} {pool : Pool} {pc : Pc}

@[simp] theorem goto_pools :
    (s.goto w pool pc).pools = Function.update s.pools w pool := rfl

@[simp] theorem goto_pc :
    (s.goto w pool pc).pc = Function.update s.pc w pc := rfl

@[simp] theorem goto_global : (s.goto w pool pc).global = s.global := rfl

@[simp] theorem goto_mutexOwner :
    (s.goto w pool pc).mutexOwner = s.mutexOwner := rfl

@[simp] theorem goto_created : (s.goto w pool pc).created = s.created := rfl

@[simp] theorem goto_handedOut :
    (s.goto w pool pc).handedOut = s.handedOut := rfl

@[simp] theorem goto_deallocated :
    (s.goto w pool pc).deallocated = s.deallocated := rfl

end Goto

/-- After `fiber_pool_allocate_batch`. -/
def afterAllocate (pool : Pool) : Caller → Pool × Pc
  | .init => ({ pool with stats := .init }, .idle)
  | .allocate => (pool, .take)

/-- `cilk_fiber_pool_global_init`. -/
def State.start (options : FiberPoolCap) : State nworkers where
  global := .init (10 * options.cap % 2 ^ 32)
  mutexOwner := none
  pools := fun _ => .init 0
  pc := fun _ => .unstarted
  created := 0
  handedOut := []
  deallocated := []

inductive Action (nworkers : ℕ) where
  | perWorkerInit (w : Fin nworkers)
  | allocateFromPool (w : Fin nworkers)
  | deallocateToPool (w : Fin nworkers) (fiberToReturn : Option Fiber)
  | allocateRoot
  | internal (w : Fin nworkers)

/-- Fibers that are popped have to be there. -/
inductive Step (options : FiberPoolCap) :
    State nworkers → Action nworkers → State nworkers → Prop where
  | perWorkerInit {s : State nworkers} {w : Fin nworkers} :
      s.pc w = .unstarted →
      Step options s (.perWorkerInit w)
        (s.goto w (.init options.cap) (.allocateBatch (options.cap / 2) .init))
  | allocateFromPool {s : State nworkers} {w : Fin nworkers} :
      s.pc w = .idle →
      Step options s (.allocateFromPool w)
        (s.goto w (s.pools w)
          (if (s.pools w).size = 0 then
            .allocateBatch ((s.pools w).capacity / 2) .allocate
          else .take))
  | deallocateToPool {s : State nworkers} {w : Fin nworkers}
      {fiberToReturn : Option Fiber} :
      s.pc w = .idle →
      (∀ fiber, fiberToReturn = some fiber →
        fiber ∈ s.handedOut ∧ ∀ v, (s.pc v).returned ≠ some fiber) →
      Step options s (.deallocateToPool w fiberToReturn)
        (s.goto w (s.pools w)
          (if (s.pools w).size = (s.pools w).capacity then
            .freeBatch ((s.pools w).capacity / 2) fiberToReturn
          else .put fiberToReturn))
  /-- The fiber of the root closure does not come from a pool. -/
  | allocateRoot {s : State nworkers} :
      Step options s .allocateRoot
        { s with
          created := s.created + 1
          handedOut := s.created :: s.handedOut }
  | lockToAllocate {s : State nworkers} {w : Fin nworkers} {batchSize : ℕ}
      {caller : Caller} :
      s.pc w = .allocateBatch batchSize caller → s.mutexOwner = none →
      Step options s (.internal w)
        { s.goto w
            ((s.pools w).increaseCapacity
              ((batchSize + (s.pools w).size) % 2 ^ 32))
            (.fromParent 0 (s.global.fromParent batchSize) batchSize caller) with
          mutexOwner := some w }
  | takeFromParent {s : State nworkers} {w : Fin nworkers}
      {i fromParent batchSize : ℕ} {caller : Caller} {fiber : Fiber} :
      s.pc w = .fromParent i fromParent batchSize caller → i < fromParent →
      s.global.fibers.head? = some fiber →
      Step options s (.internal w)
        { s.goto w ((s.pools w).push fiber)
            (.fromParent (i + 1) fromParent batchSize caller) with
          global := s.global.pop }
  | unlockToAllocate {s : State nworkers} {w : Fin nworkers}
      {i fromParent batchSize : ℕ} {caller : Caller} :
      s.pc w = .fromParent i fromParent batchSize caller → fromParent ≤ i →
      Step options s (.internal w)
        { s.goto w (s.pools w) (.fromSystem fromParent batchSize caller) with
          global := s.global.use fromParent
          mutexOwner := none }
  | allocateFiber {s : State nworkers} {w : Fin nworkers} {i batchSize : ℕ}
      {caller : Caller} :
      s.pc w = .fromSystem i batchSize caller → i < batchSize →
      Step options s (.internal w)
        { s.goto w ((s.pools w).push s.created)
            (.fromSystem (i + 1) batchSize caller) with
          created := s.created + 1 }
  | batchAllocated {s : State nworkers} {w : Fin nworkers} {i batchSize : ℕ}
      {caller : Caller} :
      s.pc w = .fromSystem i batchSize caller → batchSize ≤ i →
      Step options s (.internal w)
        (s.goto w (afterAllocate (s.pools w).noteFree caller).1
          (afterAllocate (s.pools w).noteFree caller).2)
  | take {s : State nworkers} {w : Fin nworkers} {fiber : Fiber} :
      s.pc w = .take → (s.pools w).fibers.head? = some fiber →
      Step options s (.internal w)
        { s.goto w ((s.pools w).pop.use 1) .idle with
          handedOut := fiber :: s.handedOut }
  | lockToFree {s : State nworkers} {w : Fin nworkers} {batchSize : ℕ}
      {fiberToReturn : Option Fiber} :
      s.pc w = .freeBatch batchSize fiberToReturn → s.mutexOwner = none →
      Step options s (.internal w)
        { s.goto w (s.pools w)
            (.toParent 0 (s.global.toParent batchSize) batchSize
              fiberToReturn) with
          mutexOwner := some w }
  | giveToParent {s : State nworkers} {w : Fin nworkers}
      {i toParent batchSize : ℕ} {fiberToReturn : Option Fiber} {fiber : Fiber} :
      s.pc w = .toParent i toParent batchSize fiberToReturn → i < toParent →
      (s.pools w).fibers.head? = some fiber →
      Step options s (.internal w)
        { s.goto w (s.pools w).pop
            (.toParent (i + 1) toParent batchSize fiberToReturn) with
          global := s.global.push fiber }
  | unlockToFree {s : State nworkers} {w : Fin nworkers}
      {i toParent batchSize : ℕ} {fiberToReturn : Option Fiber} :
      s.pc w = .toParent i toParent batchSize fiberToReturn → toParent ≤ i →
      Step options s (.internal w)
        { s.goto w (s.pools w) (.toSystem toParent batchSize fiberToReturn) with
          global := s.global.unuse toParent
          mutexOwner := none }
  | deallocateFiber {s : State nworkers} {w : Fin nworkers} {i batchSize : ℕ}
      {fiberToReturn : Option Fiber} {fiber : Fiber} :
      s.pc w = .toSystem i batchSize fiberToReturn → i < batchSize →
      (s.pools w).fibers.head? = some fiber →
      Step options s (.internal w)
        { s.goto w (s.pools w).pop
            (.toSystem (i + 1) batchSize fiberToReturn) with
          deallocated := fiber :: s.deallocated }
  | batchFreed {s : State nworkers} {w : Fin nworkers} {i batchSize : ℕ}
      {fiberToReturn : Option Fiber} :
      s.pc w = .toSystem i batchSize fiberToReturn → batchSize ≤ i →
      Step options s (.internal w)
        (s.goto w (s.pools w) (.put fiberToReturn))
  | put {s : State nworkers} {w : Fin nworkers} {fiber : Fiber} :
      s.pc w = .put (some fiber) →
      Step options s (.internal w)
        { s.goto w (((s.pools w).push fiber).unuse 1) .idle with
          handedOut := s.handedOut.erase fiber }
  | putNothing {s : State nworkers} {w : Fin nworkers} :
      s.pc w = .put none →
      Step options s (.internal w) (s.goto w (s.pools w) .idle)

end Multicilk.FiberPool
