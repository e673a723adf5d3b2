import Multicilk.Allocator.InternalMalloc
import Multicilk.Support.Totals

/-!
# Shutting the runtime down

When the workers have been stopped, the root closure and its fiber are freed to
the global pool, without a worker.  Each worker, the last one first, then frees
what it has kept for itself and gives its free lists back.  At the end what is
left in the global fiber pool is freed.  On the way the books are checked.
-/

namespace Multicilk.Allocator

open Totals

section Books

variable {nworkers : ℕ}

def freeBytes (desc : ImDesc) : ℤ :=
  total (fun index bucket => bucket.freeListSize * bucketSizes index)
    desc.buckets

def wastedBytes (desc : ImDesc) : ℤ :=
  total (fun _ bucket => bucket.wasted) desc.buckets

def workersUsedAndFree (heap : Heap nworkers) : ℤ :=
  total (fun _ desc => desc.used) heap.workers +
    total (fun _ desc => freeBytes desc) heap.workers +
    total (fun _ desc => wastedBytes desc) heap.workers

/-- The test in `internal_malloc_global_check` that compares the global state
with the workers. -/
def globalCheck (heap : Heap nworkers) : Bool :=
  heap.global.imDesc.used = workersUsedAndFree heap

/-- What `sum_allocations` computes for a bucket. -/
def sumAllocations (heap : Heap nworkers) (index : BucketIndex) : ℤ :=
  total (fun _ desc => (desc.buckets index).allocated) heap.workers

end Books

namespace Heap

variable {nworkers : ℕ}

/-- A block is freed after the workers have been stopped. -/
def cilkInternalFreeGlobal (heap : Heap nworkers) (p : Block) (size : ℕ)
    (tag : ImTag) : Heap nworkers :=
  match sizeToBucket size with
  | none => heap
  | some whichBucket =>
      let desc := heap.global.imDesc.modifyBucket whichBucket (.addToFreeList p)
      { heap with
        global.imDesc :=
          { desc with
            numMalloc :=
              Function.update desc.numMalloc tag (desc.numMalloc tag - 1)
            used := desc.used - bucketSizes whichBucket } }

/-- A worker gives a whole free list back. -/
def flushBucket (w : Fin nworkers) (heap : Heap nworkers)
    (index : BucketIndex) : Heap nworkers :=
  heap.freeWhile w (bucketSizes index) index (·.head.isSome)
    (heap.bucket w index).freeList.length

/-- The global state takes over what a worker has counted for each tag. -/
def moveNumMalloc (w : Fin nworkers) (heap : Heap nworkers) : Heap nworkers :=
  let moved := (heap.workers w).numMalloc
  { heap with
      global.imDesc.numMalloc := fun tag =>
        heap.global.imDesc.numMalloc tag + moved tag }
    |>.modifyDesc w fun desc => { desc with numMalloc := fun _ => 0 }

/-- `cilk_internal_malloc_per_worker_terminate`, between its checks. -/
def perWorkerTerminate (heap : Heap nworkers) (w : Fin nworkers) :
    Heap nworkers :=
  ((List.finRange 7).foldl (flushBucket w) heap).moveNumMalloc w

end Heap

/-- The sizes of the structures that the runtime itself allocates. -/
structure RuntimeSizes where
  closure : ℕ
  fiber : ℕ
  closureSmall : closure ≤ sizeThresh
  fiberSmall : fiber ≤ sizeThresh

/-- How far the runtime is.  In `terminating` and its two successors `left`
workers have not given their free lists back. -/
inductive Phase where
  | starting
  | closureCreated (closure : Block)
  | running (closure fiber : Block)
  | fiberFreed (closure : Block)
  | terminating (left : ℕ)
  | checked (left : ℕ)
  | flushed (left : ℕ)
  | globalTerminating
  | deinit

/-- Who may allocate and free blocks as a client. -/
def Phase.workersRun : Phase → Bool
  | .starting | .closureCreated _ | .running _ _ => true
  | _ => false

/-- Worker 0 always exists. -/
structure Runtime (others : ℕ) where
  memory : State (others + 1)
  phase : Phase

inductive Event (others : ℕ) where
  | client (action : Action (others + 1))
  | createClosure
  | createFiber
  | freeRootFiber
  | freeRootClosure
  | terminateFree (w : Fin (others + 1)) (allocation : Allocation)
  | check
  | flush
  | globalTerminate
  | poolFree (allocation : Allocation)

variable {others : ℕ}

/-- From the start of a runtime to `workers_deinit`. -/
inductive RuntimeStep (sizes : RuntimeSizes) :
    Runtime others → Event others → Runtime others → Prop where
  | client {s : Runtime others} {action : Action (others + 1)}
      {memory : State (others + 1)} :
      s.phase.workersRun = true →
      Step s.memory action memory →
      RuntimeStep sizes s (.client action) { s with memory }
  | createClosure {memory : State (others + 1)} {closure : Block} :
      (memory.heap.cilkInternalMalloc 0 sizes.closure .closure).1 =
        some (.block closure) →
      RuntimeStep sizes ⟨memory, .starting⟩ .createClosure
        ⟨{ memory with
            heap := (memory.heap.cilkInternalMalloc 0 sizes.closure .closure).2 },
          .closureCreated closure⟩
  | createFiber {memory : State (others + 1)} {closure fiber : Block} :
      (memory.heap.cilkInternalMalloc 0 sizes.fiber .fiber).1 =
        some (.block fiber) →
      RuntimeStep sizes ⟨memory, .closureCreated closure⟩ .createFiber
        ⟨{ memory with
            heap := (memory.heap.cilkInternalMalloc 0 sizes.fiber .fiber).2 },
          .running closure fiber⟩
  | freeRootFiber {memory : State (others + 1)} {closure fiber : Block} :
      RuntimeStep sizes ⟨memory, .running closure fiber⟩ .freeRootFiber
        ⟨{ memory with
            heap := memory.heap.cilkInternalFreeGlobal fiber sizes.fiber .fiber },
          .fiberFreed closure⟩
  | freeRootClosure {memory : State (others + 1)} {closure : Block} :
      RuntimeStep sizes ⟨memory, .fiberFreed closure⟩ .freeRootClosure
        ⟨{ memory with
            heap :=
              memory.heap.cilkInternalFreeGlobal closure sizes.closure .closure },
          .terminating (others + 1)⟩
  | terminateFree {memory next : State (others + 1)} {w : Fin (others + 1)}
      {allocation : Allocation} :
      Step memory (.free w allocation) next →
      RuntimeStep sizes ⟨memory, .terminating (w + 1)⟩
        (.terminateFree w allocation) ⟨next, .terminating (w + 1)⟩
  | checkBefore {memory : State (others + 1)} {left : ℕ} :
      RuntimeStep sizes ⟨memory, .terminating (left + 1)⟩ .check
        ⟨memory, .checked (left + 1)⟩
  | flush {memory : State (others + 1)} {w : Fin (others + 1)} :
      RuntimeStep sizes ⟨memory, .checked (w + 1)⟩ .flush
        ⟨{ memory with heap := memory.heap.perWorkerTerminate w },
          .flushed (w + 1)⟩
  | checkAfter {memory : State (others + 1)} {left : ℕ} :
      RuntimeStep sizes ⟨memory, .flushed (left + 1)⟩ .check
        ⟨memory, .terminating left⟩
  | globalTerminate {memory : State (others + 1)} :
      RuntimeStep sizes ⟨memory, .terminating 0⟩ .globalTerminate
        ⟨memory, .globalTerminating⟩
  | poolFree {memory : State (others + 1)} {before after : List Allocation}
      {allocation : Allocation} :
      memory.live = before ++ allocation :: after →
      RuntimeStep sizes ⟨memory, .globalTerminating⟩ (.poolFree allocation)
        ⟨⟨memory.heap.cilkInternalFreeGlobal allocation.block allocation.size
            allocation.tag, before ++ after⟩, .globalTerminating⟩
  | checkGlobal {memory : State (others + 1)} :
      RuntimeStep sizes ⟨memory, .globalTerminating⟩ .check ⟨memory, .deinit⟩

/-- The runtime before anything has been allocated. -/
def Runtime.start (others : ℕ) : Runtime others where
  memory := initial (others + 1)
  phase := .starting

end Multicilk.Allocator
