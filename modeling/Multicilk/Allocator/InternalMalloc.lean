import Mathlib.Algebra.Group.Nat.Defs
import Mathlib.Data.Fin.VecNotation
import Mathlib.Data.List.FinRange
import Mathlib.Data.Nat.Notation
import Mathlib.Logic.Function.Iterate

/-!
# The internal memory allocator

Blocks are cut off chunks that come from the system, and kept in free lists, one
for each size, of the workers and of the global state.  A free list is linked
through its blocks; here it is the list of these.  The length of a free list is
counted in 32 bits; the signed counters do not overflow.  Chunks are numbered in
the order in which the system has returned them, and do not overlap.
-/

namespace Multicilk.Allocator

/-- An index into `bucket_sizes`. -/
abbrev BucketIndex := Fin 7

def bucketSizes : BucketIndex → ℕ := ![32, 64, 128, 256, 512, 1024, 2048]

def bucketCapacity : BucketIndex → ℕ := ![256, 128, 64, 64, 32, 16, 8]

/-- `INTERNAL_MALLOC_CHUNK_SIZE`. -/
def internalMallocChunkSize : ℕ := 32 * 1024

/-- `MEM_LIST_SIZE`. -/
def memListSize : ℕ := 8

/-- `SIZE_THRESH`. -/
def sizeThresh : ℕ := 2048

inductive ImTag where
  | unclassified
  | closure
  | fiber
  | reducerMap
deriving DecidableEq

structure Block where
  chunk : ℕ
  offset : ℕ
deriving DecidableEq

def sizeToBucket (size : ℕ) : Option BucketIndex :=
  (List.finRange 7).find? fun index => size ≤ bucketSizes index

structure ImBucket where
  freeList : List Block
  /-- An unsigned counter of 32 bits. -/
  freeListSize : ℕ
  freeListLimit : ℕ
  allocated : ℤ
  maxAllocated : ℤ
  wasted : ℤ

structure ImDesc where
  buckets : BucketIndex → ImBucket
  used : ℤ
  numMalloc : ImTag → ℤ

structure GlobalImPool where
  /-- Offsets in the last chunk. -/
  memBegin : ℕ
  memEnd : ℕ
  /-- `mem_list_index + 1`. -/
  chunks : ℕ
  memListSize : ℕ
  allocated : ℕ
  wasted : ℕ

structure GlobalState where
  imPool : GlobalImPool
  imDesc : ImDesc
  /-- The blocks that have been cut off so far, with their buckets. -/
  carved : List (Block × BucketIndex)

structure Heap (nworkers : ℕ) where
  global : GlobalState
  workers : Fin nworkers → ImDesc

namespace ImBucket

def addToFreeList (p : Block) (bucket : ImBucket) : ImBucket :=
  { bucket with
    freeList := p :: bucket.freeList
    freeListSize := (bucket.freeListSize + 1) % 2 ^ 32 }

/-- `remove_from_free_list`, on the block that is removed and on the bucket. -/
def head (bucket : ImBucket) : Option Block := bucket.freeList.head?

def removeFromFreeList (bucket : ImBucket) : ImBucket :=
  match bucket.freeList with
  | [] => bucket
  | _ :: rest =>
      { bucket with
        freeList := rest
        freeListSize := (bucket.freeListSize + (2 ^ 32 - 1)) % 2 ^ 32 }

/-- `init_im_buckets`. -/
def init (index : BucketIndex) : ImBucket where
  freeList := []
  freeListSize := 0
  freeListLimit := bucketCapacity index
  allocated := 0
  maxAllocated := 0
  wasted := 0

end ImBucket

namespace ImDesc

def modifyBucket (desc : ImDesc) (index : BucketIndex)
    (change : ImBucket → ImBucket) : ImDesc :=
  { desc with
    buckets := Function.update desc.buckets index
      (change (desc.buckets index)) }

def init : ImDesc where
  buckets := ImBucket.init
  used := 0
  numMalloc := fun _ => 0

end ImDesc

namespace GlobalState

def extendGlobalPool (pool : GlobalImPool) : GlobalImPool where
  memBegin := 0
  memEnd := internalMallocChunkSize
  chunks := pool.chunks + 1
  memListSize :=
    if pool.chunks < pool.memListSize then pool.memListSize
    else pool.memListSize + Allocator.memListSize
  allocated := pool.allocated + internalMallocChunkSize
  wasted := pool.wasted + (pool.memEnd - pool.memBegin)

/-- The pool from which the next block of this size is cut off. -/
def poolFor (size : ℕ) (pool : GlobalImPool) : GlobalImPool :=
  if pool.memEnd < pool.memBegin + size then extendGlobalPool pool else pool

/-- `global_im_alloc`, on the block that is returned and on the state. -/
def allocatedBlock (global : GlobalState) (size : ℕ)
    (whichBucket : BucketIndex) : Block :=
  match (global.imDesc.buckets whichBucket).head with
  | some mem => mem
  | none =>
      let pool := poolFor size global.imPool
      ⟨pool.chunks - 1, pool.memBegin⟩

def globalImAlloc (global : GlobalState) (size : ℕ)
    (whichBucket : BucketIndex) : GlobalState :=
  let imDesc := { global.imDesc with used := global.imDesc.used + size }
  match (global.imDesc.buckets whichBucket).head with
  | some _ =>
      { global with
        imDesc := imDesc.modifyBucket whichBucket .removeFromFreeList }
  | none =>
      let pool := poolFor size global.imPool
      { imPool := { pool with memBegin := pool.memBegin + size }
        imDesc
        carved :=
          (⟨pool.chunks - 1, pool.memBegin⟩, whichBucket) :: global.carved }

/-- A block is put back. -/
def takeBack (global : GlobalState) (size : ℕ) (whichBucket : BucketIndex)
    (mem : Block) : GlobalState :=
  { global with
    imDesc :=
      { global.imDesc.modifyBucket whichBucket (.addToFreeList mem) with
        used := global.imDesc.used - size } }

def init : GlobalState where
  imPool :=
    { memBegin := 0
      memEnd := 0
      chunks := 0
      memListSize := memListSize
      allocated := 0
      wasted := 0 }
  imDesc := ImDesc.init
  carved := []

end GlobalState

namespace Heap

variable {nworkers : ℕ}

def modifyDesc (heap : Heap nworkers) (w : Fin nworkers)
    (change : ImDesc → ImDesc) : Heap nworkers :=
  { heap with
    workers := Function.update heap.workers w (change (heap.workers w)) }

def modifyBucket (heap : Heap nworkers) (w : Fin nworkers)
    (index : BucketIndex) (change : ImBucket → ImBucket) : Heap nworkers :=
  heap.modifyDesc w (·.modifyBucket index change)

def bucket (heap : Heap nworkers) (w : Fin nworkers) (index : BucketIndex) :
    ImBucket :=
  (heap.workers w).buckets index

section Batches

variable (w : Fin nworkers) (size : ℕ) (whichBucket : BucketIndex)

/-- The body of the loop in `im_allocate_batch`. -/
def allocateOne (heap : Heap nworkers) : Heap nworkers :=
  { heap with global := heap.global.globalImAlloc size whichBucket }
    |>.modifyBucket w whichBucket
      (.addToFreeList (heap.global.allocatedBlock size whichBucket))

def batchSize (whichBucket : BucketIndex) : ℕ := bucketCapacity whichBucket / 2

def countBatch (bucket : ImBucket) : ImBucket :=
  let allocated := bucket.allocated + batchSize whichBucket
  { bucket with
    allocated
    maxAllocated :=
      if bucket.maxAllocated < allocated then allocated
      else bucket.maxAllocated }

def imAllocateBatch (heap : Heap nworkers) : Heap nworkers :=
  (allocateOne w size whichBucket)^[batchSize whichBucket] heap
    |>.modifyBucket w whichBucket (countBatch whichBucket)

/-- The body of the loop in `im_free_batch`, which ends when the free list is
empty. -/
def freeOne (heap : Heap nworkers) : Option (Heap nworkers) :=
  (heap.bucket w whichBucket).head.map fun mem =>
    { heap with global := heap.global.takeBack size whichBucket mem }
      |>.modifyBucket w whichBucket fun bucket =>
        { bucket.removeFromFreeList with allocated := bucket.allocated - 1 }

def freeMany : ℕ → Heap nworkers → Heap nworkers
  | 0, heap => heap
  | count + 1, heap =>
      match heap.freeOne w size whichBucket with
      | none => heap
      | some next => freeMany count next

def imFreeBatch (heap : Heap nworkers) : Heap nworkers :=
  heap.freeMany w size whichBucket (batchSize whichBucket)

/-- Batches are freed until the condition does not hold any more. -/
def freeWhile (condition : ImBucket → Bool) : ℕ → Heap nworkers → Heap nworkers
  | 0, heap => heap
  | fuel + 1, heap =>
      if condition (heap.bucket w whichBucket) then
        freeWhile condition fuel (heap.imFreeBatch w size whichBucket)
      else heap

end Batches

inductive Memory where
  | system
  | block (mem : Block)
deriving DecidableEq

/-- What `cilk_internal_malloc` writes down before it takes a block. -/
def countMalloc (size : ℕ) (tag : ImTag) (whichBucket : BucketIndex)
    (desc : ImDesc) : ImDesc :=
  { desc with
      used := desc.used + size
      numMalloc := Function.update desc.numMalloc tag (desc.numMalloc tag + 1) }
    |>.modifyBucket whichBucket fun bucket =>
      { bucket with
        wasted := bucket.wasted + (bucketSizes whichBucket - size) }

/-- The free list of the worker, with a batch from the global pool if it has
been empty. -/
def refill (heap : Heap nworkers) (w : Fin nworkers)
    (whichBucket : BucketIndex) : Heap nworkers :=
  if (heap.bucket w whichBucket).head.isNone then
    heap.imAllocateBatch w (bucketSizes whichBucket) whichBucket
  else heap

/-- The first component is `none` where the assertion on the block fails. -/
def cilkInternalMalloc (heap : Heap nworkers) (w : Fin nworkers) (size : ℕ)
    (tag : ImTag) : Option Memory × Heap nworkers :=
  match sizeToBucket size with
  | none => (some .system, heap)
  | some whichBucket =>
      let filled :=
        (heap.modifyDesc w (countMalloc size tag whichBucket)).refill w
          whichBucket
      ((filled.bucket w whichBucket).head.map .block,
        filled.modifyBucket w whichBucket .removeFromFreeList)

def countFree (size : ℕ) (tag : ImTag) (whichBucket : BucketIndex)
    (desc : ImDesc) : ImDesc :=
  { desc with
      used := desc.used - size
      numMalloc := Function.update desc.numMalloc tag (desc.numMalloc tag - 1) }
    |>.modifyBucket whichBucket fun bucket =>
      { bucket with
        wasted := bucket.wasted - (bucketSizes whichBucket - size) }

/-- A block is given back to a worker, without the batches. -/
def giveBack (heap : Heap nworkers) (w : Fin nworkers) (p : Block) (size : ℕ)
    (tag : ImTag) (whichBucket : BucketIndex) : Heap nworkers :=
  heap.modifyDesc w (countFree size tag whichBucket)
    |>.modifyBucket w whichBucket (.addToFreeList p)

def overLimit (bucket : ImBucket) : Bool :=
  bucket.freeListLimit < bucket.freeListSize

def cilkInternalFree (heap : Heap nworkers) (w : Fin nworkers) (p : Block)
    (size : ℕ) (tag : ImTag) : Heap nworkers :=
  match sizeToBucket size with
  | none => heap
  | some whichBucket =>
      let freed := heap.giveBack w p size tag whichBucket
      freed.freeWhile w (bucketSizes whichBucket) whichBucket overLimit
        (freed.bucket w whichBucket).freeList.length

def init : Heap nworkers where
  global := GlobalState.init
  workers := fun _ => ImDesc.init

end Heap

/-- A block that has been handed out to the client. -/
structure Allocation where
  block : Block
  size : ℕ
  tag : ImTag

structure State (nworkers : ℕ) where
  heap : Heap nworkers
  live : List Allocation

inductive Action (nworkers : ℕ) where
  | malloc (w : Fin nworkers) (size : ℕ) (tag : ImTag)
  | free (w : Fin nworkers) (allocation : Allocation)

/-- The calls of the clients on all workers.  A block is freed with the size and
the tag with which it has been allocated. -/
inductive Step {nworkers : ℕ} :
    State nworkers → Action nworkers → State nworkers → Prop where
  | malloc {s : State nworkers} {w : Fin nworkers} {size : ℕ} {tag : ImTag}
      {block : Block} :
      size ≤ sizeThresh →
      (s.heap.cilkInternalMalloc w size tag).1 = some (.block block) →
      Step s (.malloc w size tag)
        ⟨(s.heap.cilkInternalMalloc w size tag).2, ⟨block, size, tag⟩ :: s.live⟩
  | free {s : State nworkers} {w : Fin nworkers}
      {before after : List Allocation} {allocation : Allocation} :
      s.live = before ++ allocation :: after →
      Step s (.free w allocation)
        ⟨s.heap.cilkInternalFree w allocation.block allocation.size
          allocation.tag, before ++ after⟩

def initial (nworkers : ℕ) : State nworkers where
  heap := Heap.init
  live := []

end Multicilk.Allocator
