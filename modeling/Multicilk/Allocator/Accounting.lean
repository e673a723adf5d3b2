import Multicilk.Allocator.ExactlyOnePlace
import Multicilk.Allocator.Shutdown

/-!
# What the books say about an operation

Two sums over the workers are compared with the rest of the state: the bytes
that they count as used or wasted or have in their free lists, and the blocks
that they have obtained but do not keep in their free lists.  As long as these
lists are within their limits, the books say how long they are.
-/

namespace Multicilk.Allocator

open Totals

variable {nworkers : ℕ}

/-- The bytes in the free lists. -/
def listBytes (desc : ImDesc) : ℤ :=
  total (fun index bucket => bucket.freeList.length * bucketSizes index)
    desc.buckets

/-- The bytes of a bucket that are in the free list or count as wasted. -/
def ImBucket.bytes (index : BucketIndex) (bucket : ImBucket) : ℤ :=
  bucket.freeList.length * bucketSizes index + bucket.wasted

/-- The blocks that have been obtained and are not in the free list. -/
def ImBucket.out (bucket : ImBucket) : ℤ :=
  bucket.allocated - bucket.freeList.length

def ImDesc.bytes (desc : ImDesc) : ℤ :=
  desc.used + total ImBucket.bytes desc.buckets

def workersBytes (heap : Heap nworkers) : ℤ :=
  total (fun _ => ImDesc.bytes) heap.workers

/-- How much more the workers have than the global state counts for them. -/
def debt (heap : Heap nworkers) : ℤ :=
  workersBytes heap - heap.global.imDesc.used

theorem freeBytes_eq {desc : ImDesc}
    (counted : ∀ index, (desc.buckets index).freeListSize =
      (desc.buckets index).freeList.length) :
    freeBytes desc = listBytes desc := by
  simp only [freeBytes, listBytes, total, counted]

theorem workersUsedAndFree_eq {heap : Heap nworkers}
    (counted : ∀ w index, (heap.bucket w index).freeListSize =
      (heap.bucket w index).freeList.length) :
    workersUsedAndFree heap = workersBytes heap := by
  have perWorker : ∀ w, (heap.workers w).bytes = (heap.workers w).used +
      freeBytes (heap.workers w) + wastedBytes (heap.workers w) := by
    intro w
    have sums : total ImBucket.bytes (heap.workers w).buckets =
        listBytes (heap.workers w) + wastedBytes (heap.workers w) := total_add
    rw [ImDesc.bytes, sums, freeBytes_eq (counted w), Int.add_assoc]
  unfold workersUsedAndFree
  rw [← total_add, ← total_add]
  exact Finset.sum_congr rfl fun w _ => (perWorker w).symm

theorem globalCheck_iff {heap : Heap nworkers} (kept : Kept heap)
    (short : Short heap) : globalCheck heap = true ↔ debt heap = 0 := by
  rw [globalCheck, debt, decide_eq_true_iff,
    workersUsedAndFree_eq (short.counted kept)]
  omega

/-- The blocks of a bucket that no worker keeps. -/
def out (heap : Heap nworkers) (index : BucketIndex) : ℤ :=
  total (fun _ desc => (desc.buckets index).out) heap.workers

/-- An operation changes the debt by some bytes, and takes some blocks of a
bucket out. -/
structure Booked (bytes : ℤ) (index : BucketIndex) (blocks : ℤ)
    (heap next : Heap nworkers) : Prop where
  kept : Kept next
  debtChange : debt next = debt heap + bytes
  outChange : ∀ other, out next other = out heap other +
    if other = index then blocks else 0

section Rules

variable {heap next last : Heap nworkers} {w : Fin nworkers}
  {index : BucketIndex} {size count : ℕ} {tag : ImTag} {p mem : Block}
  {change : ImBucket → ImBucket} {bytes moreBytes blocks moreBlocks : ℤ}

theorem Booked.refl (kept : Kept heap) : Booked 0 index 0 heap heap :=
  ⟨kept, (Int.add_zero _).symm, fun _ => by simp⟩

theorem Booked.trans (first : Booked bytes index blocks heap next)
    (second : Booked moreBytes index moreBlocks next last) :
    Booked (bytes + moreBytes) index (blocks + moreBlocks) heap last := by
  constructor
  case kept => exact second.kept
  case debtChange =>
    rw [second.debtChange, first.debtChange, Int.add_assoc]
  case outChange =>
    intro other
    rw [second.outChange, first.outChange]
    split <;> omega

theorem bytes_modifyBucket {desc : ImDesc} :
    (desc.modifyBucket index change).bytes = desc.bytes +
      ((change (desc.buckets index)).bytes index -
        (desc.buckets index).bytes index) := by
  have sums : total ImBucket.bytes (desc.modifyBucket index change).buckets =
      total ImBucket.bytes desc.buckets +
        ((change (desc.buckets index)).bytes index -
          (desc.buckets index).bytes index) := total_update
  simp only [ImDesc.bytes, sums]
  exact (Int.add_assoc ..).symm

theorem Booked.modifyDesc {changeDesc : ImDesc → ImDesc}
    (kept : Kept (heap.modifyDesc w changeDesc))
    (bytesChange : (changeDesc (heap.workers w)).bytes =
      (heap.workers w).bytes + bytes)
    (outChange : ∀ other, ((changeDesc (heap.workers w)).buckets other).out =
      ((heap.workers w).buckets other).out +
        if other = index then blocks else 0) :
    Booked bytes index blocks heap (heap.modifyDesc w changeDesc) := by
  constructor
  case kept => exact kept
  case debtChange =>
    have sums : workersBytes (heap.modifyDesc w changeDesc) =
        workersBytes heap + _ := total_update
    have sameGlobal :
        (heap.modifyDesc w changeDesc).global = heap.global := rfl
    rw [bytesChange] at sums
    rw [debt, debt, sums, sameGlobal]
    omega
  case outChange =>
    intro other
    refine total_update.trans (congrArg (out heap other + ·) ?_)
    rw [outChange]
    omega

/-- What a worker does to one bucket, in terms of that bucket. -/
theorem Booked.modifyBucket (kept : Kept heap)
    (changed : ∀ bucket : ImBucket, bucket.Kept index →
      (change bucket).Kept index)
    (bytesChange : (change (heap.bucket w index)).bytes index =
      (heap.bucket w index).bytes index + bytes)
    (outChange : (change (heap.bucket w index)).out =
      (heap.bucket w index).out + blocks) :
    Booked bytes index blocks heap (heap.modifyBucket w index change) := by
  apply Booked.modifyDesc (kept_modifyBucket kept changed)
  · rw [bytes_modifyBucket]
    simp only [Heap.bucket] at bytesChange
    omega
  · intro other
    by_cases same : other = index
    · subst other
      rw [modifyBucket_same, if_pos rfl]
      exact outChange
    · rw [modifyBucket_of_ne same, if_neg same, Int.add_zero]

theorem Booked.modifyGlobal {global : GlobalState} (kept : Kept heap) :
    Booked (heap.global.imDesc.used - global.imDesc.used) index 0 heap
      { heap with global } := by
  constructor
  case kept => exact kept
  case debtChange =>
    have sameWorkers :
        workersBytes { heap with global } = workersBytes heap := rfl
    simp only [debt, sameWorkers]
    omega
  case outChange =>
    intro other
    rw [ite_self, Int.add_zero]
    rfl

theorem Booked.of_eq (booked : Booked bytes index blocks heap next)
    (sameBytes : bytes = moreBytes) (sameBlocks : blocks = moreBlocks) :
    Booked moreBytes index moreBlocks heap next :=
  sameBytes ▸ sameBlocks ▸ booked

theorem addToFreeList_bytes {bucket : ImBucket} :
    (bucket.addToFreeList p).bytes index =
      bucket.bytes index + bucketSizes index := by
  have more : ((bucket.freeList.length + 1 : ℕ) : ℤ) * bucketSizes index =
      bucket.freeList.length * bucketSizes index + bucketSizes index := by
    rw [Nat.cast_succ, Int.add_mul, Int.one_mul]
  simp only [ImBucket.bytes, ImBucket.addToFreeList, List.length_cons, more]
  omega

theorem addToFreeList_out {bucket : ImBucket} :
    (bucket.addToFreeList p).out = bucket.out + -1 := by
  simp only [ImBucket.out, ImBucket.addToFreeList, List.length_cons,
    Nat.cast_succ]
  omega

/-- A free list from which a block is taken is a longer list to which it has
been added. -/
theorem ImBucket.Kept.taken {bucket : ImBucket} (kept : bucket.Kept index)
    (found : bucket.head = some mem) :
    bucket.removeFromFreeList.addToFreeList mem = bucket := by
  have counted := kept.counted
  obtain ⟨list, size, limit, allocated, maxAllocated, wasted⟩ := bucket
  cases list with
  | nil => cases found
  | cons first rest =>
      cases found
      have same : ((size + (2 ^ 32 - 1)) % 2 ^ 32 + 1) % 2 ^ 32 = size := by
        simp only [List.length_cons] at counted
        omega
      simp only [ImBucket.removeFromFreeList, ImBucket.addToFreeList, same]

theorem ImBucket.Kept.removed_bytes {bucket : ImBucket}
    (kept : bucket.Kept index) (found : bucket.head = some mem) :
    bucket.removeFromFreeList.bytes index =
      bucket.bytes index + -bucketSizes index := by
  have longer := congrArg (ImBucket.bytes index) (kept.taken found)
  rw [addToFreeList_bytes] at longer
  omega

theorem ImBucket.Kept.removed_out {bucket : ImBucket}
    (kept : bucket.Kept index) (found : bucket.head = some mem) :
    bucket.removeFromFreeList.out = bucket.out + 1 := by
  have longer := congrArg ImBucket.out (kept.taken found)
  rw [addToFreeList_out] at longer
  omega

end Rules

section Operations

variable {heap next : Heap nworkers} {w : Fin nworkers} {index : BucketIndex}
  {size : ℕ} {tag : ImTag} {p mem : Block}

theorem booked_add (kept : Kept heap) :
    Booked (bucketSizes index) index (-1) heap
      (heap.modifyBucket w index (.addToFreeList p)) :=
  .modifyBucket kept (fun _ => .addToFreeList) addToFreeList_bytes
    addToFreeList_out

theorem booked_remove (kept : Kept heap)
    (found : (heap.bucket w index).head = some mem) :
    Booked (-bucketSizes index) index 1 heap
      (heap.modifyBucket w index .removeFromFreeList) :=
  .modifyBucket kept (fun _ => .removeFromFreeList)
    ((kept w index).removed_bytes found) ((kept w index).removed_out found)

theorem booked_allocateOne (kept : Kept heap) :
    Booked 0 index (-1) heap (heap.allocateOne w (bucketSizes index) index) := by
  have used : (heap.global.globalImAlloc (bucketSizes index) index).imDesc.used =
      heap.global.imDesc.used + bucketSizes index := by
    unfold GlobalState.globalImAlloc
    split <;> rfl
  have taken := @Booked.modifyGlobal _ heap index
    (heap.global.globalImAlloc (bucketSizes index) index) kept
  refine (taken.trans (booked_add taken.kept)).of_eq ?_ (by simp)
  rw [used]
  omega

theorem booked_iterate (count : ℕ) (kept : Kept heap) :
    Booked 0 index (-count) heap
      ((Heap.allocateOne w (bucketSizes index) index)^[count] heap) := by
  induction count generalizing heap with
  | zero => exact .refl kept
  | succ count ih =>
      have first := @booked_allocateOne _ heap w index kept
      rw [Function.iterate_succ_apply]
      apply (first.trans (ih first.kept)).of_eq (Int.add_zero 0)
      rw [Nat.cast_succ]
      omega

theorem booked_allocateBatch (kept : Kept heap) :
    Booked 0 index 0 heap
      (heap.imAllocateBatch w (bucketSizes index) index) := by
  have taken := @booked_iterate _ _ w index (Heap.batchSize index) kept
  have counted := @Booked.modifyBucket _ _ w index (Heap.countBatch index) 0
    (Heap.batchSize index) taken.kept (fun _ => .countBatch)
    (Int.add_zero _).symm (by
      simp only [ImBucket.out, Heap.countBatch]
      omega)
  exact (taken.trans counted).of_eq (Int.add_zero 0) (by omega)

theorem booked_freeOne (kept : Kept heap)
    (freed : heap.freeOne w (bucketSizes index) index = some next) :
    Booked 0 index 0 heap next := by
  obtain ⟨mem, found, rfl⟩ := Option.map_eq_some_iff.mp freed
  have given := @Booked.modifyGlobal _ heap index
    (heap.global.takeBack (bucketSizes index) index mem) kept
  have removed := (kept w index).removed_out found
  have taken := @Booked.modifyBucket _
    { heap with
      global := heap.global.takeBack (bucketSizes index) index mem }
    w index
    (fun bucket =>
      { bucket.removeFromFreeList with allocated := bucket.allocated - 1 })
    (-bucketSizes index) 0 kept (fun _ => .uncount)
    ((kept w index).removed_bytes found) (by
      obtain ⟨sameAllocated, -⟩ :=
        (heap.bucket w index).removeFromFreeList_counters
      simp only [ImBucket.out, Heap.bucket] at removed sameAllocated ⊢
      omega)
  refine (given.trans taken).of_eq ?_ (Int.add_zero 0)
  simp only [GlobalState.takeBack]
  omega

theorem booked_freeMany (count : ℕ) (kept : Kept heap) :
    Booked 0 index 0 heap
      (heap.freeMany w (bucketSizes index) index count) := by
  induction count generalizing heap with
  | zero => exact .refl kept
  | succ count ih =>
      cases freed : heap.freeOne w (bucketSizes index) index with
      | none =>
          simp only [Heap.freeMany, freed]
          exact .refl kept
      | some next =>
          have first := booked_freeOne kept freed
          simp only [Heap.freeMany, freed]
          exact first.trans (ih first.kept)

theorem booked_freeWhile (condition : ImBucket → Bool) (fuel : ℕ)
    (kept : Kept heap) :
    Booked 0 index 0 heap
      (heap.freeWhile w (bucketSizes index) index condition fuel) := by
  induction fuel generalizing heap with
  | zero => exact .refl kept
  | succ fuel ih =>
      rw [Heap.freeWhile]
      split
      next =>
          have batch : Booked 0 index 0 heap
              (heap.imFreeBatch w (bucketSizes index) index) :=
            booked_freeMany _ kept
          exact batch.trans (ih batch.kept)
      next => exact .refl kept

/-- Bytes are counted as used, and others as wasted. -/
theorem booked_count {change : ImDesc → ImDesc} {used wasted : ℤ}
    (kept : Kept heap)
    (sameBuckets : ∀ desc : ImDesc, (change desc).buckets =
      (desc.modifyBucket index (.waste wasted)).buckets)
    (sameUsed : ∀ desc : ImDesc, (change desc).used = desc.used + used) :
    Booked (used + wasted) index 0 heap (heap.modifyDesc w change) := by
  apply Booked.modifyDesc
  · intro other otherIndex
    rw [bucket_modifyDesc sameBuckets]
    exact kept_modifyBucket kept (fun _ => .waste) other otherIndex
  · have bytes := @bytes_modifyBucket index (.waste wasted) (heap.workers w)
    have more : (((heap.workers w).buckets index).waste wasted).bytes index =
        ((heap.workers w).buckets index).bytes index + wasted :=
      (Int.add_assoc ..).symm
    have unused : ((heap.workers w).modifyBucket index (.waste wasted)).used =
        (heap.workers w).used := rfl
    rw [ImDesc.bytes, ImDesc.bytes, more, unused] at bytes
    rw [ImDesc.bytes, ImDesc.bytes, sameBuckets, sameUsed]
    omega
  · intro other
    rw [sameBuckets, ite_self, Int.add_zero]
    by_cases same : other = index
    · subst other
      rw [modifyBucket_same]
      rfl
    · rw [modifyBucket_of_ne same]

theorem booked_countMalloc (kept : Kept heap) :
    Booked (bucketSizes index) index 0 heap
      (heap.modifyDesc w (Heap.countMalloc size tag index)) := by
  refine (@booked_count _ _ w index (Heap.countMalloc size tag index) size
    (bucketSizes index - size) kept (fun _ => rfl) (fun _ => rfl)).of_eq ?_ rfl
  omega

theorem booked_countFree (kept : Kept heap) :
    Booked (-bucketSizes index) index 0 heap
      (heap.modifyDesc w (Heap.countFree size tag index)) := by
  refine (@booked_count _ _ w index (Heap.countFree size tag index) (-size)
    (-(bucketSizes index - size)) kept (fun _ => rfl) (fun _ => rfl)).of_eq ?_ rfl
  omega

theorem booked_refill (kept : Kept heap) :
    Booked 0 index 0 heap (heap.refill w index) := by
  unfold Heap.refill
  split
  next => exact booked_allocateBatch kept
  next => exact .refl kept

/-- A block is handed out. -/
theorem booked_malloc (kept : Kept heap)
    (found : sizeToBucket size = some index)
    (handed : (heap.cilkInternalMalloc w size tag).1 = some (.block mem)) :
    Booked 0 index 1 heap (heap.cilkInternalMalloc w size tag).2 := by
  simp only [Heap.cilkInternalMalloc, found] at handed ⊢
  obtain ⟨first, isFirst, -⟩ := Option.map_eq_some_iff.mp handed
  have counted := @booked_countMalloc _ _ w index size tag kept
  have filled := @booked_refill _ _ w index counted.kept
  refine (counted.trans (filled.trans
    (booked_remove filled.kept isFirst))).of_eq ?_ rfl
  omega

/-- A block is given back. -/
theorem booked_free (kept : Kept heap)
    (found : sizeToBucket size = some index) :
    Booked 0 index (-1) heap (heap.cilkInternalFree w p size tag) := by
  simp only [Heap.cilkInternalFree, found]
  have counted := @booked_countFree _ _ w index size tag kept
  have given := counted.trans (@booked_add _ _ w index p counted.kept)
  refine (given.trans (booked_freeWhile _ _ given.kept)).of_eq ?_ rfl
  omega

/-- A block is freed without a worker: the global state counts less, and the
workers count what they have counted before. -/
theorem booked_freeGlobal (kept : Kept heap)
    (found : sizeToBucket size = some index) :
    Booked (bucketSizes index) index 0 heap
      (heap.cilkInternalFreeGlobal p size tag) := by
  simp only [Heap.cilkInternalFreeGlobal, found]
  refine (Booked.modifyGlobal kept).of_eq ?_ rfl
  simp only [ImDesc.modifyBucket]
  omega

theorem Booked.of_zero {other : BucketIndex} (booked : Booked 0 index 0 heap next) :
    Booked 0 other 0 heap next :=
  ⟨booked.kept, booked.debtChange, fun _ => by simp [booked.outChange]⟩

theorem booked_flushBuckets (indices : List BucketIndex) (kept : Kept heap) :
    Booked 0 index 0 heap (indices.foldl (Heap.flushBucket w) heap) := by
  induction indices generalizing heap with
  | nil => exact .refl kept
  | cons first rest ih =>
      have flushed : Booked 0 first 0 heap (heap.flushBucket w first) :=
        booked_freeWhile _ _ kept
      exact flushed.of_zero.trans (ih flushed.kept)

theorem booked_moveNumMalloc (kept : Kept heap) :
    Booked 0 index 0 heap (heap.moveNumMalloc w) := by
  have taken := @Booked.modifyGlobal _ heap index
    { heap.global with
      imDesc.numMalloc := fun tag =>
        heap.global.imDesc.numMalloc tag + (heap.workers w).numMalloc tag }
    kept
  have cleared := @booked_count _ _ w index
    (fun desc => { desc with numMalloc := fun _ => 0 }) 0 0 taken.kept
    (fun desc => by simp [ImDesc.modifyBucket, ImBucket.waste])
    (fun desc => (Int.add_zero _).symm)
  refine (taken.trans cleared).of_eq ?_ (Int.add_zero 0)
  rw [Int.sub_self, Int.add_zero, Int.add_zero]

theorem Short.freeMany (count : ℕ) (short : Short heap) :
    Short (heap.freeMany w (bucketSizes index) index count) := by
  obtain ⟨serves, length⟩ :=
    @freeMany_spec _ [] w index (bucketSizes index) count heap
  have before := short w index
  exact short.step (by omega) serves.others

theorem Short.freeWhile (condition : ImBucket → Bool) (fuel : ℕ)
    (short : Short heap) :
    Short (heap.freeWhile w (bucketSizes index) index condition fuel) := by
  induction fuel generalizing heap with
  | zero => exact short
  | succ fuel ih =>
      rw [Heap.freeWhile]
      split
      next => exact ih (short.freeMany _)
      next => exact short

theorem Short.flushBuckets (indices : List BucketIndex) (short : Short heap) :
    Short (indices.foldl (Heap.flushBucket w) heap) := by
  induction indices generalizing heap with
  | nil => exact short
  | cons first rest ih => exact ih (short.freeWhile _ _)

theorem Short.perWorkerTerminate (short : Short heap) :
    Short (heap.perWorkerTerminate w) := by
  have flushed := @Short.flushBuckets _ _ w (List.finRange 7) short
  intro other index
  refine Nat.le_trans (Nat.le_of_eq ?_) (flushed other index)
  by_cases same : other = w
  · subst other
    simp [freeBlocks, Heap.perWorkerTerminate, Heap.moveNumMalloc,
      Heap.modifyDesc, Heap.bucket]
  · simp [freeBlocks, Heap.perWorkerTerminate, Heap.moveNumMalloc,
      Heap.modifyDesc, Heap.bucket, Function.update_of_ne same]

theorem Short.cilkInternalFreeGlobal (short : Short heap) :
    Short (heap.cilkInternalFreeGlobal p size tag) := by
  unfold Heap.cilkInternalFreeGlobal
  split <;> exact short

theorem booked_perWorkerTerminate (kept : Kept heap) :
    Booked 0 index 0 heap (heap.perWorkerTerminate w) := by
  have flushed := @booked_flushBuckets _ _ w index (List.finRange 7) kept
  exact flushed.trans (booked_moveNumMalloc flushed.kept)

end Operations

end Multicilk.Allocator
