import Multicilk.Allocator.LeakCheck

/-!
# No part of a chunk is wasted

The global free lists grow and shrink by whole batches while the workers run,
so that a batch is either taken from a list or cut off the chunk.  A batch that
is cut off fills whole pages.
-/

namespace Multicilk.Allocator

open Totals TransitionSystem

/-- The bytes that have been cut off for a client, that are in the free lists,
that can still be cut off, and that have been left behind. -/
structure Balanced (global : GlobalState) : Prop where
  kept : ∀ index, (global.imDesc.buckets index).Kept index
  begins : global.imPool.memBegin ≤ global.imPool.memEnd
  balance : global.imDesc.used + listBytes global.imDesc +
    (global.imPool.memEnd - global.imPool.memBegin : ℤ) +
    global.imPool.wasted = global.imPool.allocated

/-- What is left of the chunk, when some blocks of a batch have been cut off. -/
structure Tight (size cut : ℕ) (pool : GlobalImPool) : Prop where
  wasted : pool.wasted = 0
  ends : pool.memEnd % 4096 = 0
  begins : pool.memBegin ≤ pool.memEnd
  pages : pool.memBegin % 4096 = cut * size % 4096

/-- The free lists hold whole batches. -/
def WholeBatches (global : GlobalState) : Prop :=
  ∀ index, Heap.batchSize index ∣ (global.imDesc.buckets index).freeList.length

section Balance

variable {global : GlobalState} {index : BucketIndex} {p : Block} {size : ℕ}
  {tag : ImTag}

theorem listBytes_modifyBucket {desc : ImDesc}
    {change : ImBucket → ImBucket} {blocks : ℤ}
    (moved : ((change (desc.buckets index)).freeList.length : ℤ) =
      (desc.buckets index).freeList.length + blocks) :
    listBytes (desc.modifyBucket index change) =
      listBytes desc + blocks * bucketSizes index := by
  have sums := @total_update _ _ _
    (fun (index : BucketIndex) (bucket : ImBucket) =>
      (bucket.freeList.length * bucketSizes index : ℤ))
    desc.buckets index (change (desc.buckets index)) _
  refine sums.trans ?_
  rw [moved, Int.add_mul, add_sub_cancel_left]
  rfl

theorem listBytes_congr {desc other : ImDesc}
    (same : desc.buckets = other.buckets) : listBytes desc = listBytes other := by
  rw [listBytes, same]
  rfl

/-- A block that is put back is free instead of used. -/
theorem Balanced.takeBack (balanced : Balanced global) :
    Balanced (global.takeBack (bucketSizes index) index p) := by
  have free := @listBytes_modifyBucket index global.imDesc (.addToFreeList p) 1
    rfl
  have balance := balanced.balance
  constructor
  case kept => exact kept_modifyGlobal balanced.kept fun _ => .addToFreeList
  case begins => exact balanced.begins
  case balance =>
    have sameFree : listBytes (global.takeBack (bucketSizes index) index
        p).imDesc = listBytes global.imDesc + 1 * bucketSizes index := free
    simp only [sameFree]
    simp only [GlobalState.takeBack]
    omega

/-- A chunk that is left behind is wasted where it has not been cut off. -/
theorem poolFor_balance {pool : GlobalImPool} (small : size ≤ 2048)
    (begins : pool.memBegin ≤ pool.memEnd) :
    (GlobalState.poolFor size pool).memBegin + size ≤
        (GlobalState.poolFor size pool).memEnd ∧
      ((GlobalState.poolFor size pool).memEnd -
          (GlobalState.poolFor size pool).memBegin : ℤ) +
        (GlobalState.poolFor size pool).wasted + pool.allocated =
      (pool.memEnd - pool.memBegin : ℤ) + pool.wasted +
        (GlobalState.poolFor size pool).allocated := by
  unfold GlobalState.poolFor
  split
  case isTrue full =>
    simp only [GlobalState.extendGlobalPool, internalMallocChunkSize]
    omega
  case isFalse fits => omega

theorem Balanced.globalImAlloc (balanced : Balanced global) :
    Balanced (global.globalImAlloc (bucketSizes index) index) := by
  have balance := balanced.balance
  have begins := balanced.begins
  have bounds := bucketSizes_bounds index
  have buckets : (global.globalImAlloc (bucketSizes index)
      index).imDesc.buckets =
        (global.imDesc.modifyBucket index .removeFromFreeList).buckets :=
    globalImAlloc_buckets
  have kept : ∀ other, ((global.globalImAlloc (bucketSizes index)
      index).imDesc.buckets other).Kept other := by
    rw [buckets]
    exact kept_modifyGlobal balanced.kept fun _ => .removeFromFreeList
  have free := listBytes_congr buckets
  have used : (global.globalImAlloc (bucketSizes index) index).imDesc.used =
      global.imDesc.used + bucketSizes index := by
    unfold GlobalState.globalImAlloc
    split <;> rfl
  cases found : (global.imDesc.buckets index).head with
  | some mem =>
      have shape := congrArg List.length (ImBucket.head_eq_some found)
      rw [List.length_cons] at shape
      rw [@listBytes_modifyBucket index global.imDesc .removeFromFreeList (-1)
        (by omega)] at free
      have pool : (global.globalImAlloc (bucketSizes index) index).imPool =
          global.imPool := by
        simp only [GlobalState.globalImAlloc, found]
      refine ⟨kept, pool ▸ begins, ?_⟩
      rw [free, used, pool]
      omega
  | none =>
      obtain ⟨-, same⟩ := ImBucket.head_eq_none found
      have moved : ((global.imDesc.buckets
          index).removeFromFreeList.freeList.length : ℤ) =
            (global.imDesc.buckets index).freeList.length + 0 := by
        rw [same, Int.add_zero]
      rw [listBytes_modifyBucket moved] at free
      have pool : (global.globalImAlloc (bucketSizes index) index).imPool =
          { GlobalState.poolFor (bucketSizes index) global.imPool with
            memBegin := (GlobalState.poolFor (bucketSizes index)
              global.imPool).memBegin + bucketSizes index } := by
        simp only [GlobalState.globalImAlloc, found]
      rw [sizeThresh] at bounds
      obtain ⟨poolBegins, poolBalance⟩ := poolFor_balance bounds.2 begins
      refine ⟨kept, pool ▸ poolBegins, ?_⟩
      rw [free, used, pool]
      dsimp only
      omega

theorem Balanced.freeGlobal {nworkers : ℕ} {heap : Heap nworkers}
    (balanced : Balanced heap.global)
    (found : sizeToBucket size = some index) :
    Balanced (heap.cilkInternalFreeGlobal p size tag).global := by
  have taken := @Balanced.takeBack heap.global index p balanced
  simp only [Heap.cilkInternalFreeGlobal, found]
  exact ⟨taken.kept, taken.begins, taken.balance⟩

end Balance

section Batches

variable {global : GlobalState} {index : BucketIndex} {count cut : ℕ}

/-- A batch fills whole pages. -/
theorem batch_pages (index : BucketIndex) :
    Heap.batchSize index * bucketSizes index % 4096 = 0 := by
  revert index
  decide

theorem bucketSizes_dvd (index : BucketIndex) : bucketSizes index ∣ 4096 := by
  revert index
  decide

/-- When the next block does not fit, nothing is left of the chunk. -/
theorem Tight.full {pool : GlobalImPool}
    (tight : Tight (bucketSizes index) cut pool)
    (full : pool.memEnd < pool.memBegin + bucketSizes index) :
    pool.memEnd = pool.memBegin := by
  have bounds := bucketSizes_bounds index
  obtain ⟨pages, isPages⟩ := bucketSizes_dvd index
  have divides (n m : ℕ) (same : n % 4096 = m % 4096)
      (multiple : bucketSizes index ∣ m) : bucketSizes index ∣ n := by
    rw [← Nat.mod_add_div n 4096, same, isPages]
    apply Nat.dvd_add
    · exact (Nat.dvd_mod_iff (Dvd.intro _ rfl)).mpr multiple
    · exact Dvd.dvd.mul_right (Dvd.intro _ rfl) _
  have ends : bucketSizes index ∣ pool.memEnd :=
    divides pool.memEnd 0 tight.ends (Nat.dvd_zero _)
  have begins : bucketSizes index ∣ pool.memBegin :=
    divides pool.memBegin _ tight.pages (Dvd.intro_left _ rfl)
  have order := tight.begins
  have left := Nat.eq_zero_of_dvd_of_lt (Nat.dvd_sub ends begins) (by omega)
  omega

theorem Tight.cutOff {pool : GlobalImPool}
    (tight : Tight (bucketSizes index) cut pool) :
    Tight (bucketSizes index) (cut + 1)
      { GlobalState.poolFor (bucketSizes index) pool with
        memBegin := (GlobalState.poolFor (bucketSizes index) pool).memBegin +
          bucketSizes index } := by
  have bounds := bucketSizes_bounds index
  rw [sizeThresh] at bounds
  have pages := tight.pages
  have wasted := tight.wasted
  have ends := tight.ends
  have more : (cut + 1) * bucketSizes index =
      cut * bucketSizes index + bucketSizes index := Nat.succ_mul ..
  unfold GlobalState.poolFor
  split
  case isTrue full =>
    have spent := tight.full full
    constructor <;>
      simp only [GlobalState.extendGlobalPool, internalMallocChunkSize, more] <;>
      omega
  case isFalse fits =>
    constructor <;> simp only [more] <;> omega

theorem Tight.change {size other otherCut : ℕ} {pool : GlobalImPool}
    (tight : Tight size cut pool)
    (pages : otherCut * other % 4096 = cut * size % 4096) :
    Tight other otherCut pool :=
  ⟨tight.wasted, tight.ends, tight.begins, tight.pages.trans pages.symm⟩

/-- Some blocks of one bucket have gone to the global free list of `next`, and
nothing has been cut off. -/
structure Returned (index : BucketIndex) (count : ℕ)
    (global next : GlobalState) : Prop where
  pool : next.imPool = global.imPool
  lengths : ∀ other, (next.imDesc.buckets other).freeList.length =
    (global.imDesc.buckets other).freeList.length +
      if other = index then count else 0

theorem Returned.refl : Returned index 0 global global := by
  constructor
  case pool => rfl
  case lengths => simp

theorem Returned.trans {more : ℕ} {next last : GlobalState}
    (first : Returned index count global next)
    (second : Returned index more next last) :
    Returned index (count + more) global last := by
  constructor
  case pool => exact second.pool.trans first.pool
  case lengths =>
    intro other
    rw [second.lengths other, first.lengths other]
    split <;> omega

theorem Returned.takeBack {p : Block} :
    Returned index 1 global
      (global.takeBack (bucketSizes index) index p) := by
  constructor
  case pool => rfl
  case lengths =>
    intro other
    by_cases same : other = index
    · subst other
      rw [if_pos rfl]
      exact congrArg (List.length ∘ ImBucket.freeList) modifyBucket_same
    · rw [if_neg same]
      exact congrArg (List.length ∘ ImBucket.freeList)
        (modifyBucket_of_ne same)

/-- A block that is in the free list is taken from there. -/
theorem returned_globalImAlloc {mem : Block} {rest : List Block}
    (shape : (global.imDesc.buckets index).freeList = mem :: rest) :
    Returned index 1 (global.globalImAlloc (bucketSizes index) index)
      global := by
  have found : (global.imDesc.buckets index).head = some mem := by
    simp [ImBucket.head, shape]
  constructor
  case pool => simp only [GlobalState.globalImAlloc, found]
  case lengths =>
    intro other
    rw [globalImAlloc_buckets]
    by_cases same : other = index
    · subst other
      rw [if_pos rfl, modifyBucket_same, shape]
      simp [ImBucket.removeFromFreeList, shape]
    · rw [if_neg same]
      exact congrArg (List.length ∘ ImBucket.freeList)
        (modifyBucket_of_ne same).symm

theorem returned_iterate
    (enough : count ≤ (global.imDesc.buckets index).freeList.length) :
    Returned index count
      ((GlobalState.globalImAlloc · (bucketSizes index) index)^[count] global)
      global := by
  induction count generalizing global with
  | zero => exact .refl
  | succ count ih =>
      obtain ⟨mem, rest, shape⟩ :=
        List.exists_cons_of_length_pos (Nat.lt_of_lt_of_le (by simp) enough)
      have first := returned_globalImAlloc shape
      have left := first.lengths index
      rw [if_pos rfl] at left
      rw [Function.iterate_succ_apply]
      exact (ih (by omega)).trans first

/-- What a free list does not have is cut off the chunk. -/
theorem cutOff_iterate
    (empty : (global.imDesc.buckets index).freeList = [])
    (tight : Tight (bucketSizes index) 0 global.imPool) :
    let next :=
      (GlobalState.globalImAlloc · (bucketSizes index) index)^[count] global
    next.imDesc.buckets = global.imDesc.buckets ∧
      Tight (bucketSizes index) count next.imPool := by
  induction count with
  | zero => exact ⟨rfl, tight⟩
  | succ count ih =>
      rw [Function.iterate_succ_apply']
      obtain ⟨sameBuckets, earlier⟩ := ih
      obtain ⟨next, isNext⟩ : ∃ next, next =
          (GlobalState.globalImAlloc · (bucketSizes index) index)^[count]
            global :=
        ⟨_, rfl⟩
      rw [← isNext] at sameBuckets earlier ⊢
      have none : (next.imDesc.buckets index).head = none := by
        simp [ImBucket.head, sameBuckets, empty]
      obtain ⟨-, same⟩ := ImBucket.head_eq_none none
      constructor
      · rw [globalImAlloc_buckets, ← sameBuckets]
        simp only [ImDesc.modifyBucket, same, Function.update_eq_self]
      · simpa only [GlobalState.globalImAlloc, none] using earlier.cutOff

/-- While the workers run, the global state has whole batches everywhere. -/
structure Whole (global : GlobalState) : Prop where
  batches : WholeBatches global
  tight : Tight 0 0 global.imPool

theorem Whole.of_returned {next : GlobalState} (whole : Whole global)
    (returned : Returned index (Heap.batchSize index) global next) :
    Whole next := by
  constructor
  case batches =>
    intro other
    rw [returned.lengths other]
    split
    case isTrue same =>
      subst other
      exact Nat.dvd_add (whole.batches index) (Nat.dvd_refl _)
    case isFalse => exact whole.batches other
  case tight => exact returned.pool ▸ whole.tight

theorem Whole.of_taken {next : GlobalState} (whole : Whole global)
    (returned : Returned index (Heap.batchSize index) next global) :
    Whole next := by
  constructor
  case batches =>
    intro other
    have batches := whole.batches other
    rw [returned.lengths other] at batches
    split at batches
    case isTrue same =>
      subst other
      exact (Nat.dvd_add_iff_left (Nat.dvd_refl _)).mpr batches
    case isFalse => exact batches
  case tight => exact returned.pool ▸ whole.tight

/-- A batch comes from the free list or is cut off, never partly so. -/
theorem Whole.batch (whole : Whole global) :
    Whole ((GlobalState.globalImAlloc · (bucketSizes index)
      index)^[Heap.batchSize index] global) := by
  have batches := whole.batches index
  by_cases empty : (global.imDesc.buckets index).freeList = []
  · have tight := whole.tight.change
      (by rw [Nat.zero_mul, Nat.zero_mul] : 0 * bucketSizes index % 4096 = _)
    obtain ⟨sameBuckets, cut⟩ :=
      @cutOff_iterate _ _ (Heap.batchSize index) empty tight
    constructor
    case batches =>
      intro other
      rw [sameBuckets]
      exact whole.batches other
    case tight =>
      exact cut.change ((Nat.zero_mod _).trans (batch_pages index).symm)
  · exact whole.of_taken (returned_iterate
      (Nat.le_of_dvd (List.length_pos_of_ne_nil empty) batches))

end Batches

section Heaps

variable {nworkers : ℕ} {heap next : Heap nworkers} {w : Fin nworkers}
  {index : BucketIndex} {size count : ℕ} {tag : ImTag}

theorem allocateOne_iterate_global :
    ((Heap.allocateOne w size index)^[count] heap).global =
      (GlobalState.globalImAlloc · size index)^[count] heap.global := by
  induction count generalizing heap with
  | zero => rfl
  | succ count ih =>
      rw [Function.iterate_succ_apply, Function.iterate_succ_apply, ih]
      rfl

/-- What a batch does to the global state, block by block. -/
theorem refill_global {holds : GlobalState → Prop}
    (start : holds heap.global)
    (batch : ∀ global, holds global →
      holds ((GlobalState.globalImAlloc · (bucketSizes index)
        index)^[Heap.batchSize index] global)) :
    holds (heap.refill w index).global := by
  unfold Heap.refill
  split
  case isTrue =>
    have taken := batch heap.global start
    rw [← @allocateOne_iterate_global _ heap w] at taken
    exact taken
  case isFalse => exact start

theorem malloc_global {holds : GlobalState → Prop}
    (start : holds heap.global)
    (batch : ∀ index global, holds global →
      holds ((GlobalState.globalImAlloc · (bucketSizes index)
        index)^[Heap.batchSize index] global)) :
    holds (heap.cilkInternalMalloc w size tag).2.global := by
  unfold Heap.cilkInternalMalloc
  split
  case h_1 => exact start
  case h_2 whichBucket found => exact refill_global start (batch _)

theorem freeOne_global (freed : heap.freeOne w size index = some next) :
    ∃ mem, next.global = heap.global.takeBack size index mem := by
  obtain ⟨mem, -, rfl⟩ := Option.map_eq_some_iff.mp freed
  exact ⟨mem, rfl⟩

/-- What every returned block keeps, a batch keeps. -/
theorem freeMany_global {holds : GlobalState → Prop}
    (start : holds heap.global)
    (one : ∀ global mem, holds global →
      holds (global.takeBack size index mem)) :
    holds (heap.freeMany w size index count).global := by
  induction count generalizing heap with
  | zero => exact start
  | succ count ih =>
      unfold Heap.freeMany
      split
      case h_1 => exact start
      case h_2 next freed =>
        obtain ⟨mem, same⟩ := freeOne_global freed
        exact ih (same ▸ one _ _ start)

theorem freeWhile_global {holds : GlobalState → Prop}
    {condition : ImBucket → Bool} (start : holds heap.global)
    (one : ∀ global mem, holds global →
      holds (global.takeBack size index mem)) :
    holds (heap.freeWhile w size index condition count).global := by
  induction count generalizing heap with
  | zero => exact start
  | succ count ih =>
      unfold Heap.freeWhile
      split
      case isTrue => exact ih (freeMany_global start one)
      case isFalse => exact start

/-- A worker that has enough blocks gives all of them back. -/
theorem returned_freeMany
    (enough : count ≤ (heap.bucket w index).freeList.length) :
    Returned index count heap.global
      (heap.freeMany w (bucketSizes index) index count).global := by
  induction count generalizing heap with
  | zero => exact .refl
  | succ count ih =>
      obtain ⟨mem, rest, shape⟩ :=
        List.exists_cons_of_length_pos (Nat.lt_of_lt_of_le (by simp) enough)
      have found : (heap.bucket w index).head = some mem := by
        simp [ImBucket.head, shape]
      have left := ImBucket.head_eq_some found
      rw [left, List.length_cons] at enough
      simp only [Heap.freeMany, Heap.freeOne, found, Option.map_some]
      have rest := @ih
        ({ heap with
          global := heap.global.takeBack (bucketSizes index) index mem }
            |>.modifyBucket w index fun bucket =>
              { bucket.removeFromFreeList with
                allocated := bucket.allocated - 1 })
        (by
          rw [bucket_modifyBucket]
          exact Nat.le_of_succ_le_succ enough)
      have first : Returned index 1 heap.global
          (heap.global.takeBack (bucketSizes index) index mem) := .takeBack
      have sum := first.trans rest
      rwa [Nat.add_comm] at sum

/-- A worker above its limit has more than a batch. -/
theorem Whole.imFreeBatch (whole : Whole heap.global) (kept : Kept heap)
    (above : Heap.overLimit (heap.bucket w index) = true) :
    Whole (heap.imFreeBatch w (bucketSizes index) index).global := by
  apply whole.of_returned
  apply returned_freeMany
  obtain ⟨counted, limit, -⟩ := kept w index
  simp only [Heap.overLimit, decide_eq_true_eq, counted, limit] at above
  simp only [Heap.batchSize]
  omega

theorem Whole.freeWhile (whole : Whole heap.global) (kept : Kept heap) :
    Whole (heap.freeWhile w (bucketSizes index) index Heap.overLimit
      count).global := by
  induction count generalizing heap with
  | zero => exact whole
  | succ count ih =>
      unfold Heap.freeWhile
      split
      case isTrue above =>
        apply ih (whole.imFreeBatch kept above)
        exact (booked_freeMany _ kept).kept
      case isFalse => exact whole

theorem Whole.free {p : Block} (whole : Whole heap.global) (kept : Kept heap) :
    Whole (heap.cilkInternalFree w p size tag).global := by
  unfold Heap.cilkInternalFree
  split
  case h_1 => exact whole
  case h_2 whichBucket found =>
    have counted := @booked_countFree _ _ w whichBucket size tag kept
    exact Whole.freeWhile whole (booked_add counted.kept).kept

/-- No byte is lost. -/
structure Unwasted (global : GlobalState) : Prop where
  balanced : Balanced global
  wasted : global.imPool.wasted = 0

theorem Unwasted.takeBack {global : GlobalState} {p : Block}
    (unwasted : Unwasted global) :
    Unwasted (global.takeBack (bucketSizes index) index p) :=
  ⟨unwasted.balanced.takeBack, unwasted.wasted⟩

theorem Balanced.iterate {global : GlobalState} (balanced : Balanced global) :
    Balanced ((GlobalState.globalImAlloc · (bucketSizes index) index)^[count]
      global) := by
  induction count generalizing global with
  | zero => exact balanced
  | succ count ih =>
      rw [Function.iterate_succ_apply]
      exact ih balanced.globalImAlloc

theorem Balanced.malloc (balanced : Balanced heap.global) :
    Balanced (heap.cilkInternalMalloc w size tag).2.global :=
  malloc_global balanced fun _ _ earlier => earlier.iterate

theorem Whole.malloc (whole : Whole heap.global) :
    Whole (heap.cilkInternalMalloc w size tag).2.global :=
  malloc_global whole fun _ _ earlier => earlier.batch

theorem Unwasted.free {p : Block} (unwasted : Unwasted heap.global) :
    Unwasted (heap.cilkInternalFree w p size tag).global := by
  unfold Heap.cilkInternalFree
  split
  case h_1 => exact unwasted
  case h_2 whichBucket found =>
    exact freeWhile_global unwasted fun _ _ earlier => earlier.takeBack

theorem Unwasted.freeGlobal {p : Block} (unwasted : Unwasted heap.global) :
    Unwasted (heap.cilkInternalFreeGlobal p size tag).global := by
  cases found : sizeToBucket size with
  | none => simpa only [Heap.cilkInternalFreeGlobal, found] using unwasted
  | some index =>
      refine ⟨unwasted.balanced.freeGlobal found, ?_⟩
      simpa only [Heap.cilkInternalFreeGlobal, found] using unwasted.wasted

theorem Unwasted.flushBuckets (indices : List BucketIndex)
    (unwasted : Unwasted heap.global) :
    Unwasted (indices.foldl (Heap.flushBucket w) heap).global := by
  induction indices generalizing heap with
  | nil => exact unwasted
  | cons index rest ih =>
      apply ih
      exact freeWhile_global unwasted fun _ _ earlier => earlier.takeBack

theorem Unwasted.moveNumMalloc (unwasted : Unwasted heap.global) :
    Unwasted (heap.moveNumMalloc w).global := by
  obtain ⟨⟨kept, begins, balance⟩, wasted⟩ := unwasted
  exact ⟨⟨kept, begins, balance⟩, wasted⟩

theorem Unwasted.flush (unwasted : Unwasted heap.global) :
    Unwasted (heap.perWorkerTerminate w).global :=
  Unwasted.moveNumMalloc (unwasted.flushBuckets (List.finRange 7))

end Heaps

section Runtimes

variable {others : ℕ} {sizes : RuntimeSizes} {s target : Runtime others}
  {event : Event others}

/-- The chunks in a run.  After the workers have stopped, nothing is cut off
any more. -/
structure ChunkUse (s : Runtime others) : Prop where
  kept : Kept s.memory.heap
  balanced : Balanced s.memory.heap.global
  wasted : s.memory.heap.global.imPool.wasted = 0
  whole : s.phase.workersRun = true → Whole s.memory.heap.global

theorem chunkUse_start : ChunkUse (Runtime.start others) := by
  have empty : Balanced (initial (others + 1)).heap.global := by
    constructor
    case kept => exact fun _ => ⟨rfl, rfl, Int.le_refl _⟩
    case begins => exact Nat.le_refl _
    case balance =>
      simp [listBytes, total, initial, Heap.init, GlobalState.init,
        ImDesc.init, ImBucket.init]
  constructor
  case kept => exact fun _ _ => ⟨rfl, rfl, Int.le_refl _⟩
  case balanced => exact empty
  case wasted => rfl
  case whole =>
    exact fun _ => ⟨fun _ => Nat.dvd_zero _, rfl, rfl, Nat.le_refl _, rfl⟩

/-- A block is allocated while the workers run. -/
theorem ChunkUse.malloc {phase next : Phase} {memory : State (others + 1)}
    {live : List Allocation} {w : Fin (others + 1)} {size : ℕ} {tag : ImTag}
    {block : Block} (chunkUse : ChunkUse ⟨memory, phase⟩)
    (runs : phase.workersRun = true) (small : size ≤ sizeThresh)
    (handed : (memory.heap.cilkInternalMalloc w size tag).1 =
      some (.block block)) :
    ChunkUse ⟨⟨(memory.heap.cilkInternalMalloc w size tag).2, live⟩, next⟩ := by
  have whole : Whole (memory.heap.cilkInternalMalloc w size tag).2.global :=
    (chunkUse.whole runs).malloc
  have booked := booked_malloc chunkUse.kept (sizeToBucket_eq small) handed
  exact ⟨booked.kept, chunkUse.balanced.malloc, whole.tight.wasted,
    fun _ => whole⟩

/-- A block is freed by a worker, who may have been stopped. -/
theorem ChunkUse.free {phase : Phase} {memory : State (others + 1)}
    {live : List Allocation} {w : Fin (others + 1)} {p : Block} {size : ℕ}
    {tag : ImTag} (chunkUse : ChunkUse ⟨memory, phase⟩)
    (small : size ≤ sizeThresh) :
    ChunkUse ⟨⟨memory.heap.cilkInternalFree w p size tag, live⟩, phase⟩ := by
  have unwasted : Unwasted memory.heap.global :=
    ⟨chunkUse.balanced, chunkUse.wasted⟩
  have freed : Unwasted (memory.heap.cilkInternalFree w p size tag).global :=
    unwasted.free
  have booked := @booked_free _ _ w _ _ tag p chunkUse.kept
    (sizeToBucket_eq small)
  exact ⟨booked.kept, freed.balanced, freed.wasted,
    fun runs => (chunkUse.whole runs).free chunkUse.kept⟩

/-- The workers have stopped. -/
theorem ChunkUse.stopped {heap : Heap (others + 1)} {live : List Allocation}
    {phase : Phase} (kept : Kept heap) (unwasted : Unwasted heap.global)
    (stops : phase.workersRun = false) : ChunkUse ⟨⟨heap, live⟩, phase⟩ := by
  constructor
  case kept => exact kept
  case balanced => exact unwasted.balanced
  case wasted => exact unwasted.wasted
  case whole =>
    intro runs
    exact absurd (stops.symm.trans runs) Bool.false_ne_true

theorem ChunkUse.step (books : Books sizes s) (chunkUse : ChunkUse s)
    (taken : RuntimeStep sizes s event target) : ChunkUse target := by
  have kept := chunkUse.kept
  have unwasted : Unwasted s.memory.heap.global :=
    ⟨chunkUse.balanced, chunkUse.wasted⟩
  have small := books.bookkept.small
  cases taken with
  | client runs taken =>
      cases taken with
      | malloc fits handed => exact chunkUse.malloc runs fits handed
      | free shape => exact chunkUse.free (small _ (by simp [shape]))
  | createClosure handed => exact chunkUse.malloc rfl sizes.closureSmall handed
  | createFiber handed => exact chunkUse.malloc rfl sizes.fiberSmall handed
  | freeRootFiber =>
      apply ChunkUse.stopped _ unwasted.freeGlobal rfl
      exact (booked_freeGlobal kept (sizeToBucket_eq sizes.fiberSmall)).kept
  | freeRootClosure =>
      apply ChunkUse.stopped _ unwasted.freeGlobal rfl
      exact (booked_freeGlobal kept (sizeToBucket_eq sizes.closureSmall)).kept
  | terminateFree taken =>
      cases taken with
      | free shape => exact chunkUse.free (small _ (by simp [shape]))
  | checkBefore => exact .stopped kept unwasted rfl
  | flush =>
      apply ChunkUse.stopped _ unwasted.flush rfl
      exact (@booked_perWorkerTerminate _ _ _ 0 kept).kept
  | checkAfter => exact .stopped kept unwasted rfl
  | globalTerminate => exact .stopped kept unwasted rfl
  | poolFree shape =>
      apply ChunkUse.stopped _ unwasted.freeGlobal rfl
      exact (booked_freeGlobal kept
        (sizeToBucket_eq (small _ (by simp [shape])))).kept
  | checkGlobal => exact .stopped kept unwasted rfl

theorem ChunkUse.of_run {trace : List (Runtime others × Event others)}
    (run : Run (RuntimeStep sizes) (Runtime.start others) trace s) :
    ChunkUse s := by
  induction run with
  | refl => exact chunkUse_start
  | snoc earlier last induction =>
      exact induction.step (Books.of_run earlier) last

end Runtimes

end Multicilk.Allocator
