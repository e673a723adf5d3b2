import Multicilk.Allocator.InternalMalloc
import Multicilk.Support.Inventory

/-!
# Every block is in one place

A block that has been cut off a chunk is in the hands of the client, in the free
list of a worker or in the global free list.  It moves between these, and stays
in the bucket for which it has been cut off.
-/

namespace Multicilk.Allocator

open Inventory

variable {nworkers : ℕ}

/-- Where a block can be. -/
inductive Place (nworkers : ℕ) where
  | client
  | worker (w : Fin nworkers)
  | global
deriving DecidableEq

/-- The bucket of the canonical size. -/
def bucketOf (size : ℕ) : BucketIndex := (sizeToBucket size).getD 0

def Allocation.bucket (allocation : Allocation) : BucketIndex :=
  bucketOf allocation.size

/-- The blocks of a bucket that the client has. -/
def liveBlocks (live : List Allocation) (index : BucketIndex) : List Block :=
  (live.filter (·.bucket = index)).map (·.block)

def contents (heap : Heap nworkers) (live : List Allocation) :
    Place nworkers × BucketIndex → List Block
  | (.client, index) => liveBlocks live index
  | (.worker w, index) => (heap.bucket w index).freeList
  | (.global, index) => (heap.global.imDesc.buckets index).freeList

section Sizes

variable {size : ℕ} {index : BucketIndex}

theorem bucketSizes_bounds (index : BucketIndex) :
    0 < bucketSizes index ∧ bucketSizes index ≤ sizeThresh := by
  revert index
  decide

theorem sizeToBucket_of_le (small : size ≤ sizeThresh) :
    ∃ index, sizeToBucket size = some index := by
  cases found : sizeToBucket size with
  | some index => exact ⟨index, rfl⟩
  | none =>
      have tooSmall := List.find?_eq_none.mp found (6 : BucketIndex) (by simp)
      simp only [decide_eq_true_eq] at tooSmall
      exact absurd small tooSmall

theorem Allocation.bucket_eq {allocation : Allocation}
    (found : sizeToBucket allocation.size = some index) :
    allocation.bucket = index := by
  simp [Allocation.bucket, bucketOf, found]

end Sizes

section Carving

/-- Where the pieces of the chunks are. -/
structure Carved (global : GlobalState) : Prop where
  begins : global.imPool.memBegin ≤ global.imPool.memEnd
  ends : global.imPool.memEnd ≤ internalMallocChunkSize
  noChunk : global.imPool.chunks = 0 → global.imPool.memEnd = 0
  inside : ∀ piece ∈ global.carved, piece.1.chunk < global.imPool.chunks ∧
    piece.1.offset + bucketSizes piece.2 ≤ internalMallocChunkSize
  below : ∀ piece ∈ global.carved, piece.1.chunk + 1 = global.imPool.chunks →
    piece.1.offset + bucketSizes piece.2 ≤ global.imPool.memBegin
  disjoint : global.carved.Pairwise fun later earlier =>
    later.1.chunk = earlier.1.chunk →
      earlier.1.offset + bucketSizes earlier.2 ≤ later.1.offset

variable {global : GlobalState} {index : BucketIndex}

theorem carved_init : Carved GlobalState.init := by
  constructor
  case begins => exact Nat.le_refl _
  case ends => exact Nat.zero_le _
  case noChunk => exact fun _ => rfl
  case inside => exact nofun
  case below => exact nofun
  case disjoint => exact .nil

/-- The pool after an extension, if there is one. -/
theorem Carved.poolFor (carved : Carved global) :
    let pool := GlobalState.poolFor (bucketSizes index) global.imPool
    pool.memBegin + bucketSizes index ≤ pool.memEnd ∧
      pool.memEnd ≤ internalMallocChunkSize ∧ 0 < pool.chunks ∧
      ∀ piece ∈ global.carved, piece.1.chunk < pool.chunks ∧
        (piece.1.chunk + 1 = pool.chunks →
          piece.1.offset + bucketSizes piece.2 ≤ pool.memBegin) := by
  have size := bucketSizes_bounds index
  rw [sizeThresh] at size
  unfold GlobalState.poolFor
  split
  next full =>
    refine ⟨?_, Nat.le_refl _, Nat.succ_pos _, ?_⟩
    · show 0 + bucketSizes index ≤ 32 * 1024
      omega
    · intro piece member
      have inside := (carved.inside piece member).1
      constructor
      · exact Nat.lt_succ_of_lt inside
      · intro last
        have same : piece.1.chunk = global.imPool.chunks := Nat.succ.inj last
        omega
  next fits =>
    refine ⟨by omega, carved.ends, ?_, ?_⟩
    · apply Nat.pos_of_ne_zero
      intro none
      have ends := carved.noChunk none
      omega
    · intro piece member
      exact ⟨(carved.inside piece member).1, carved.below piece member⟩

theorem Carved.globalImAlloc (carved : Carved global) :
    Carved (global.globalImAlloc (bucketSizes index) index) := by
  unfold GlobalState.globalImAlloc
  split
  next => exact ⟨carved.begins, carved.ends, carved.noChunk, carved.inside,
    carved.below, carved.disjoint⟩
  next =>
    obtain ⟨fits, ends, positive, pieces⟩ := @Carved.poolFor _ index carved
    constructor
    case begins => exact fits
    case ends => exact ends
    case noChunk => exact fun none => absurd none (Nat.ne_of_gt positive)
    case inside =>
      intro piece member
      rcases List.mem_cons.mp member with rfl | earlier
      · exact ⟨Nat.sub_lt positive Nat.one_pos, Nat.le_trans fits ends⟩
      · exact ⟨(pieces piece earlier).1, (carved.inside piece earlier).2⟩
    case below =>
      intro piece member last
      rcases List.mem_cons.mp member with rfl | earlier
      · exact Nat.le_refl _
      · exact Nat.le_add_right_of_le ((pieces piece earlier).2 last)
    case disjoint =>
      refine List.pairwise_cons.mpr ⟨?_, carved.disjoint⟩
      intro piece member same
      apply (pieces piece member).2
      have sameChunk : _ - 1 = piece.1.chunk := same
      omega

/-- A block that is cut off has not been there before. -/
theorem Carved.fresh (carved : Carved global) :
    let pool := GlobalState.poolFor (bucketSizes index) global.imPool
    ⟨pool.chunks - 1, pool.memBegin⟩ ∉ global.carved.map Prod.fst := by
  intro pool member
  obtain ⟨-, -, positive, pieces⟩ := @Carved.poolFor _ index carved
  obtain ⟨piece, found, same⟩ := List.mem_map.mp member
  have below := (pieces piece found).2
  rw [same] at below
  have size := (bucketSizes_bounds piece.2).1
  exact Nat.not_le_of_lt (Nat.lt_add_of_pos_right size)
    (below (Nat.sub_add_cancel positive))

end Carving

section Placing

/-- Every piece is in one place, in its bucket. -/
structure Placed (carved : List (Block × BucketIndex))
    (contents : Place nworkers × BucketIndex → List Block) : Prop where
  partitioned : Partitioned (carved.map Prod.fst) contents
  bucketed : ∀ piece ∈ carved, ∃ place, piece.1 ∈ contents (place, piece.2)

variable {carved : List (Block × BucketIndex)}
  {contents next : Place nworkers × BucketIndex → List Block}
  {block : Block} {before after : List Block} {index : BucketIndex}
  {target : Place nworkers}

theorem Placed.congr (placed : Placed carved contents)
    (same : ∀ place, next place = contents place) : Placed carved next := by
  have equal : next = contents := funext same
  rwa [equal]

theorem Placed.transfer (placed : Placed carved contents)
    (source target : Place nworkers) (different : source ≠ target)
    (found : contents (source, index) = before ++ block :: after)
    (taken : next (source, index) = before ++ after)
    (put : next (target, index) = block :: contents (target, index))
    (others : ∀ place, place ≠ (source, index) → place ≠ (target, index) →
      next place = contents place) : Placed carved next := by
  have apart := placed.partitioned.apart
  have atSource : block ∈ contents (source, index) := by simp [found]
  constructor
  case partitioned =>
    refine placed.partitioned.transfer ?_ found taken put others
    exact fun same => different (congrArg Prod.fst same)
  case bucketed =>
    intro piece member
    obtain ⟨place, there⟩ := placed.bucketed piece member
    by_cases same : piece.1 = block
    · rw [same] at there
      have sameIndex := congrArg Prod.snd (apart _ _ _ there atSource)
      rw [show piece.2 = index from sameIndex, same]
      exact ⟨target, by simp [put]⟩
    · by_cases isTarget : (place, piece.2) = (target, index)
      · refine ⟨place, ?_⟩
        rw [isTarget] at there ⊢
        rw [put]
        exact List.mem_cons_of_mem _ there
      · by_cases isSource : (place, piece.2) = (source, index)
        · refine ⟨place, ?_⟩
          rw [isSource] at there ⊢
          rw [found] at there
          rw [taken]
          simpa [same] using there
        · exact ⟨place, by rwa [others _ isSource isTarget]⟩

theorem Placed.create (placed : Placed carved contents)
    (fresh : block ∉ carved.map Prod.fst)
    (put : next (target, index) = block :: contents (target, index))
    (others : ∀ place, place ≠ (target, index) → next place = contents place) :
    Placed ((block, index) :: carved) next := by
  constructor
  case partitioned => exact placed.partitioned.create fresh put others
  case bucketed =>
    intro piece member
    rcases List.mem_cons.mp member with rfl | earlier
    · exact ⟨target, by simp [put]⟩
    · obtain ⟨place, there⟩ := placed.bucketed piece earlier
      refine ⟨place, ?_⟩
      by_cases isTarget : (place, piece.2) = (target, index)
      · rw [isTarget] at there ⊢
        rw [put]
        exact List.mem_cons_of_mem _ there
      · rwa [others _ isTarget]

end Placing

section Buckets

variable {heap : Heap nworkers} {w other : Fin nworkers}
  {index otherIndex : BucketIndex} {change : ImBucket → ImBucket}
  {bucket : ImBucket} {desc : ImDesc}

theorem modifyBucket_same :
    (desc.modifyBucket index change).buckets index =
      change (desc.buckets index) :=
  Function.update_self ..

theorem modifyBucket_of_ne (different : otherIndex ≠ index) :
    (desc.modifyBucket index change).buckets otherIndex =
      desc.buckets otherIndex :=
  Function.update_of_ne different ..

@[simp] theorem bucket_modifyBucket :
    (heap.modifyBucket w index change).bucket w index =
      change (heap.bucket w index) := by
  simp [Heap.modifyBucket, Heap.modifyDesc, Heap.bucket, modifyBucket_same]

theorem bucket_modifyBucket_of_ne
    (different : (other, otherIndex) ≠ (w, index)) :
    (heap.modifyBucket w index change).bucket other otherIndex =
      heap.bucket other otherIndex := by
  by_cases same : other = w
  · subst other
    have differentIndex : otherIndex ≠ index := fun sameIndex =>
      different (by rw [sameIndex])
    simp [Heap.modifyBucket, Heap.modifyDesc, Heap.bucket,
      modifyBucket_of_ne differentIndex]
  · simp [Heap.modifyBucket, Heap.modifyDesc, Heap.bucket,
      Function.update_of_ne same]

/-- What is written down about a free list. -/
structure ImBucket.Kept (bucket : ImBucket) (index : BucketIndex) : Prop where
  counted : bucket.freeListSize = bucket.freeList.length % 2 ^ 32
  limit : bucket.freeListLimit = bucketCapacity index
  watermark : bucket.allocated ≤ bucket.maxAllocated

theorem ImBucket.Kept.addToFreeList {p : Block} (kept : bucket.Kept index) :
    (bucket.addToFreeList p).Kept index := by
  refine ⟨?_, kept.limit, kept.watermark⟩
  show (bucket.freeListSize + 1) % 2 ^ 32 =
    (bucket.freeList.length + 1) % 2 ^ 32
  rw [kept.counted, Nat.mod_add_mod]

theorem ImBucket.Kept.removeFromFreeList (kept : bucket.Kept index) :
    bucket.removeFromFreeList.Kept index := by
  have counted := kept.counted
  unfold ImBucket.removeFromFreeList
  split
  next => exact kept
  next first rest shape =>
    rw [shape] at counted
    refine ⟨?_, kept.limit, kept.watermark⟩
    show (bucket.freeListSize + (2 ^ 32 - 1)) % 2 ^ 32 = rest.length % 2 ^ 32
    rw [counted, List.length_cons]
    omega

/-- The counter is right as long as the list is not too long for it. -/
theorem ImBucket.Kept.counted_eq (kept : bucket.Kept index)
    (fits : bucket.freeList.length < 2 ^ 32) :
    bucket.freeListSize = bucket.freeList.length :=
  kept.counted.trans (Nat.mod_eq_of_lt fits)

theorem ImBucket.removeFromFreeList_counters (bucket : ImBucket) :
    bucket.removeFromFreeList.allocated = bucket.allocated ∧
      bucket.removeFromFreeList.maxAllocated = bucket.maxAllocated := by
  unfold ImBucket.removeFromFreeList
  split <;> exact ⟨rfl, rfl⟩

theorem ImBucket.Kept.uncount (kept : bucket.Kept index) :
    ({ bucket.removeFromFreeList with allocated := bucket.allocated - 1 } :
      ImBucket).Kept index := by
  have removed := kept.removeFromFreeList
  obtain ⟨-, sameWatermark⟩ := bucket.removeFromFreeList_counters
  refine ⟨removed.counted, removed.limit, ?_⟩
  have watermark := kept.watermark
  simp only [sameWatermark]
  omega

theorem ImBucket.Kept.countBatch (kept : bucket.Kept index) :
    (Heap.countBatch index bucket).Kept index := by
  refine ⟨kept.counted, kept.limit, ?_⟩
  show _ ≤ if _ then _ else _
  split
  next => exact Int.le_refl _
  next high => exact Int.not_lt.mp high

theorem ImBucket.head_eq_some {mem : Block} (found : bucket.head = some mem) :
    bucket.freeList = mem :: bucket.removeFromFreeList.freeList := by
  cases shape : bucket.freeList with
  | nil => simp [ImBucket.head, shape] at found
  | cons first rest =>
      simp only [ImBucket.head, shape, List.head?_cons, Option.some.injEq] at found
      simp [ImBucket.removeFromFreeList, shape, found]

theorem ImBucket.head_eq_none (empty : bucket.head = none) :
    bucket.freeList = [] ∧ bucket.removeFromFreeList = bucket := by
  have nil : bucket.freeList = [] := List.head?_eq_none_iff.mp empty
  simp [ImBucket.removeFromFreeList, nil]

end Buckets

end Multicilk.Allocator
