import Multicilk.Allocator.Places

/-!
# Moves of single blocks

Every operation of the allocator is made of moves of one block: from the global
pool to a worker and back, and from a worker to the client and back.  Each move
keeps every block in one place.
-/

namespace Multicilk.Allocator

open Inventory

variable {nworkers : ℕ}

/-- What is written down about the free lists of the workers. -/
def Kept (heap : Heap nworkers) : Prop :=
  ∀ w index, (heap.bucket w index).Kept index

/-- What holds at every point of an operation. -/
structure Sound (heap : Heap nworkers) (live : List Allocation) : Prop where
  carved : Carved heap.global
  placed : Placed heap.global.carved (contents heap live)
  kept : Kept heap
  globalKept : ∀ index, (heap.global.imDesc.buckets index).Kept index

theorem sound_init : Sound (Heap.init : Heap nworkers) [] := by
  constructor
  case carved => exact carved_init
  case placed =>
    refine ⟨partitioned_nil ?_, nofun⟩
    rintro ⟨place, index⟩
    cases place <;> rfl
  case kept => exact fun w index => ⟨rfl, rfl, Int.le_refl _⟩
  case globalKept => exact fun index => ⟨rfl, rfl, Int.le_refl _⟩

/-- More bytes are counted as wasted. -/
def ImBucket.waste (bytes : ℤ) (bucket : ImBucket) : ImBucket :=
  { bucket with wasted := bucket.wasted + bytes }

section Moves

variable {heap : Heap nworkers} {live before after : List Allocation}
  {w : Fin nworkers} {index : BucketIndex} {change : ImBucket → ImBucket}
  {mem : Block} {size : ℕ} {tag : ImTag} {allocation : Allocation}

theorem contents_modifyBucket_of_ne {place : Place nworkers × BucketIndex}
    (different : place ≠ (.worker w, index)) :
    contents (heap.modifyBucket w index change) live place =
      contents heap live place := by
  obtain ⟨place, otherIndex⟩ := place
  cases place with
  | client => rfl
  | global => rfl
  | worker other =>
      apply congrArg ImBucket.freeList
      apply bucket_modifyBucket_of_ne
      intro same
      cases same
      exact different rfl

theorem kept_modifyBucket (kept : Kept heap)
    (changed : ∀ bucket : ImBucket, bucket.Kept index →
      (change bucket).Kept index) :
    Kept (heap.modifyBucket w index change) := by
  intro other otherIndex
  by_cases same : (other, otherIndex) = (w, index)
  · cases same
    rw [bucket_modifyBucket]
    exact changed _ (kept w index)
  · rw [bucket_modifyBucket_of_ne same]
    exact kept other otherIndex

theorem kept_modifyGlobal {desc : ImDesc}
    (kept : ∀ index, (desc.buckets index).Kept index)
    (changed : ∀ bucket : ImBucket, bucket.Kept index →
      (change bucket).Kept index) (otherIndex : BucketIndex) :
    ((desc.modifyBucket index change).buckets otherIndex).Kept otherIndex := by
  by_cases same : otherIndex = index
  · subst otherIndex
    rw [modifyBucket_same]
    exact changed _ (kept index)
  · rw [modifyBucket_of_ne same]
    exact kept otherIndex

/-- The free list stays as it is. -/
theorem Sound.modifyBucket (sound : Sound heap live)
    (sameList : ∀ bucket, (change bucket).freeList = bucket.freeList)
    (changed : ∀ bucket : ImBucket, bucket.Kept index →
      (change bucket).Kept index) :
    Sound (heap.modifyBucket w index change) live := by
  refine ⟨sound.carved, sound.placed.congr ?_,
    kept_modifyBucket sound.kept changed, sound.globalKept⟩
  intro place
  by_cases same : place = (.worker w, index)
  · subst place
    simp [contents, sameList]
  · exact contents_modifyBucket_of_ne same

/-- What a worker and the global state have when a block goes from one of them
to the other. -/
theorem contents_exchange {global : GlobalState}
    {place : Place nworkers × BucketIndex}
    (others : ∀ other, other ≠ index →
      (global.imDesc.buckets other).freeList =
        (heap.global.imDesc.buckets other).freeList)
    (notWorker : place ≠ (.worker w, index))
    (notGlobal : place ≠ (.global, index)) :
    contents ({ heap with global }.modifyBucket w index change) live place =
      contents heap live place := by
  rw [contents_modifyBucket_of_ne notWorker]
  obtain ⟨place, other⟩ := place
  cases place with
  | client => rfl
  | worker other => rfl
  | global => exact others other fun same => notGlobal (by rw [same])

theorem globalImAlloc_buckets {global : GlobalState} :
    (global.globalImAlloc size index).imDesc.buckets =
      (global.imDesc.modifyBucket index .removeFromFreeList).buckets := by
  unfold GlobalState.globalImAlloc
  split
  next => rfl
  next empty =>
      simp [ImDesc.modifyBucket, (ImBucket.head_eq_none empty).2]

theorem Sound.allocateOne (sound : Sound heap live) :
    Sound (heap.allocateOne w (bucketSizes index) index) live := by
  have put : contents (heap.allocateOne w (bucketSizes index) index) live
      (.worker w, index) =
        heap.global.allocatedBlock (bucketSizes index) index ::
          contents heap live (.worker w, index) :=
    congrArg ImBucket.freeList bucket_modifyBucket
  have taken : contents (heap.allocateOne w (bucketSizes index) index) live
      (.global, index) =
        (heap.global.imDesc.buckets index).removeFromFreeList.freeList := by
    apply congrArg ImBucket.freeList
    exact (congrFun globalImAlloc_buckets index).trans modifyBucket_same
  have others : ∀ place, place ≠ (.global, index) → place ≠ (.worker w, index) →
      contents (heap.allocateOne w (bucketSizes index) index) live place =
        contents heap live place := by
    intro place notGlobal notWorker
    refine contents_exchange ?_ notWorker notGlobal
    intro other different
    apply congrArg ImBucket.freeList
    exact (congrFun globalImAlloc_buckets other).trans
      (modifyBucket_of_ne different)
  constructor
  case carved => exact sound.carved.globalImAlloc
  case kept => exact kept_modifyBucket sound.kept fun _ => .addToFreeList
  case globalKept =>
    intro other
    have kept := @kept_modifyGlobal index _ _ sound.globalKept
      (fun _ => .removeFromFreeList) other
    rwa [← @globalImAlloc_buckets index (bucketSizes index)] at kept
  case placed =>
    cases found : (heap.global.imDesc.buckets index).head with
    | some mem =>
        have block : heap.global.allocatedBlock (bucketSizes index) index =
            mem := by
          simp [GlobalState.allocatedBlock, found]
        have sameCarved :
            (heap.allocateOne w (bucketSizes index) index).global.carved =
              heap.global.carved := by
          simp [Heap.allocateOne, Heap.modifyBucket, Heap.modifyDesc,
            GlobalState.globalImAlloc, found]
        rw [sameCarved]
        rw [block] at put
        have first : contents heap live (.global, index) = [] ++ mem ::
            (heap.global.imDesc.buckets index).removeFromFreeList.freeList :=
          ImBucket.head_eq_some found
        exact sound.placed.transfer .global (.worker w) (by simp) first taken put
          others
    | none =>
        have fresh : heap.global.allocatedBlock (bucketSizes index) index ∉
            heap.global.carved.map Prod.fst := by
          simp only [GlobalState.allocatedBlock, found]
          exact sound.carved.fresh
        have newCarved :
            (heap.allocateOne w (bucketSizes index) index).global.carved =
              (heap.global.allocatedBlock (bucketSizes index) index, index) ::
                heap.global.carved := by
          simp [Heap.allocateOne, Heap.modifyBucket, Heap.modifyDesc,
            GlobalState.globalImAlloc, GlobalState.allocatedBlock, found]
        rw [newCarved]
        apply sound.placed.create fresh put
        intro place notWorker
        by_cases isGlobal : place = (.global, index)
        · subst place
          rw [taken, (ImBucket.head_eq_none found).2]
          rfl
        · exact others place isGlobal notWorker

theorem Sound.freeOne {next : Heap nworkers} (sound : Sound heap live)
    (freed : heap.freeOne w size index = some next) : Sound next live := by
  obtain ⟨mem, found, rfl⟩ := Option.map_eq_some_iff.mp freed
  have first : contents heap live (.worker w, index) =
      [] ++ mem :: (heap.bucket w index).removeFromFreeList.freeList :=
    ImBucket.head_eq_some found
  constructor
  case carved =>
    have carved := sound.carved
    exact ⟨carved.begins, carved.ends, carved.noChunk, carved.inside,
      carved.below, carved.disjoint⟩
  case kept =>
    exact kept_modifyBucket sound.kept fun _ => .uncount
  case globalKept =>
    exact kept_modifyGlobal sound.globalKept fun _ => .addToFreeList
  case placed =>
    refine sound.placed.transfer (.worker w) .global (by simp) first ?_ ?_ ?_
    · exact (congrArg ImBucket.freeList bucket_modifyBucket).trans rfl
    · exact congrArg ImBucket.freeList modifyBucket_same
    · intro place notWorker notGlobal
      refine contents_exchange ?_ notWorker notGlobal
      intro other different
      exact congrArg ImBucket.freeList (modifyBucket_of_ne different)

theorem Sound.congr {next : Heap nworkers} (sound : Sound heap live)
    (sameGlobal : next.global = heap.global)
    (sameBuckets : ∀ w index, next.bucket w index = heap.bucket w index) :
    Sound next live := by
  constructor
  case carved => exact sameGlobal ▸ sound.carved
  case globalKept => exact sameGlobal ▸ sound.globalKept
  case kept =>
    intro w index
    rw [sameBuckets w index]
    exact sound.kept w index
  case placed =>
    rw [sameGlobal]
    apply sound.placed.congr
    rintro ⟨place, index⟩
    cases place with
    | client => rfl
    | worker w => exact congrArg ImBucket.freeList (sameBuckets w index)
    | global => simp [contents, sameGlobal]

/-- The counters of a worker may change. -/
theorem bucket_modifyDesc {change : ImDesc → ImDesc} {other : Fin nworkers}
    {otherIndex : BucketIndex} {changeBucket : ImBucket → ImBucket}
    (same : ∀ desc : ImDesc, (change desc).buckets =
      (desc.modifyBucket index changeBucket).buckets) :
    (heap.modifyDesc w change).bucket other otherIndex =
      (heap.modifyBucket w index changeBucket).bucket other otherIndex := by
  by_cases sameWorker : other = w
  · subst other
    simp [Heap.modifyBucket, Heap.modifyDesc, Heap.bucket, same]
  · simp [Heap.modifyBucket, Heap.modifyDesc, Heap.bucket,
      Function.update_of_ne sameWorker]

theorem bucket_countMalloc {other : Fin nworkers} {otherIndex : BucketIndex} :
    (heap.modifyDesc w (Heap.countMalloc size tag index)).bucket other
        otherIndex =
      (heap.modifyBucket w index
        (.waste (bucketSizes index - size))).bucket other otherIndex :=
  bucket_modifyDesc fun _ => rfl

theorem bucket_countFree {other : Fin nworkers} {otherIndex : BucketIndex} :
    (heap.modifyDesc w (Heap.countFree size tag index)).bucket other
        otherIndex =
      (heap.modifyBucket w index
        (.waste (-(bucketSizes index - size)))).bucket other otherIndex :=
  bucket_modifyDesc fun _ => rfl

theorem ImBucket.Kept.waste {bucket : ImBucket} {bytes : ℤ}
    (kept : bucket.Kept index) : (bucket.waste bytes).Kept index :=
  ⟨kept.counted, kept.limit, kept.watermark⟩

theorem kept_countMalloc (kept : Kept heap) :
    Kept (heap.modifyDesc w (Heap.countMalloc size tag index)) := by
  intro other otherIndex
  rw [bucket_countMalloc]
  exact kept_modifyBucket kept (fun _ => .waste) other otherIndex

theorem kept_countFree (kept : Kept heap) :
    Kept (heap.modifyDesc w (Heap.countFree size tag index)) := by
  intro other otherIndex
  rw [bucket_countFree]
  exact kept_modifyBucket kept (fun _ => .waste) other otherIndex

theorem Sound.waste {bytes : ℤ} (sound : Sound heap live) :
    Sound (heap.modifyBucket w index (.waste bytes)) live :=
  sound.modifyBucket (fun _ => rfl) fun _ => .waste

theorem Sound.countMalloc (sound : Sound heap live) :
    Sound (heap.modifyDesc w (Heap.countMalloc size tag index)) live :=
  sound.waste.congr rfl fun _ _ => bucket_countMalloc

theorem Sound.countFree (sound : Sound heap live) :
    Sound (heap.modifyDesc w (Heap.countFree size tag index)) live :=
  sound.waste.congr rfl fun _ _ => bucket_countFree

theorem liveBlocks_middle (inBucket : allocation.bucket = index) :
    liveBlocks (before ++ allocation :: after) index =
      liveBlocks before index ++ allocation.block :: liveBlocks after index := by
  simp [liveBlocks, inBucket]

theorem liveBlocks_middle_of_ne (notInBucket : allocation.bucket ≠ index) :
    liveBlocks (before ++ allocation :: after) index =
      liveBlocks (before ++ after) index := by
  simp [liveBlocks, notInBucket]

theorem liveBlocks_append :
    liveBlocks (before ++ after) index =
      liveBlocks before index ++ liveBlocks after index := by
  simp [liveBlocks]

/-- A block goes from a worker to the client. -/
theorem Sound.handOut (sound : Sound heap live)
    (found : (heap.bucket w index).head = some mem)
    (inBucket : (⟨mem, size, tag⟩ : Allocation).bucket = index) :
    Sound (heap.modifyBucket w index .removeFromFreeList)
      (⟨mem, size, tag⟩ :: live) := by
  have first : contents heap live (.worker w, index) =
      [] ++ mem :: (heap.bucket w index).removeFromFreeList.freeList :=
    ImBucket.head_eq_some found
  refine ⟨sound.carved, ?_,
    kept_modifyBucket sound.kept fun _ => .removeFromFreeList, sound.globalKept⟩
  refine sound.placed.transfer (.worker w) .client (by simp) first ?_ ?_ ?_
  · exact congrArg ImBucket.freeList bucket_modifyBucket
  · exact @liveBlocks_middle [] _ _ _ inBucket
  · rintro ⟨place, other⟩ notWorker notClient
    cases place with
    | client =>
        have notInBucket : (⟨mem, size, tag⟩ : Allocation).bucket ≠ other :=
          fun same => notClient (by rw [← same, inBucket])
        exact @liveBlocks_middle_of_ne [] _ _ _ notInBucket
    | worker v => exact contents_modifyBucket_of_ne notWorker
    | global => rfl

/-- A block goes from the client to a worker. -/
theorem Sound.giveBack (sound : Sound heap (before ++ allocation :: after))
    (inBucket : allocation.bucket = index) :
    Sound (heap.giveBack w allocation.block size tag index)
      (before ++ after) := by
  have counted := @Sound.countFree _ _ _ w index size tag sound
  refine ⟨counted.carved, ?_,
    kept_modifyBucket counted.kept fun _ => .addToFreeList, counted.globalKept⟩
  refine counted.placed.transfer .client (.worker w) (by simp)
    (liveBlocks_middle inBucket) liveBlocks_append ?_ ?_
  · exact congrArg ImBucket.freeList bucket_modifyBucket
  · rintro ⟨place, other⟩ notClient notWorker
    cases place with
    | client =>
        have notInBucket : allocation.bucket ≠ other :=
          fun same => notClient (by rw [← same, inBucket])
        exact (liveBlocks_middle_of_ne notInBucket).symm
    | worker v => exact contents_modifyBucket_of_ne notWorker
    | global => rfl

end Moves

end Multicilk.Allocator
