import Multicilk.Allocator.Moves
import Multicilk.Support.Run

/-!
# The allocator keeps every block

Between the operations every block is in one place, and the free lists of the
workers are within their limits.
-/

namespace Multicilk.Allocator

open Inventory TransitionSystem

variable {nworkers : ℕ}

section Batches

variable {heap next : Heap nworkers} {live : List Allocation}
  {w other : Fin nworkers} {index otherIndex : BucketIndex} {size count : ℕ}
  {change : ImBucket → ImBucket} {tag : ImTag}

/-- The number of blocks in a free list. -/
def freeBlocks (heap : Heap nworkers) (w : Fin nworkers) (index : BucketIndex) :
    ℕ :=
  (heap.bucket w index).freeList.length

theorem freeBlocks_modifyBucket :
    freeBlocks (heap.modifyBucket w index change) w index =
      (change (heap.bucket w index)).freeList.length :=
  congrArg (List.length ∘ ImBucket.freeList) bucket_modifyBucket

/-- What an operation of a worker on one of its buckets can do. -/
structure Serves (w : Fin nworkers) (index : BucketIndex)
    (live : List Allocation) (heap next : Heap nworkers) : Prop where
  sound : Sound heap live → Sound next live
  kept : Kept heap → Kept next
  others : ∀ other otherIndex, (other, otherIndex) ≠ (w, index) →
    next.bucket other otherIndex = heap.bucket other otherIndex

theorem Serves.refl (heap : Heap nworkers) : Serves w index live heap heap :=
  ⟨id, id, fun _ _ _ => rfl⟩

theorem Serves.trans {last : Heap nworkers}
    (first : Serves w index live heap next)
    (second : Serves w index live next last) : Serves w index live heap last := by
  constructor
  case sound => exact second.sound ∘ first.sound
  case kept => exact second.kept ∘ first.kept
  case others =>
    intro other otherIndex different
    exact (second.others other otherIndex different).trans
      (first.others other otherIndex different)

theorem batchSize_bounds (index : BucketIndex) :
    0 < Heap.batchSize index ∧ Heap.batchSize index ≤ bucketCapacity index := by
  revert index
  decide

theorem serves_allocateOne :
    Serves w index live heap
      (heap.allocateOne w (bucketSizes index) index) :=
  ⟨.allocateOne, fun kept => kept_modifyBucket kept fun _ => .addToFreeList,
    fun _ _ => bucket_modifyBucket_of_ne⟩

theorem freeBlocks_allocateOne :
    freeBlocks (heap.allocateOne w size index) w index =
      freeBlocks heap w index + 1 :=
  freeBlocks_modifyBucket

theorem allocateOne_iterate (count : ℕ) (heap : Heap nworkers) :
    Serves w index live heap
        ((Heap.allocateOne w (bucketSizes index) index)^[count] heap) ∧
      freeBlocks ((Heap.allocateOne w (bucketSizes index) index)^[count] heap) w
        index = freeBlocks heap w index + count := by
  induction count generalizing heap with
  | zero => exact ⟨.refl heap, rfl⟩
  | succ count ih =>
      obtain ⟨serves, length⟩ :=
        ih (heap.allocateOne w (bucketSizes index) index)
      rw [Function.iterate_succ_apply]
      refine ⟨serves_allocateOne.trans serves, ?_⟩
      rw [length, freeBlocks_allocateOne]
      omega

theorem imAllocateBatch_spec :
    Serves w index live heap
        (heap.imAllocateBatch w (bucketSizes index) index) ∧
      freeBlocks (heap.imAllocateBatch w (bucketSizes index) index) w index =
        freeBlocks heap w index + Heap.batchSize index := by
  obtain ⟨serves, length⟩ := @allocateOne_iterate _ live w index
    (Heap.batchSize index) heap
  constructor
  · apply serves.trans
    constructor
    case sound => exact fun sound =>
      sound.modifyBucket (fun _ => rfl) fun _ => .countBatch
    case kept => exact fun kept => kept_modifyBucket kept fun _ => .countBatch
    case others => exact fun _ _ => bucket_modifyBucket_of_ne
  · rw [← length]
    exact freeBlocks_modifyBucket

theorem freeOne_spec (freed : heap.freeOne w size index = some next) :
    Serves w index live heap next ∧
      freeBlocks heap w index = freeBlocks next w index + 1 := by
  refine ⟨⟨fun sound => sound.freeOne freed, ?_, ?_⟩, ?_⟩
  · obtain ⟨mem, -, rfl⟩ := Option.map_eq_some_iff.mp freed
    intro kept
    exact @kept_modifyBucket _ { heap with global := _ } w index _ kept
      fun _ => .uncount
  · obtain ⟨mem, -, rfl⟩ := Option.map_eq_some_iff.mp freed
    exact fun _ _ => bucket_modifyBucket_of_ne
  · obtain ⟨mem, found, rfl⟩ := Option.map_eq_some_iff.mp freed
    have first := congrArg List.length (ImBucket.head_eq_some found)
    rw [freeBlocks_modifyBucket]
    exact first

theorem freeBlocks_of_freeOne_eq_none
    (ended : heap.freeOne w size index = none) : freeBlocks heap w index = 0 :=
  List.length_eq_zero_iff.mpr
    (ImBucket.head_eq_none (Option.map_eq_none_iff.mp ended)).1

theorem freeMany_spec (count : ℕ) (heap : Heap nworkers) :
    Serves w index live heap (heap.freeMany w size index count) ∧
      freeBlocks (heap.freeMany w size index count) w index =
        freeBlocks heap w index - count := by
  induction count generalizing heap with
  | zero => exact ⟨.refl heap, rfl⟩
  | succ count ih =>
      cases freed : heap.freeOne w size index with
      | none =>
          have empty := freeBlocks_of_freeOne_eq_none freed
          simp only [Heap.freeMany, freed]
          exact ⟨.refl heap, by omega⟩
      | some next =>
          obtain ⟨serves, length⟩ := ih next
          obtain ⟨first, longer⟩ := @freeOne_spec _ _ _ live _ _ _ freed
          simp only [Heap.freeMany, freed]
          exact ⟨first.trans serves, by omega⟩

theorem overLimit_iff (kept : Kept heap)
    (fits : freeBlocks heap w index < 2 ^ 32) :
    Heap.overLimit (heap.bucket w index) = true ↔
      bucketCapacity index < freeBlocks heap w index := by
  have counted := (kept w index).counted_eq fits
  simp [Heap.overLimit, (kept w index).limit, counted, freeBlocks]

/-- A worker whose free list is too long gives batches back until it is not. -/
theorem freeWhile_spec (fuel : ℕ) (heap : Heap nworkers) (kept : Kept heap)
    (fits : freeBlocks heap w index < 2 ^ 32)
    (enough : freeBlocks heap w index ≤ fuel) :
    Serves w index live heap
        (heap.freeWhile w size index Heap.overLimit fuel) ∧
      freeBlocks (heap.freeWhile w size index Heap.overLimit fuel) w index ≤
        bucketCapacity index := by
  induction fuel generalizing heap with
  | zero =>
      refine ⟨.refl heap, ?_⟩
      exact Nat.le_trans enough (Nat.zero_le _)
  | succ fuel ih =>
      by_cases long : Heap.overLimit (heap.bucket w index)
      · obtain ⟨serves, length⟩ := @freeMany_spec _ live w index size
          (Heap.batchSize index) heap
        have positive := (batchSize_bounds index).1
        have shorter :
            freeBlocks (heap.imFreeBatch w size index) w index ≤ fuel := by
          rw [Heap.imFreeBatch, length]
          omega
        have stillFits :
            freeBlocks (heap.imFreeBatch w size index) w index < 2 ^ 32 := by
          rw [Heap.imFreeBatch, length]
          omega
        obtain ⟨rest, short⟩ := ih _ (serves.kept kept) stillFits shorter
        rw [Heap.freeWhile, if_pos long]
        exact ⟨serves.trans rest, short⟩
      · rw [Heap.freeWhile, if_neg long]
        exact ⟨.refl heap, Nat.not_lt.mp (mt (overLimit_iff kept fits).mpr long)⟩

end Batches

section Operations

variable {heap : Heap nworkers} {live before after : List Allocation}
  {s target : State nworkers} {action : Action nworkers} {w : Fin nworkers}
  {index : BucketIndex} {size : ℕ} {tag : ImTag} {p : Block}
  {allocation : Allocation}

/-- The free lists of the workers are within their limits. -/
def Short (heap : Heap nworkers) : Prop :=
  ∀ w index, freeBlocks heap w index ≤ bucketCapacity index

/-- What holds between the operations. -/
structure Between (s : State nworkers) : Prop where
  sound : Sound s.heap s.live
  short : Short s.heap
  small : ∀ allocation ∈ s.live, allocation.size ≤ sizeThresh

theorem Short.step {next : Heap nworkers} (short : Short heap)
    (served : freeBlocks next w index ≤ bucketCapacity index)
    (others : ∀ other otherIndex, (other, otherIndex) ≠ (w, index) →
      next.bucket other otherIndex = heap.bucket other otherIndex) :
    Short next := by
  intro other otherIndex
  by_cases same : (other, otherIndex) = (w, index)
  · cases same
    exact served
  · rw [freeBlocks, others other otherIndex same]
    exact short other otherIndex

theorem bucketCapacity_le (index : BucketIndex) : bucketCapacity index ≤ 256 := by
  revert index
  decide

/-- A list within its limit is short enough for its counter. -/
theorem Short.counted (short : Short heap) (kept : Kept heap)
    (w : Fin nworkers) (index : BucketIndex) :
    (heap.bucket w index).freeListSize =
      (heap.bucket w index).freeList.length := by
  apply (kept w index).counted_eq
  have few := Nat.le_trans (short w index) (bucketCapacity_le index)
  rw [freeBlocks] at few
  omega

theorem between_initial : Between (initial nworkers) := by
  constructor
  case sound => exact sound_init
  case short => exact fun _ _ => Nat.zero_le _
  case small => exact nofun

theorem refill_spec (short : Short heap) :
    Serves w index live heap (heap.refill w index) ∧
      Short (heap.refill w index) ∧
      ∃ mem, ((heap.refill w index).bucket w index).head = some mem := by
  cases first : (heap.bucket w index).head with
  | some mem =>
      have same : heap.refill w index = heap := by simp [Heap.refill, first]
      rw [same]
      exact ⟨.refl heap, short, mem, first⟩
  | none =>
      have batch : heap.refill w index =
          heap.imAllocateBatch w (bucketSizes index) index := by
        simp [Heap.refill, first]
      have empty : freeBlocks heap w index = 0 :=
        List.length_eq_zero_iff.mpr (ImBucket.head_eq_none first).1
      obtain ⟨positive, withinLimit⟩ := batchSize_bounds index
      obtain ⟨serves, length⟩ := @imAllocateBatch_spec _ heap live w index
      rw [batch]
      refine ⟨serves, short.step (by omega) serves.others, ?_⟩
      apply Option.ne_none_iff_exists'.mp
      intro none
      have noBlock := congrArg List.length (ImBucket.head_eq_none none).1
      simp only [freeBlocks, List.length_nil] at noBlock length
      omega

theorem serves_countMalloc :
    Serves w index live heap
        (heap.modifyDesc w (Heap.countMalloc size tag index)) ∧
      freeBlocks (heap.modifyDesc w (Heap.countMalloc size tag index)) w index =
        freeBlocks heap w index := by
  refine ⟨⟨.countMalloc, kept_countMalloc, ?_⟩, ?_⟩
  · intro other otherIndex different
    exact bucket_countMalloc.trans (bucket_modifyBucket_of_ne different)
  · rw [freeBlocks, bucket_countMalloc, bucket_modifyBucket]
    rfl

/-- The free list from which a block is going to be taken. -/
theorem filled_spec (short : Short heap) :
    let filled := (heap.modifyDesc w (Heap.countMalloc size tag index)).refill w
      index
    Serves w index live heap filled ∧ Short filled ∧
      ∃ mem, (filled.bucket w index).head = some mem := by
  obtain ⟨counted, same⟩ := @serves_countMalloc _ heap live w index size tag
  have shortCounted := short.step
    (Nat.le_trans (Nat.le_of_eq same) (short w index)) counted.others
  obtain ⟨refilled, stillShort, nonempty⟩ :=
    @refill_spec _ _ live w index shortCounted
  exact ⟨counted.trans refilled, stillShort, nonempty⟩

theorem Short.cilkInternalMalloc (short : Short heap) :
    Short (heap.cilkInternalMalloc w size tag).2 := by
  cases found : sizeToBucket size with
  | none => simpa only [Heap.cilkInternalMalloc, found] using short
  | some index =>
      obtain ⟨-, filled, mem, first⟩ :=
        @filled_spec _ heap [] w index size tag short
      simp only [Heap.cilkInternalMalloc, found]
      refine filled.step ?_ fun _ _ => bucket_modifyBucket_of_ne
      have before := filled w index
      rw [freeBlocks, ImBucket.head_eq_some first, List.length_cons] at before
      rw [freeBlocks_modifyBucket]
      exact Nat.le_of_succ_le before

/-- The assertion on the block holds, and the block is one that nobody has. -/
theorem Between.cilkInternalMalloc (between : Between s)
    (small : size ≤ sizeThresh) :
    ∃ mem, (s.heap.cilkInternalMalloc w size tag).1 = some (.block mem) ∧
      Between ⟨(s.heap.cilkInternalMalloc w size tag).2,
        ⟨mem, size, tag⟩ :: s.live⟩ := by
  obtain ⟨index, found⟩ := sizeToBucket_of_le small
  obtain ⟨serves, -, mem, first⟩ :=
    @filled_spec _ _ s.live w index size tag between.short
  refine ⟨mem, by simp [Heap.cilkInternalMalloc, found, first], ?_⟩
  constructor
  case sound =>
    simp only [Heap.cilkInternalMalloc, found]
    exact (serves.sound between.sound).handOut first
      (Allocation.bucket_eq found)
  case short => exact between.short.cilkInternalMalloc
  case small =>
    intro allocation member
    rcases List.mem_cons.mp member with rfl | earlier
    · exact small
    · exact between.small allocation earlier

theorem freeBlocks_giveBack :
    freeBlocks (heap.giveBack w p size tag index) w index =
      freeBlocks heap w index + 1 := by
  have counted := congrArg (List.length ∘ ImBucket.freeList)
    (@bucket_countFree _ heap w index size tag w index)
  rw [bucket_modifyBucket] at counted
  exact freeBlocks_modifyBucket.trans (congrArg (· + 1) counted)

theorem kept_giveBack (kept : Kept heap) :
    Kept (heap.giveBack w p size tag index) :=
  kept_modifyBucket (kept_countFree kept) fun _ => .addToFreeList

/-- What a worker does after a block has been given back. -/
theorem freed_spec (kept : Kept heap) (short : Short heap) :
    let freed := heap.giveBack w p size tag index
    let rest := freed.freeWhile w (bucketSizes index) index Heap.overLimit
      (freed.bucket w index).freeList.length
    Serves w index live freed rest ∧ Short rest := by
  intro freed rest
  have longer : freeBlocks freed w index = freeBlocks heap w index + 1 :=
    freeBlocks_giveBack
  have few := Nat.le_trans (short w index) (bucketCapacity_le index)
  obtain ⟨serves, within⟩ := @freeWhile_spec _ live w index
    (bucketSizes index) _ freed (kept_giveBack kept) (by omega) (Nat.le_refl _)
  refine ⟨serves, short.step within ?_⟩
  intro other otherIndex different
  refine (serves.others other otherIndex different).trans ?_
  refine (bucket_modifyBucket_of_ne different).trans ?_
  exact bucket_countFree.trans (bucket_modifyBucket_of_ne different)

theorem Short.cilkInternalFree (short : Short heap) (kept : Kept heap) :
    Short (heap.cilkInternalFree w p size tag) := by
  cases found : sizeToBucket size with
  | none => simpa only [Heap.cilkInternalFree, found] using short
  | some index =>
      simp only [Heap.cilkInternalFree, found]
      exact (@freed_spec _ heap [] w index size tag p kept short).2

theorem Between.cilkInternalFree (between : Between s)
    (shape : s.live = before ++ allocation :: after) :
    Between ⟨s.heap.cilkInternalFree w allocation.block allocation.size
      allocation.tag, before ++ after⟩ := by
  have member : allocation ∈ s.live := by simp [shape]
  obtain ⟨index, found⟩ := sizeToBucket_of_le (between.small allocation member)
  have given := @Sound.giveBack _ _ _ _ w index allocation.size allocation.tag _
    (shape ▸ between.sound) (Allocation.bucket_eq found)
  obtain ⟨serves, -⟩ := @freed_spec _ s.heap (before ++ after) w index
    allocation.size allocation.tag allocation.block between.sound.kept
    between.short
  constructor
  case sound =>
    simp only [Heap.cilkInternalFree, found]
    exact serves.sound given
  case short => exact between.short.cilkInternalFree between.sound.kept
  case small =>
    intro other otherMember
    apply between.small other
    rw [shape]
    exact List.mem_append.mpr ((List.mem_append.mp otherMember).imp_right
      (List.mem_cons_of_mem _))

theorem Between.step (between : Between s) (taken : Step s action target) :
    Between target := by
  cases taken with
  | malloc small found =>
      rename_i w size tag block
      obtain ⟨mem, sameFound, next⟩ := @cilkInternalMalloc _ _ w _ tag between small
      rw [found] at sameFound
      cases sameFound
      exact next
  | free shape => exact between.cilkInternalFree shape

theorem Between.of_run {trace : List (State nworkers × Action nworkers)}
    (run : Run Step (initial nworkers) trace s) : Between s :=
  run.invariant between_initial fun _ _ _ between taken => between.step taken

end Operations

section Clients

/-- A worker allocates a block. -/
def allocate (w : Fin nworkers) (size : ℕ) (s : State nworkers) :
    State nworkers :=
  match s.heap.cilkInternalMalloc w size .unclassified with
  | (some (.block mem), heap) => ⟨heap, ⟨mem, size, .unclassified⟩ :: s.live⟩
  | _ => s

/-- It frees what has been allocated last. -/
def freeLast (w : Fin nworkers) (s : State nworkers) : State nworkers :=
  match s.live with
  | [] => s
  | allocation :: rest =>
      ⟨s.heap.cilkInternalFree w allocation.block allocation.size
        allocation.tag, rest⟩

variable {s : State nworkers} {w : Fin nworkers} {size : ℕ}

theorem allocate_step (small : size ≤ sizeThresh) :
    allocate w size s = s ∨ ∃ action, Step s action (allocate w size s) := by
  unfold allocate
  split
  next mem heap found =>
      have taken : Step s (.malloc w size .unclassified) _ :=
        .malloc small (congrArg Prod.fst found)
      rw [found] at taken
      exact .inr ⟨_, taken⟩
  next => exact .inl rfl

theorem freeLast_step :
    freeLast w s = s ∨ ∃ action, Step s action (freeLast w s) := by
  unfold freeLast
  split
  next => exact .inl rfl
  next allocation rest shape =>
      exact .inr ⟨_, @Step.free _ _ w [] _ _ shape⟩

end Clients

end Multicilk.Allocator
