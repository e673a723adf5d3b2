import Multicilk.Allocator.Accounting

/-!
# The leak check at shutdown

While the workers run, the workers and the global state count the same bytes.
The root closure and its fiber are freed without a worker, which takes them off
one side only.  Every check comes after that.
-/

namespace Multicilk.Allocator

open Totals TransitionSystem

section Clients

variable {nworkers : ℕ} {memory next : State nworkers}
  {before after : List Allocation} {allocation : Allocation}
  {action : Action nworkers} {index : BucketIndex}

theorem sizeToBucket_eq {size : ℕ} (small : size ≤ sizeThresh) :
    sizeToBucket size = some (bucketOf size) := by
  obtain ⟨index, found⟩ := sizeToBucket_of_le small
  simp [bucketOf, found]

/-- The blocks of a bucket that have been obtained and that neither a worker
nor the client has. -/
def unaccounted (memory : State nworkers) (index : BucketIndex) : ℤ :=
  out memory.heap index - (liveBlocks memory.live index).length

theorem liveBlocks_length :
    ((liveBlocks (before ++ allocation :: after) index).length : ℤ) =
      (liveBlocks (before ++ after) index).length +
        if index = allocation.bucket then 1 else 0 := by
  by_cases same : index = allocation.bucket
  · rw [liveBlocks_middle same.symm, liveBlocks_append, List.length_append,
      List.length_append, List.length_cons, if_pos same]
    omega
  · rw [liveBlocks_middle_of_ne (Ne.symm same), if_neg same, Int.add_zero]

/-- What is known of the books between the operations. -/
structure Bookkept (memory : State nworkers) : Prop where
  kept : Kept memory.heap
  short : Short memory.heap
  small : ∀ allocation ∈ memory.live, allocation.size ≤ sizeThresh

/-- The clients keep the books even. -/
theorem Bookkept.step (books : Bookkept memory)
    (taken : Step memory action next) :
    Bookkept next ∧ debt next.heap = debt memory.heap ∧
      ∀ index, unaccounted next index = unaccounted memory index := by
  cases taken with
  | malloc small handed =>
      rename_i w size tag block
      have booked := booked_malloc books.kept (sizeToBucket_eq small) handed
      refine ⟨⟨booked.kept, books.short.cilkInternalMalloc, ?_⟩, ?_, ?_⟩
      · intro allocation member
        rcases List.mem_cons.mp member with rfl | earlier
        · exact small
        · exact books.small allocation earlier
      · rw [booked.debtChange, Int.add_zero]
      · intro index
        have more : ((liveBlocks (⟨block, size, tag⟩ :: memory.live)
            index).length : ℤ) = (liveBlocks memory.live index).length +
              if index = bucketOf size then 1 else 0 :=
          @liveBlocks_length [] memory.live ⟨block, size, tag⟩ index
        rw [unaccounted, booked.outChange, more, unaccounted]
        omega
  | free shape =>
      rename_i w before after allocation
      have member : allocation ∈ memory.live := by simp [shape]
      have booked := @booked_free _ _ w _ _ allocation.tag allocation.block
        books.kept (sizeToBucket_eq (books.small allocation member))
      have short : Short (memory.heap.cilkInternalFree w allocation.block
          allocation.size allocation.tag) :=
        books.short.cilkInternalFree books.kept
      refine ⟨⟨booked.kept, short, ?_⟩, ?_, ?_⟩
      · intro other otherMember
        apply books.small other
        rw [shape]
        exact List.mem_append.mpr ((List.mem_append.mp otherMember).imp_right
          (List.mem_cons_of_mem _))
      · rw [booked.debtChange, Int.add_zero]
      · intro index
        have more : ((liveBlocks memory.live index).length : ℤ) =
            (liveBlocks (before ++ after) index).length +
              if index = bucketOf allocation.size then 1 else 0 := by
          rw [shape]
          exact liveBlocks_length
        simp only [unaccounted, booked.outChange, more]
        split <;> omega

end Clients

section Runtimes

variable {others : ℕ} {sizes : RuntimeSizes} {s target : Runtime others}
  {event : Event others}

/-- The bytes that have been taken off the global state alone. -/
def unmatched (sizes : RuntimeSizes) : Phase → ℤ
  | .starting | .closureCreated _ | .running _ _ => 0
  | .fiberFreed _ => bucketSizes (bucketOf sizes.fiber)
  | _ => bucketSizes (bucketOf sizes.fiber) +
      bucketSizes (bucketOf sizes.closure)

/-- The root closure has been obtained and goes back to no worker. -/
def rootBlocks (sizes : RuntimeSizes) (index : BucketIndex) : Phase → ℤ
  | .starting => 0
  | _ => if index = bucketOf sizes.closure then 1 else 0

structure Books (sizes : RuntimeSizes) (s : Runtime others) : Prop where
  bookkept : Bookkept s.memory
  even : s.phase.workersRun = true → debt s.memory.heap = 0
  debt : unmatched sizes s.phase ≤ debt s.memory.heap
  blocks : ∀ index,
    rootBlocks sizes index s.phase ≤ unaccounted s.memory index

theorem books_start : Books sizes (Runtime.start others) := by
  have noBytes : debt (initial (others + 1)).heap = 0 := by
    simp [debt, workersBytes, ImDesc.bytes, ImBucket.bytes, total, initial,
      Heap.init, ImDesc.init, ImBucket.init, GlobalState.init]
  constructor
  case bookkept =>
    exact ⟨fun _ _ => ⟨rfl, rfl, Int.le_refl _⟩, fun _ _ => Nat.zero_le _,
      fun _ member => absurd member List.not_mem_nil⟩
  case even => exact fun _ => noBytes
  case debt => exact Int.le_of_eq noBytes.symm
  case blocks =>
    intro index
    apply Int.le_of_eq
    simp [rootBlocks, Runtime.start, unaccounted, out, total, initial,
      Heap.init, ImDesc.init, ImBucket.init, ImBucket.out, liveBlocks]

/-- What an event on the heap alone has to keep. -/
theorem Books.heap {memory : State (others + 1)} {heap : Heap (others + 1)}
    {phase next : Phase} {bytes blocks : ℤ} {index : BucketIndex}
    (books : Books sizes ⟨memory, phase⟩)
    (booked : Booked bytes index blocks memory.heap heap) (short : Short heap)
    (even : next.workersRun = true → phase.workersRun = true ∧ bytes = 0)
    (less : unmatched sizes next ≤ unmatched sizes phase + bytes)
    (roots : ∀ other, rootBlocks sizes other next ≤
      rootBlocks sizes other phase + if other = index then blocks else 0) :
    Books sizes ⟨{ memory with heap }, next⟩ := by
  constructor
  case bookkept => exact ⟨booked.kept, short, books.bookkept.small⟩
  case even =>
    intro runs
    obtain ⟨ran, none⟩ := even runs
    exact booked.debtChange.trans (by rw [books.even ran, none]; rfl)
  case debt =>
    have debt := Int.add_le_add_right books.debt bytes
    exact Int.le_trans less (Int.le_trans debt
      (Int.le_of_eq booked.debtChange.symm))
  case blocks =>
    intro other
    have before := books.blocks other
    have change := booked.outChange other
    have more := roots other
    simp only [unaccounted] at before ⊢
    omega

/-- What the client gets and gives back is not taken from the books. -/
theorem Books.client {memory next : State (others + 1)}
    {action : Action (others + 1)} {phase : Phase}
    (books : Books sizes ⟨memory, phase⟩) (taken : Step memory action next) :
    Books sizes ⟨next, phase⟩ := by
  obtain ⟨bookkept, sameDebt, same⟩ := books.bookkept.step taken
  constructor
  case bookkept => exact bookkept
  case even => exact fun runs => sameDebt.trans (books.even runs)
  case debt => exact Int.le_trans books.debt (Int.le_of_eq sameDebt.symm)
  case blocks =>
    exact fun index =>
      Int.le_trans (books.blocks index) (Int.le_of_eq (same index).symm)

theorem Books.step (books : Books sizes s)
    (taken : RuntimeStep sizes s event target) : Books sizes target := by
  have kept := books.bookkept.kept
  have short := books.bookkept.short
  cases taken with
  | client runs taken => exact books.client taken
  | createClosure handed =>
      apply books.heap (booked_malloc kept
        (sizeToBucket_eq sizes.closureSmall) handed) short.cilkInternalMalloc
      · exact fun _ => ⟨rfl, rfl⟩
      · exact Int.le_refl _
      · exact fun _ => Int.le_of_eq (Int.zero_add _).symm
  | createFiber handed =>
      apply books.heap (booked_malloc kept
        (sizeToBucket_eq sizes.fiberSmall) handed) short.cilkInternalMalloc
      · exact fun _ => ⟨rfl, rfl⟩
      · exact Int.le_refl _
      · intro index
        simp only [rootBlocks]
        split <;> split <;> omega
  | freeRootFiber =>
      apply books.heap (booked_freeGlobal kept
        (sizeToBucket_eq sizes.fiberSmall)) short.cilkInternalFreeGlobal
      · exact nofun
      · exact Int.le_of_eq (Int.zero_add _).symm
      · exact fun _ => by simp [rootBlocks]
  | freeRootClosure =>
      apply books.heap (booked_freeGlobal kept
        (sizeToBucket_eq sizes.closureSmall)) short.cilkInternalFreeGlobal
      · exact nofun
      · exact Int.le_refl _
      · exact fun _ => by simp [rootBlocks]
  | terminateFree taken => exact books.client taken
  | checkBefore => exact ⟨books.bookkept, nofun, books.debt, books.blocks⟩
  | flush =>
      apply books.heap (@booked_perWorkerTerminate _ _ _ 0 kept)
        short.perWorkerTerminate
      · exact nofun
      · exact Int.le_of_eq (Int.add_zero _).symm
      · exact fun _ => by simp [rootBlocks]
  | checkAfter => exact ⟨books.bookkept, nofun, books.debt, books.blocks⟩
  | globalTerminate => exact ⟨books.bookkept, nofun, books.debt, books.blocks⟩
  | poolFree shape =>
      rename_i memory before after allocation
      have small := books.bookkept.small
      have member : allocation ∈ memory.live := by simp [shape]
      have booked := @booked_freeGlobal _ _ _ _ allocation.tag allocation.block
        kept (sizeToBucket_eq (small allocation member))
      have stillShort : Short (memory.heap.cilkInternalFreeGlobal
          allocation.block allocation.size allocation.tag) :=
        short.cilkInternalFreeGlobal
      have freed := @Books.heap _ _ _ _ _ .globalTerminating _ _ _ books booked
        stillShort nofun (Int.le_add_of_nonneg_right (Int.natCast_nonneg _))
        fun _ => by simp
      constructor
      case bookkept =>
        refine ⟨booked.kept, stillShort, fun other otherMember => small other ?_⟩
        rw [shape]
        exact List.mem_append.mpr ((List.mem_append.mp otherMember).imp_right
          (List.mem_cons_of_mem _))
      case even => exact nofun
      case debt => exact freed.debt
      case blocks =>
        intro index
        have blocks := freed.blocks index
        have more := @liveBlocks_length before after allocation index
        simp only [unaccounted, shape, more] at blocks ⊢
        split at blocks <;> omega
  | checkGlobal => exact ⟨books.bookkept, nofun, books.debt, books.blocks⟩

theorem Books.of_run {trace : List (Runtime others × Event others)}
    (run : Run (RuntimeStep sizes) (Runtime.start others) trace s) :
    Books sizes s :=
  run.invariant books_start fun _ _ _ books taken => books.step taken

/-- As long as workers run, the two sides of the check agree. -/
theorem globalCheck_of_workersRun
    {trace : List (Runtime others × Event others)}
    (run : Run (RuntimeStep sizes) (Runtime.start others) trace s)
    (runs : s.phase.workersRun = true) : globalCheck s.memory.heap = true := by
  have books := Books.of_run run
  exact (globalCheck_iff books.bookkept.kept books.bookkept.short).mpr
    (books.even runs)

theorem out_le_sumAllocations {nworkers : ℕ} (heap : Heap nworkers)
    (index : BucketIndex) : out heap index ≤ sumAllocations heap index := by
  have perWorker : ∀ bucket : ImBucket,
      bucket.allocated = bucket.out + bucket.freeList.length :=
    fun _ => (Int.sub_add_cancel ..).symm
  have sums : sumAllocations heap index =
      out heap index +
        total (fun _ desc => ((desc.buckets index).freeList.length : ℤ))
          heap.workers := by
    rw [out, ← total_add, sumAllocations, total, total]
    exact Finset.sum_congr rfl fun _ _ => perWorker _
  have nonneg : 0 ≤ total
      (fun _ (desc : ImDesc) => ((desc.buckets index).freeList.length : ℤ))
        heap.workers :=
    total_nonneg fun _ => Int.natCast_nonneg _
  omega

theorem unmatched_pos (phase : Phase) (stopped : phase.workersRun = false) :
    0 < unmatched sizes phase := by
  have fiber := (bucketSizes_bounds (bucketOf sizes.fiber)).1
  have closure := (bucketSizes_bounds (bucketOf sizes.closure)).1
  cases phase with
  | starting => cases stopped
  | closureCreated => cases stopped
  | running => cases stopped
  | _ =>
      simp only [unmatched]
      omega

theorem stopped_of_check {s target : Runtime others}
    (taken : RuntimeStep sizes s .check target) :
    s.phase.workersRun = false := by
  cases taken <;> rfl

/-- No run passes any of its checks, and none ends with a sum of zero for the
bucket of the root closure. -/
theorem leak_check_fails {trace : List (Runtime others × Event others)}
    (run : Run (RuntimeStep sizes) (Runtime.start others) trace s) :
    (∀ source, (source, Event.check) ∈ trace →
        globalCheck source.memory.heap = false) ∧
      (s.phase = .deinit →
        sumAllocations s.memory.heap (bucketOf sizes.closure) ≠ 0) := by
  constructor
  · intro source member
    obtain ⟨before, after, target, -, earlier, taken, -⟩ :=
      run.split_at_step member
    have positive := @unmatched_pos sizes source.phase (stopped_of_check taken)
    have books := Books.of_run earlier
    have debt := books.debt
    rw [← Bool.not_eq_true,
      globalCheck_iff books.bookkept.kept books.bookkept.short]
    omega
  · intro ended
    have blocks := (Books.of_run run).blocks (bucketOf sizes.closure)
    have sums := out_le_sumAllocations s.memory.heap (bucketOf sizes.closure)
    simp only [ended, rootBlocks, if_true, unaccounted] at blocks
    omega

end Runtimes

section Idle

def idleSizes : RuntimeSizes :=
  ⟨256, 48, by decide, by decide⟩

/-- A runtime with one worker is started, and shut down at once. -/
private theorem idle_run : ∃ trace source s,
    Run (RuntimeStep idleSizes) (Runtime.start 0) trace s ∧
      (source, Event.check) ∈ trace ∧
      globalCheck source.memory.heap = false ∧
      s.phase = .deinit ∧ s.memory.live = [] := by
  have closureCreated := Run.refl.snoc
    (@RuntimeStep.createClosure 0 idleSizes (initial 1) ⟨0, 31 * 256⟩
      (by decide +kernel))
  have running := closureCreated.snoc
    (@RuntimeStep.createFiber 0 idleSizes _ _ ⟨0, 32 * 256 + 63 * 64⟩
      (by decide +kernel))
  have terminating := (running.snoc .freeRootFiber).snoc .freeRootClosure
  have checked := terminating.snoc .checkBefore
  have flushed := checked.snoc (@RuntimeStep.flush 0 idleSizes _ 0)
  have ended := ((flushed.snoc .checkAfter).snoc .globalTerminate).snoc
    .checkGlobal
  refine ⟨_, _, _, ended, List.mem_append_left _ (List.mem_append_left _
    (List.mem_append_left _ (List.mem_append_left _
      (List.mem_append_right _ (List.mem_singleton_self _))))), ?_, rfl, rfl⟩
  decide +kernel

theorem leak_check_fails_idle : ∃ s : Runtime 0, s.phase = .deinit ∧
    s.memory.live = [] ∧
    sumAllocations s.memory.heap (bucketOf idleSizes.closure) ≠ 0 := by
  obtain ⟨trace, source, s, run, -, -, ended, leakFree⟩ := idle_run
  exact ⟨s, ended, leakFree, (leak_check_fails run).2 ended⟩

/-- What the runtime expects of every run without leaks. -/
def LeakCheckAccepts : Prop :=
  ∀ (others : ℕ) (sizes : RuntimeSizes)
    (trace : List (Runtime others × Event others)) (s : Runtime others),
    Run (RuntimeStep sizes) (Runtime.start others) trace s →
    s.phase = .deinit → s.memory.live = [] →
    (∀ source, (source, Event.check) ∈ trace →
        globalCheck source.memory.heap = true) ∧
      ∀ index, sumAllocations s.memory.heap index = 0

theorem idle_runtime_leaks : ¬ LeakCheckAccepts := by
  intro accepts
  obtain ⟨trace, source, s, run, member, rejected, ended, leakFree⟩ := idle_run
  have accepted := (accepts 0 _ trace s run ended leakFree).1 source member
  rw [rejected] at accepted
  cases accepted

end Idle

end Multicilk.Allocator
