import Mathlib.Algebra.Order.BigOperators.Group.List
import Mathlib.Algebra.Order.Group.Defs
import Mathlib.Algebra.Order.Group.Int
import Multicilk.Allocator.ChunkUse

/-!
# The equation of the global pool

The global check adds what is used, what is free and what can still be cut off,
and leaves the wasted bytes out.  Nothing is wasted, so that this is what the
system has given, unless a global free list is too long for its counter.
-/

namespace Multicilk.Allocator

open Totals TransitionSystem

/-- The test in `internal_malloc_global_check` that is about the global state
alone. -/
def poolCheck (global : GlobalState) : Bool :=
  global.imDesc.used + freeBytes global.imDesc +
    (global.imPool.memEnd - global.imPool.memBegin : ℤ) =
      global.imPool.allocated

/-- The length of every global free list fits into its counter. -/
def ListsFit (global : GlobalState) : Prop :=
  ∀ index, (global.imDesc.buckets index).freeList.length < 2 ^ 32

section Equation

variable {desc : ImDesc} {global : GlobalState}

/-- Free blocks are missed by the counters as soon as one list is too long. -/
theorem freeBytes_eq_iff (kept : ∀ index, (desc.buckets index).Kept index) :
    freeBytes desc = listBytes desc ↔
      ∀ index, (desc.buckets index).freeList.length < 2 ^ 32 := by
  have fewer : ∀ index ∈ Finset.univ,
      ((desc.buckets index).freeListSize * bucketSizes index : ℤ) ≤
        (desc.buckets index).freeList.length * bucketSizes index := by
    intro index _
    rw [(kept index).counted]
    exact_mod_cast Nat.mul_le_mul_right _ (Nat.mod_le _ _)
  refine (Finset.sum_eq_sum_iff_of_le fewer).trans ?_
  constructor
  · intro same index
    have equal := same index (Finset.mem_univ index)
    have size := (bucketSizes_bounds index).1
    rw [(kept index).counted] at equal
    have short := Nat.eq_of_mul_eq_mul_right size (by exact_mod_cast equal)
    rw [← short]
    exact Nat.mod_lt _ (by decide)
  · intro fits index _
    rw [(kept index).counted_eq (fits index)]

theorem Balanced.poolCheck_iff (balanced : Balanced global)
    (wasted : global.imPool.wasted = 0) :
    poolCheck global = true ↔ ListsFit global := by
  have balance := balanced.balance
  rw [wasted] at balance
  rw [poolCheck, decide_eq_true_iff, ListsFit, ← freeBytes_eq_iff balanced.kept]
  omega

end Equation

section Runtimes

variable {others : ℕ} {sizes : RuntimeSizes} {s : Runtime others}

/-- No chunk is left before it has been cut up, and what the global check
demands of the chunks holds between all operations, exactly as long as the
global free lists are short enough to be counted. -/
theorem chunks_never_wasted {trace : List (Runtime others × Event others)}
    (run : Run (RuntimeStep sizes) (Runtime.start others) trace s) :
    s.memory.heap.global.imPool.wasted = 0 ∧
      (poolCheck s.memory.heap.global = true ↔
        ListsFit s.memory.heap.global) := by
  have chunkUse := ChunkUse.of_run run
  exact ⟨chunkUse.wasted, chunkUse.balanced.poolCheck_iff chunkUse.wasted⟩

theorem iterate_client {change : State (others + 1) → State (others + 1)}
    {memory : State (others + 1)} {phase : Phase}
    (changes : ∀ s, change s = s ∨ ∃ action, Step s action (change s))
    (count : ℕ) (runs : phase.workersRun = true)
    (run : ∃ trace, Run (RuntimeStep sizes) (Runtime.start others) trace
      ⟨memory, phase⟩) :
    ∃ trace, Run (RuntimeStep sizes) (Runtime.start others) trace
      ⟨change^[count] memory, phase⟩ := by
  induction count generalizing memory with
  | zero => exact run
  | succ count ih =>
      apply ih
      rcases changes memory with same | ⟨action, taken⟩
      · rwa [same]
      · obtain ⟨trace, run⟩ := run
        exact ⟨_, run.snoc (.client runs taken)⟩

/-- A batch is cut off two chunks, and all blocks go back to the global free
lists. -/
theorem chunks_never_wasted_after_nine : ∃ s : Runtime 0,
    s.phase = .flushed 1 ∧ s.memory.heap.global.imPool.chunks = 2 ∧
      (s.memory.heap.global.imDesc.buckets 6).freeList.length = 12 ∧
      s.memory.heap.global.imPool.wasted = 0 ∧
      poolCheck s.memory.heap.global = true := by
  have created := Run.refl.snoc
    (@RuntimeStep.createClosure 0 idleSizes (initial 1) ⟨0, 31 * 256⟩
      (by decide +kernel))
  have running := created.snoc
    (@RuntimeStep.createFiber 0 idleSizes _ _ ⟨0, 32 * 256 + 63 * 64⟩
      (by decide +kernel))
  obtain ⟨_, run⟩ := iterate_client (fun _ => @freeLast_step 1 _ 0) 9 rfl
    (iterate_client (fun _ => @allocate_step 1 _ 0 2048 (by decide)) 9 rfl
      ⟨_, running⟩)
  have flushed := (((run.snoc .freeRootFiber).snoc .freeRootClosure).snoc
    .checkBefore).snoc (@RuntimeStep.flush 0 idleSizes _ 0)
  obtain ⟨wasted, checked⟩ := chunks_never_wasted flushed
  exact ⟨_, rfl, by decide +kernel, by decide +kernel, wasted,
    checked.mpr (by unfold ListsFit; decide +kernel)⟩

end Runtimes

section Places

variable {nworkers : ℕ} {peak final : Heap nworkers}
  {live roots : List Allocation} {index : BucketIndex}

/-- Where a block has gone that the client has had. -/
theorem mem_of_live (before : Between (⟨peak, live ++ roots⟩ : State nworkers))
    (after : Between (⟨final, roots⟩ : State nworkers))
    (sameCarved : final.global.carved = peak.global.carved) {block : Block}
    (member : block ∈ liveBlocks live index) :
    block ∈ liveBlocks roots index ++
      ((List.finRange nworkers).flatMap fun w =>
        (final.bucket w index).freeList) ++
      (final.global.imDesc.buckets index).freeList := by
  have partitioned := before.sound.placed.partitioned
  have atClient : block ∈ contents peak (live ++ roots) (.client, index) := by
    show block ∈ liveBlocks (live ++ roots) index
    rw [liveBlocks_append]
    exact List.mem_append_left _ member
  obtain ⟨piece, carved, rfl⟩ :=
    List.mem_map.mp ((partitioned.complete block).mpr ⟨_, atClient⟩)
  obtain ⟨place, there⟩ := before.sound.placed.bucketed piece carved
  have sameIndex := congrArg Prod.snd
    (partitioned.apart _ _ _ there atClient)
  obtain rfl : piece.2 = index := sameIndex
  rw [← sameCarved] at carved
  obtain ⟨place, found⟩ := after.sound.placed.bucketed piece carved
  cases place with
  | client =>
      exact List.mem_append_left _ (List.mem_append_left _ found)
  | worker w =>
      refine List.mem_append_left _ (List.mem_append_right _ ?_)
      exact List.mem_flatMap.mpr ⟨w, List.mem_finRange w, found⟩
  | global => exact List.mem_append_right _ found

/-- The workers keep few blocks, so that what the client has given back is in
the global free list. -/
theorem length_liveBlocks_le
    (before : Between (⟨peak, live ++ roots⟩ : State nworkers))
    (after : Between (⟨final, roots⟩ : State nworkers))
    (sameCarved : final.global.carved = peak.global.carved)
    (index : BucketIndex) :
    (liveBlocks live index).length ≤ roots.length + nworkers * 256 +
      (final.global.imDesc.buckets index).freeList.length := by
  have nodup : (liveBlocks live index).Nodup := by
    have all := before.sound.placed.partitioned.nodup (.client, index)
    have appended : contents peak (live ++ roots) (.client, index) =
        liveBlocks live index ++ liveBlocks roots index := liveBlocks_append
    rw [appended] at all
    exact all.of_append_left
  have kept := (List.subperm_of_subset nodup fun _ member =>
    mem_of_live before after sameCarved member).length_le
  have few : ((List.finRange nworkers).flatMap fun w =>
      (final.bucket w index).freeList).length ≤ nworkers * 256 := by
    rw [List.length_flatMap]
    refine (List.sum_le_card_nsmul _ 256 ?_).trans ?_
    · intro length member
      obtain ⟨w, -, rfl⟩ := List.mem_map.mp member
      exact Nat.le_trans (after.short w index) (bucketCapacity_le index)
    · simp
  have fewRoots : (liveBlocks roots index).length ≤ roots.length := by
    rw [liveBlocks, List.length_map]
    exact List.length_filter_le _ _
  rw [List.length_append, List.length_append] at kept
  omega

end Places

section LongLists

variable {others : ℕ} {sizes : RuntimeSizes} {s peak final : Runtime others}
  {roots : List Allocation} {trace : List (Runtime others × Event others)}
  {index : BucketIndex}

/-- While the clients run, the root closure and its fiber are allocations like
all others. -/
structure Rooted (roots : List Allocation) (s : Runtime others) : Prop where
  runs : s.phase.workersRun = true
  between : Between (⟨s.memory.heap, s.memory.live ++ roots⟩ : State (others + 1))

theorem exists_running (sizes : RuntimeSizes) :
    ∃ trace s roots, Run (RuntimeStep sizes) (Runtime.start others) trace s ∧
      Rooted roots s ∧ roots.length = 2 ∧ s.memory.live = [] := by
  obtain ⟨closure, gotClosure, withClosure⟩ :=
    @Between.cilkInternalMalloc _ (initial (others + 1)) 0 _ .closure
      between_initial sizes.closureSmall
  obtain ⟨fiber, gotFiber, withFiber⟩ :=
    @Between.cilkInternalMalloc _ _ 0 _ .fiber withClosure sizes.fiberSmall
  have created := Run.refl.snoc
    (@RuntimeStep.createClosure others sizes (initial (others + 1)) closure
      gotClosure)
  have running := created.snoc
    (@RuntimeStep.createFiber others sizes
      ⟨((initial (others + 1)).heap.cilkInternalMalloc 0 sizes.closure
        .closure).2, []⟩ closure fiber gotFiber)
  exact ⟨_, _, _, running, ⟨rfl, withFiber⟩, rfl, rfl⟩

/-- A worker allocates as many blocks as it likes. -/
theorem run_mallocs (count size : ℕ) (small : size ≤ sizeThresh)
    (w : Fin (others + 1))
    (run : Run (RuntimeStep sizes) (Runtime.start others) trace s)
    (rooted : Rooted roots s) :
    ∃ longer next added,
      Run (RuntimeStep sizes) (Runtime.start others) longer next ∧
      Rooted roots next ∧ next.memory.live = added ++ s.memory.live ∧
      added.length = count ∧ ∀ allocation ∈ added, allocation.size = size := by
  induction count with
  | zero => exact ⟨trace, s, [], run, rooted, rfl, rfl, nofun⟩
  | succ count ih =>
      obtain ⟨longer, next, added, run, rooted, live, length, sameSize⟩ := ih
      obtain ⟨mem, found, between⟩ := @Between.cilkInternalMalloc _ _ w _
        .unclassified rooted.between small
      refine ⟨_, _, ⟨mem, size, .unclassified⟩ :: added,
        run.snoc (.client rooted.runs (.malloc small found)),
        ⟨rooted.runs, between⟩, congrArg (_ :: ·) live,
        congrArg (· + 1) length, ?_⟩
      intro allocation member
      rcases List.mem_cons.mp member with rfl | earlier
      · rfl
      · exact sameSize allocation earlier

/-- A worker frees what has been allocated last. -/
theorem run_frees (count : ℕ) (w : Fin (others + 1))
    (run : Run (RuntimeStep sizes) (Runtime.start others) trace s)
    (rooted : Rooted roots s) :
    ∃ longer next, Run (RuntimeStep sizes) (Runtime.start others) longer next ∧
      Rooted roots next ∧ next.memory.live = s.memory.live.drop count ∧
      next.memory.heap.global.carved = s.memory.heap.global.carved := by
  induction count with
  | zero => exact ⟨trace, s, run, rooted, rfl, rfl⟩
  | succ count ih =>
      obtain ⟨longer, next, run, rooted, live, carved⟩ := ih
      rw [← List.drop_drop, List.drop_one, ← live]
      cases shape : next.memory.live with
      | nil => exact ⟨longer, next, run, rooted, shape, carved⟩
      | cons allocation rest =>
          have shadow : next.memory.live ++ roots =
              [] ++ allocation :: (rest ++ roots) := by
            rw [shape]
            rfl
          have between := @Between.cilkInternalFree _ [] _ _ w _
            rooted.between shadow
          have sameCarved : (next.memory.heap.cilkInternalFree w
              allocation.block allocation.size allocation.tag).global.carved =
                s.memory.heap.global.carved := by
            unfold Heap.cilkInternalFree
            split
            next => exact carved
            next =>
              exact @freeWhile_global _ _ _ _ _ _
                (·.carved = s.memory.heap.global.carved) _ carved
                fun _ _ earlier => earlier
          exact ⟨_, _,
            run.snoc (.client rooted.runs (@Step.free _ _ w [] rest _ shape)),
            ⟨rooted.runs, between⟩, rfl, sameCarved⟩

/-- Three workers allocate more blocks than the counter of a global free list can
count, and free them. -/
theorem exists_long_list (sizes : RuntimeSizes) :
    ∃ trace s, Run (RuntimeStep sizes) (Runtime.start 2) trace s ∧
      ¬ ListsFit s.memory.heap.global := by
  obtain ⟨_, s, roots, run, rooted, two, nothing⟩ := @exists_running 2 sizes
  -- No worker has `INT_MAX` blocks at a time.
  obtain ⟨_, first, some, run, rooted, live, length, small⟩ :=
    run_mallocs 1500000000 32 (by decide) 0 run rooted
  obtain ⟨_, second, more, run, rooted, live', length', small'⟩ :=
    run_mallocs 1500000000 32 (by decide) 1 run rooted
  obtain ⟨_, peak, most, run, rooted, live'', length'', small''⟩ :=
    run_mallocs 1500000000 32 (by decide) 2 run rooted
  have before := rooted.between
  obtain ⟨_, third, run, rooted, left, carved⟩ :=
    run_frees 1500000000 2 run rooted
  obtain ⟨_, fourth, run, rooted, left', carved'⟩ :=
    run_frees 1500000000 1 run rooted
  obtain ⟨_, final, run, rooted, left'', carved''⟩ :=
    run_frees 1500000000 0 run rooted
  rw [nothing, List.append_nil] at live
  have shape : peak.memory.live = most ++ (more ++ some) := by
    rw [live'', live', live]
  have freed : final.memory.live = [] := by
    rw [left'', left', left, List.drop_drop, List.drop_drop,
      List.drop_eq_nil_iff, shape, List.length_append, List.length_append]
    omega
  have after := rooted.between
  rw [freed] at after
  have inBucket : ∀ allocation ∈ peak.memory.live, allocation.bucket = 0 := by
    intro allocation member
    have size : allocation.size = 32 := by
      rw [shape, List.mem_append, List.mem_append] at member
      rcases member with member | member | member
      · exact small'' allocation member
      · exact small' allocation member
      · exact small allocation member
    rw [Allocation.bucket, size]
    rfl
  have all : (liveBlocks peak.memory.live 0).length = 4500000000 := by
    rw [liveBlocks, List.length_map, List.filter_eq_self.mpr (by
      simpa using inBucket), shape, List.length_append, List.length_append]
    omega
  have enough := length_liveBlocks_le before after
    (carved''.trans (carved'.trans carved)) 0
  refine ⟨_, final, run, fun fits => ?_⟩
  have short := fits 0
  omega

/-- What `internal_malloc_global_check` expects between all operations. -/
def PoolBalances (sizes : RuntimeSizes) : Prop :=
  ∀ (others : ℕ) (trace : List (Runtime others × Event others))
    (s : Runtime others), Run (RuntimeStep sizes) (Runtime.start others) trace s →
    s.memory.heap.global.imPool.wasted = 0 ∧
      poolCheck s.memory.heap.global = true

theorem free_blocks_uncounted : ¬ PoolBalances idleSizes := by
  intro balances
  obtain ⟨trace, s, run, long⟩ := exists_long_list idleSizes
  have chunkUse := ChunkUse.of_run run
  exact long ((chunkUse.balanced.poolCheck_iff chunkUse.wasted).mp
    (balances 2 trace s run).2)

end LongLists

end Multicilk.Allocator
