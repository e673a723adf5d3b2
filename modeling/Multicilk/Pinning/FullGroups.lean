import Multicilk.Pinning.ThreadsInit

/-!
# Which workers get full groups

Where the process mask has no gaps, every CPU belongs to one worker, and a
worker gets those of its CPUs that exist.
-/

namespace Multicilk.Pinning

section Owners

variable {m groupSize w cpu off : ℕ} {pinStrategy : PinStrategy}

/-- The worker to which a CPU belongs. -/
def owner (groupSize : ℕ) : PinStrategy → ℕ → ℕ
  | .spread, cpu =>
      cpu / (groupSize * groupSize) * groupSize + cpu % groupSize
  | .adjacent, cpu => cpu / groupSize

/-- The first CPU of a worker. -/
def start (groupSize : ℕ) : PinStrategy → ℕ → ℕ
  | .spread, w => w / groupSize * (groupSize * groupSize) + w % groupSize
  | .adjacent, w => w * groupSize

def ownerMask (m groupSize : ℕ) (pinStrategy : PinStrategy) (w : ℕ) :
    Finset ℕ :=
  (Finset.range m).filter fun cpu => owner groupSize pinStrategy cpu = w

/-- The CPUs of the workers from `w` on. -/
def ahead (m groupSize : ℕ) (pinStrategy : PinStrategy) (w : ℕ) : Finset ℕ :=
  (Finset.range m).filter fun cpu => w ≤ owner groupSize pinStrategy cpu

theorem stepIn_pos (some : 0 < groupSize) : 0 < stepIn groupSize pinStrategy := by
  cases pinStrategy with
  | spread => exact some
  | adjacent => exact Nat.one_pos

/-- The first CPUs are in the order of the workers. -/
theorem start_mono {v : ℕ} (some : 0 < groupSize) (before : w ≤ v) :
    start groupSize pinStrategy w ≤ start groupSize pinStrategy v := by
  cases pinStrategy with
  | adjacent => exact Nat.mul_le_mul_right _ before
  | spread =>
      simp only [start]
      have quotients := Nat.div_le_div_right (c := groupSize) before
      have remainder := Nat.mod_lt w some
      rcases Nat.eq_or_lt_of_le quotients with same | less
      · have shape := Nat.div_add_mod w groupSize
        have otherShape := Nat.div_add_mod v groupSize
        rw [same] at shape ⊢
        omega
      · have block := Nat.mul_le_mul_right (groupSize * groupSize) less
        have inside := Nat.le_mul_of_pos_left groupSize some
        rw [Nat.succ_mul] at block
        omega

/-- A worker owns the CPUs of the group that begins at its first CPU. -/
theorem mem_group_start_iff (some : 0 < groupSize) :
    cpu ∈ group groupSize (stepIn groupSize pinStrategy)
        (start groupSize pinStrategy w) ↔
      owner groupSize pinStrategy cpu = w := by
  simp only [group, Finset.mem_image, Finset.mem_range]
  cases pinStrategy with
  | adjacent =>
      simp only [start, stepIn, owner, Nat.mul_one]
      constructor
      · rintro ⟨off, inside, rfl⟩
        rw [Nat.mul_comm, Nat.mul_add_div some, Nat.div_eq_of_lt inside,
          Nat.add_zero]
      · intro owned
        refine ⟨cpu % groupSize, Nat.mod_lt _ some, ?_⟩
        rw [← owned, Nat.mul_comm, Nat.div_add_mod]
  | spread =>
      simp only [start, stepIn, owner]
      have square := Nat.mul_pos some some
      constructor
      · rintro ⟨off, inside, rfl⟩
        have remainder := Nat.mod_lt w some
        have block : off * groupSize + w % groupSize < groupSize * groupSize := by
          have rows := Nat.mul_le_mul_right groupSize inside
          rw [Nat.succ_mul] at rows
          omega
        have quotient : (w / groupSize * (groupSize * groupSize) +
            w % groupSize + off * groupSize) / (groupSize * groupSize) =
              w / groupSize := by
          have inBlock : (w % groupSize + off * groupSize) /
              (groupSize * groupSize) = 0 :=
            Nat.div_eq_of_lt (by omega)
          rw [Nat.add_assoc, Nat.mul_comm (w / groupSize),
            Nat.mul_add_div square, inBlock, Nat.add_zero]
        have column : (w / groupSize * (groupSize * groupSize) +
            w % groupSize + off * groupSize) % groupSize = w % groupSize := by
          rw [Nat.add_mul_mod_self_right, ← Nat.mul_assoc,
            Nat.mul_add_mod_self_right, Nat.mod_mod]
        rw [quotient, column, Nat.mul_comm, Nat.div_add_mod]
      · intro owned
        have column := Nat.mod_lt cpu some
        have row : w / groupSize = cpu / (groupSize * groupSize) := by
          rw [← owned, Nat.mul_comm, Nat.mul_add_div some,
            Nat.div_eq_of_lt column, Nat.add_zero]
        have sameColumn : w % groupSize = cpu % groupSize := by
          rw [← owned, Nat.mul_add_mod_self_right, Nat.mod_mod]
        refine ⟨cpu % (groupSize * groupSize) / groupSize, ?_, ?_⟩
        · exact Nat.div_lt_of_lt_mul (Nat.mod_lt _ square)
        · have inBlock := Nat.div_add_mod (cpu % (groupSize * groupSize)) groupSize
          have shape := Nat.div_add_mod cpu (groupSize * groupSize)
          rw [Nat.mod_mul_left_mod, Nat.mul_comm] at inBlock
          rw [row, sameColumn, Nat.mul_comm (cpu / _)]
          omega

theorem owner_start (some : 0 < groupSize) :
    owner groupSize pinStrategy (start groupSize pinStrategy w) = w := by
  rw [← mem_group_start_iff some, group_eq_insert some]
  exact Finset.mem_insert_self _ _

theorem start_owner_le (some : 0 < groupSize) :
    start groupSize pinStrategy (owner groupSize pinStrategy cpu) ≤ cpu := by
  have member := (mem_group_start_iff some).mpr
    (rfl : owner groupSize pinStrategy cpu = owner groupSize pinStrategy cpu)
  obtain ⟨off, -, shape⟩ := Finset.mem_image.mp member
  omega

end Owners

section Masks

variable {m groupSize w cpu lastCpu workers : ℕ} {pinStrategy : PinStrategy}

theorem bindWorkers_ahead (some : 0 < groupSize)
    (ready : Ready lastCpu groupSize workers cpu
      (ahead m groupSize pinStrategy w)) :
    bindWorkers lastCpu groupSize (stepIn groupSize pinStrategy)
        (stepOut groupSize pinStrategy) workers cpu
        (ahead m groupSize pinStrategy w) =
      Option.some
        ((List.range' w workers).map (ownerMask m groupSize pinStrategy)) := by
  induction workers generalizing cpu w with
  | zero => rfl
  | succ workers ih =>
      obtain ⟨found, foundSet, isFound, least, next⟩ :=
        @Ready.bind pinStrategy _ _ _ _ _ ready some
      obtain ⟨inside, later⟩ := Finset.mem_filter.mp foundSet
      rw [Finset.mem_range] at inside
      have after : start groupSize pinStrategy w ≤ found :=
        (start_mono some later).trans (start_owner_le some)
      have isStart : found = start groupSize pinStrategy w := by
        apply Nat.le_antisymm _ after
        apply least
        refine Finset.mem_filter.mpr ⟨Finset.mem_range.mpr (by omega), ?_⟩
        exact Nat.le_of_eq (owner_start some).symm
      subst found
      have taken : ahead m groupSize pinStrategy w ∩
          group groupSize (stepIn groupSize pinStrategy)
            (start groupSize pinStrategy w) =
              ownerMask m groupSize pinStrategy w := by
        ext other
        rw [Finset.mem_inter, mem_group_start_iff some, ahead, ownerMask,
          Finset.mem_filter, Finset.mem_filter]
        constructor
        · rintro ⟨⟨below, -⟩, owned⟩
          exact ⟨below, owned⟩
        · rintro ⟨below, owned⟩
          exact ⟨⟨below, Nat.le_of_eq owned.symm⟩, owned⟩
      have left : ahead m groupSize pinStrategy w \
          group groupSize (stepIn groupSize pinStrategy)
            (start groupSize pinStrategy w) =
              ahead m groupSize pinStrategy (w + 1) := by
        ext other
        rw [Finset.mem_sdiff, mem_group_start_iff some, ahead, ahead,
          Finset.mem_filter, Finset.mem_filter, and_assoc]
        apply and_congr_right
        intro _
        omega
      rw [left] at next
      simp only [bindWorkers, isFound, Option.bind_eq_bind, Option.bind_some,
        takeGroup_eq foundSet some, taken, left, ih next]
      rfl

theorem group_card (some : 0 < groupSize) :
    (group groupSize (stepIn groupSize pinStrategy) cpu).card = groupSize := by
  have positive := @stepIn_pos _ pinStrategy some
  rw [group, Finset.card_image_of_injective, Finset.card_range]
  intro off other same
  exact Nat.eq_of_mul_eq_mul_right positive (Nat.add_left_cancel same)

/-- The worker has all CPUs of its group exactly when its last one exists. -/
theorem ownerMask_full_iff (some : 0 < groupSize) :
    (ownerMask m groupSize pinStrategy w).card = groupSize ↔
      start groupSize pinStrategy w +
        (groupSize - 1) * stepIn groupSize pinStrategy < m := by
  have card := @group_card groupSize (start groupSize pinStrategy w) pinStrategy
    some
  have inGroup : ownerMask m groupSize pinStrategy w ⊆
      group groupSize (stepIn groupSize pinStrategy)
        (start groupSize pinStrategy w) := by
    intro other member
    exact (mem_group_start_iff some).mpr (Finset.mem_filter.mp member).2
  constructor
  · intro full
    have whole := Finset.eq_of_subset_of_card_le inGroup (by omega)
    have last : start groupSize pinStrategy w +
        (groupSize - 1) * stepIn groupSize pinStrategy ∈
          ownerMask m groupSize pinStrategy w := by
      rw [whole]
      apply Finset.mem_image_of_mem
      exact Finset.mem_range.mpr (by omega)
    exact Finset.mem_range.mp (Finset.mem_filter.mp last).1
  · intro exists_
    have whole : ownerMask m groupSize pinStrategy w =
        group groupSize (stepIn groupSize pinStrategy)
          (start groupSize pinStrategy w) := by
      apply Finset.Subset.antisymm inGroup
      intro other member
      have owned := (mem_group_start_iff some).mp member
      obtain ⟨off, inside, rfl⟩ := Finset.mem_image.mp member
      have steps := Nat.mul_le_mul_right (stepIn groupSize pinStrategy)
        (Nat.le_sub_one_of_lt (Finset.mem_range.mp inside))
      exact Finset.mem_filter.mpr ⟨Finset.mem_range.mpr (by omega), owned⟩
    rw [whole, card]

end Masks

section Pinned

variable {m nThreads : ℕ} {pinStrategy : PinStrategy}

theorem threadsInit_range (positive : 1 ≤ nThreads) (available : nThreads ≤ m) :
    threadsInit (Finset.range m) nThreads pinStrategy =
      some ((List.range nThreads).map
        (ownerMask m (m / nThreads) pinStrategy)) := by
  have groups : 0 < m / nThreads := Nat.div_pos available positive
  have all : ahead m (m / nThreads) pinStrategy 0 = Finset.range m := by
    rw [ahead, Finset.filter_true_of_mem fun _ _ => Nat.zero_le _]
  have ready : Ready ((Finset.range m).sup id) (m / nThreads) nThreads 0
      (ahead m (m / nThreads) pinStrategy 0) := by
    rw [all]
    constructor
    case ahead => exact fun _ _ => Nat.zero_le _
    case enough => rw [Finset.card_range]; exact Nat.mul_div_le _ _
    case last => exact fun other set => @Finset.le_sup _ _ _ _ _ id _ set
  have bound := bindWorkers_ahead groups ready
  rw [all, ← List.range_eq_range'] at bound
  rw [threadsInit, Finset.card_range, if_neg (Nat.not_lt.mpr available)]
  exact bound

/-- Every worker is bound to as many CPUs as it is to get. -/
def FullGroups (m nThreads : ℕ) (pinStrategy : PinStrategy) : Prop :=
  ∃ masks, threadsInit (Finset.range m) nThreads pinStrategy = some masks ∧
    masks.length = nThreads ∧
    (∀ mask ∈ masks, mask.card = m / nThreads) ∧
    (masks.map Finset.card).sum = nThreads * (m / nThreads)

/-- With the spreading strategy, the last CPU of the last worker has to
exist. -/
theorem fullGroups_iff (m nThreads : ℕ) (pinStrategy : PinStrategy)
    (positive : 1 ≤ nThreads) (available : nThreads ≤ m) :
    FullGroups m nThreads pinStrategy ↔
      pinStrategy = .adjacent ∨
        (nThreads - 1) / (m / nThreads) * (m / nThreads * (m / nThreads)) +
          (nThreads - 1) % (m / nThreads) +
          (m / nThreads - 1) * (m / nThreads) < m := by
  have groups : 0 < m / nThreads := Nat.div_pos available positive
  have isBound := @threadsInit_range m nThreads pinStrategy positive available
  obtain ⟨groupSize, isSize⟩ : ∃ groupSize, groupSize = m / nThreads := ⟨_, rfl⟩
  have fits : nThreads * groupSize ≤ m := isSize ▸ Nat.mul_div_le _ _
  rw [← isSize] at groups isBound ⊢
  have ofLast : FullGroups m nThreads pinStrategy ↔
      start groupSize pinStrategy (nThreads - 1) +
        (groupSize - 1) * stepIn groupSize pinStrategy < m := by
    rw [← ownerMask_full_iff groups, FullGroups, isBound, ← isSize]
    constructor
    · rintro ⟨masks, same, -, full, -⟩
      cases same
      apply full
      exact List.mem_map_of_mem (List.mem_range.mpr (by omega))
    · intro lastFull
      have full (w : ℕ) (below : w < nThreads) :
          (ownerMask m groupSize pinStrategy w).card = groupSize := by
        rw [ownerMask_full_iff groups] at lastFull ⊢
        have before := @start_mono groupSize w pinStrategy (nThreads - 1) groups
          (by omega)
        omega
      have cards : ((List.range nThreads).map
          (ownerMask m groupSize pinStrategy)).map Finset.card =
            List.replicate nThreads groupSize := by
        rw [List.map_map, List.eq_replicate_iff]
        refine ⟨by simp, fun card member => ?_⟩
        obtain ⟨w, below, rfl⟩ := List.mem_map.mp member
        exact full w (List.mem_range.mp below)
      refine ⟨_, rfl, by simp, ?_, ?_⟩
      · intro mask member
        obtain ⟨w, below, rfl⟩ := List.mem_map.mp member
        exact full w (List.mem_range.mp below)
      · rw [cards, List.sum_replicate_nat]
  rw [ofLast]
  cases pinStrategy with
  | spread => simp only [start, stepIn, reduceCtorEq, false_or]
  | adjacent =>
      simp only [start, stepIn, true_or, iff_true]
      have blocks := Nat.succ_mul (nThreads - 1) groupSize
      rw [Nat.succ_eq_add_one, Nat.sub_add_cancel positive] at blocks
      omega

theorem fullGroups_iff_eight : FullGroups 8 4 .spread :=
  (fullGroups_iff 8 4 .spread (by decide) (by decide)).mpr (.inr (by decide))

/-- The only worker gets one of four CPUs. -/
theorem group_not_full :
    ¬ ∀ (m nThreads : ℕ) (pinStrategy : PinStrategy),
      1 ≤ nThreads → nThreads ≤ m → FullGroups m nThreads pinStrategy := by
  intro full
  obtain ⟨masks, bound, -, cards, -⟩ :=
    full 4 1 .spread (by decide) (by decide)
  have taken : threadsInit (Finset.range 4) 1 .spread = some [{0}] := by
    decide +kernel
  rw [taken] at bound
  cases bound
  exact absurd (cards {0} (List.mem_singleton_self _)) (by decide)

end Pinned

end Multicilk.Pinning
