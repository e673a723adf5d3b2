import Mathlib.Algebra.GroupWithZero.Nat
import Mathlib.Data.Finset.Card
import Mathlib.Data.Finset.Lattice.Fold
import Mathlib.Data.Nat.Notation
import Mathlib.Order.Lattice.Nat

/-!
# Binding workers to CPUs

The loop of `threads_init` scans the process mask for the first CPU of every
worker, and takes the rest of its group from ahead of that.  A mask is the set
of its CPUs; a number beyond `CPU_SETSIZE` is in no mask.
-/

namespace Multicilk.Pinning

/-- `pin_strategy`, 0 or 1. -/
inductive PinStrategy where
  | spread
  | adjacent
deriving DecidableEq

/-- Takes a CPU from one mask to another, if it is there. -/
def moveBit (cpu : ℕ) (masks : Finset ℕ × Finset ℕ) : Finset ℕ × Finset ℕ :=
  if cpu ∈ masks.2 then (insert cpu masks.1, masks.2.erase cpu) else masks

/-- Skips to the next CPU in the mask.  The scan fails when it has tested so
many CPUs in vain. -/
def nextActive (processMask : Finset ℕ) : ℕ → ℕ → Option ℕ
  | 0, _ => none
  | tests + 1, cpu =>
      if cpu ∈ processMask then some cpu
      else nextActive processMask tests (cpu + 1)

/-- The mask of a worker, and what is left of the process mask. -/
def takeGroup (groupSize stepIn cpu : ℕ) (processMask : Finset ℕ) :
    Finset ℕ × Finset ℕ :=
  (List.range' 1 (groupSize - 1)).foldl
    (fun masks off => moveBit (cpu + off * stepIn) masks)
    ({cpu}, processMask.erase cpu)

/-- The masks of so many workers.  The scans must not go past `lastCpu`. -/
def bindWorkers (lastCpu groupSize stepIn stepOut : ℕ) :
    ℕ → ℕ → Finset ℕ → Option (List (Finset ℕ))
  | 0, _, _ => some []
  | workers + 1, cpu, processMask => do
      let found ← nextActive processMask (lastCpu + 1 - cpu) cpu
      let masks := takeGroup groupSize stepIn found processMask
      let others ← bindWorkers lastCpu groupSize stepIn stepOut workers
        (found + stepOut) masks.2
      return masks.1 :: others

def stepIn (groupSize : ℕ) : PinStrategy → ℕ
  | .spread => groupSize
  | .adjacent => 1

def stepOut (groupSize : ℕ) : PinStrategy → ℕ
  | .spread => 1
  | .adjacent => groupSize

/-- The masks to which the workers are bound, in order, or none if they are
not bound. -/
def threadsInit (processMask : Finset ℕ) (nThreads : ℕ)
    (pinStrategy : PinStrategy) : Option (List (Finset ℕ)) :=
  let availableCores := processMask.card
  if availableCores < nThreads then some []
  else
    let groupSize := availableCores / nThreads
    bindWorkers (processMask.sup id) groupSize (stepIn groupSize pinStrategy)
      (stepOut groupSize pinStrategy) nThreads 0 processMask

section Groups

variable {processMask : Finset ℕ} {groupSize stepIn cpu : ℕ}

/-- The CPUs of the group that starts at `cpu`, as far as they exist. -/
def group (groupSize stepIn cpu : ℕ) : Finset ℕ :=
  (Finset.range groupSize).image fun off => cpu + off * stepIn

theorem foldl_moveBit (offs : List ℕ) (toMask fromMask : Finset ℕ) :
    offs.foldl (fun masks off => moveBit (cpu + off * stepIn) masks)
        (toMask, fromMask) =
      (toMask ∪ fromMask ∩ (offs.map (cpu + · * stepIn)).toFinset,
        fromMask \ (offs.map (cpu + · * stepIn)).toFinset) := by
  induction offs generalizing toMask fromMask with
  | nil => simp
  | cons off rest ih =>
      rw [List.foldl_cons, moveBit, List.map_cons, List.toFinset_cons]
      split
      case isTrue member =>
        rw [ih]
        ext other
        · simp
          grind
        · simp
          grind
      case isFalse notMember =>
        rw [ih]
        ext other
        · simp
          grind
        · simp
          grind

theorem group_eq_insert (some : 0 < groupSize) :
    group groupSize stepIn cpu = insert cpu
      ((List.range' 1 (groupSize - 1)).map (cpu + · * stepIn)).toFinset := by
  ext other
  simp only [group, Finset.mem_image, Finset.mem_range, Finset.mem_insert,
    List.mem_toFinset, List.mem_map, List.mem_range'_1]
  constructor
  · rintro ⟨off, inside, rfl⟩
    cases off with
    | zero => exact .inl (by rw [Nat.zero_mul, Nat.add_zero])
    | succ off => exact .inr ⟨off + 1, by omega, rfl⟩
  · rintro (rfl | ⟨off, inside, rfl⟩)
    · exact ⟨0, some, by rw [Nat.zero_mul, Nat.add_zero]⟩
    · exact ⟨off, by omega, rfl⟩

/-- A worker gets what is left of its group. -/
theorem takeGroup_eq (member : cpu ∈ processMask) (some : 0 < groupSize) :
    takeGroup groupSize stepIn cpu processMask =
      (processMask ∩ group groupSize stepIn cpu,
        processMask \ group groupSize stepIn cpu) := by
  rw [takeGroup, foldl_moveBit, group_eq_insert some]
  generalize ((List.range' 1 (groupSize - 1)).map
    (cpu + · * stepIn)).toFinset = rest
  ext other
  · simp
    grind
  · simp
    grind

theorem group_card_le : (group groupSize stepIn cpu).card ≤ groupSize :=
  Finset.card_image_le.trans (by rw [Finset.card_range])

end Groups

section Scan

variable {processMask : Finset ℕ} {tests cpu found : ℕ}

/-- The scan stops at the first CPU that is set. -/
theorem nextActive_eq_some (active : ∃ other ∈ processMask,
      cpu ≤ other ∧ other < cpu + tests) :
    ∃ found ∈ processMask, nextActive processMask tests cpu = some found ∧
      cpu ≤ found ∧ ∀ other ∈ processMask, cpu ≤ other → found ≤ other := by
  induction tests generalizing cpu with
  | zero =>
      obtain ⟨other, -, above, below⟩ := active
      omega
  | succ tests ih =>
      by_cases member : cpu ∈ processMask
      · refine ⟨cpu, member, ?_, Nat.le_refl _, fun _ _ above => above⟩
        rw [nextActive, if_pos member]
      · have later (other : ℕ) (set : other ∈ processMask) (above : cpu ≤ other) :
            cpu + 1 ≤ other := by
          apply Nat.lt_of_le_of_ne above
          intro same
          exact member (same ▸ set)
        obtain ⟨other, set, above, below⟩ := active
        obtain ⟨found, foundSet, isFound, after, first⟩ :=
          ih ⟨other, set, later other set above, by omega⟩
        refine ⟨found, foundSet, ?_, by omega, ?_⟩
        · rw [nextActive, if_neg member, isFound]
        · exact fun other set above => first other set (later other set above)

end Scan

section Binding

variable {pinStrategy : PinStrategy} {processMask : Finset ℕ}
  {lastCpu groupSize workers cpu : ℕ}

/-- Before the next worker is bound, no CPU is left behind, and there are enough
ahead. -/
structure Ready (lastCpu groupSize workers cpu : ℕ) (processMask : Finset ℕ) :
    Prop where
  ahead : ∀ other ∈ processMask, cpu ≤ other
  enough : workers * groupSize ≤ processMask.card
  last : ∀ other ∈ processMask, other ≤ lastCpu

/-- One worker is bound. -/
theorem Ready.bind (ready : Ready lastCpu groupSize (workers + 1) cpu
      processMask) (some : 0 < groupSize) :
    ∃ found ∈ processMask,
      nextActive processMask (lastCpu + 1 - cpu) cpu = Option.some found ∧
      (∀ other ∈ processMask, found ≤ other) ∧
      Ready lastCpu groupSize workers (found + stepOut groupSize pinStrategy)
        (processMask \
          group groupSize (stepIn groupSize pinStrategy) found) := by
  have positive : 0 < processMask.card := by
    have enough := ready.enough
    rw [Nat.succ_mul] at enough
    omega
  obtain ⟨first, firstSet⟩ := Finset.card_pos.mp positive
  have firstAhead := ready.ahead first firstSet
  have firstLast := ready.last first firstSet
  obtain ⟨found, foundSet, isFound, -, least⟩ :=
    @nextActive_eq_some processMask (lastCpu + 1 - cpu) cpu
      ⟨first, firstSet, firstAhead, by omega⟩
  have minimal (other : ℕ) (set : other ∈ processMask) : found ≤ other :=
    least other set (ready.ahead other set)
  refine ⟨found, foundSet, isFound, minimal, ?_⟩
  constructor
  case ahead =>
    intro other left
    obtain ⟨set, notTaken⟩ := Finset.mem_sdiff.mp left
    have above := minimal other set
    simp only [group, Finset.mem_image, Finset.mem_range, not_exists,
      not_and] at notTaken
    cases pinStrategy with
    | spread =>
        have notFound := notTaken 0 some
        rw [Nat.zero_mul, Nat.add_zero] at notFound
        simp only [stepOut]
        omega
    | adjacent =>
        by_contra near
        simp only [stepOut, Nat.not_le] at near
        apply notTaken (other - found) (by omega)
        simp only [stepIn]
        omega
  case enough =>
    have card := Finset.le_card_sdiff
      (group groupSize (stepIn groupSize pinStrategy) found) processMask
    have few := @group_card_le groupSize (stepIn groupSize pinStrategy) found
    have enough := ready.enough
    rw [Nat.succ_mul] at enough
    omega
  case last =>
    exact fun other left => ready.last other (Finset.mem_sdiff.mp left).1

/-- What the masks of the workers are taken from. -/
structure Partitions (groupSize workers : ℕ) (processMask : Finset ℕ)
    (masks : List (Finset ℕ)) : Prop where
  length : masks.length = workers
  nonempty : ∀ mask ∈ masks, mask.Nonempty
  within : ∀ mask ∈ masks, mask ⊆ processMask
  few : ∀ mask ∈ masks, mask.card ≤ groupSize
  apart : masks.Pairwise Disjoint

theorem Ready.partitions
    (ready : Ready lastCpu groupSize workers cpu processMask)
    (some : 0 < groupSize) :
    ∃ masks, bindWorkers lastCpu groupSize (stepIn groupSize pinStrategy)
        (stepOut groupSize pinStrategy) workers cpu processMask =
          Option.some masks ∧
      Partitions groupSize workers processMask masks := by
  induction workers generalizing cpu processMask with
  | zero =>
      refine ⟨[], rfl, rfl, ?_, ?_, ?_, .nil⟩ <;> simp
  | succ workers ih =>
      obtain ⟨found, foundSet, isFound, -, next⟩ :=
        @Ready.bind pinStrategy _ _ _ _ _ ready some
      obtain ⟨others, bound, partitions⟩ := ih next
      obtain ⟨taken, isTaken⟩ : ∃ taken, taken =
          group groupSize (stepIn groupSize pinStrategy) found :=
        ⟨_, rfl⟩
      have takes := @takeGroup_eq _ _ (stepIn groupSize pinStrategy) _
        foundSet some
      have few := @group_card_le groupSize (stepIn groupSize pinStrategy) found
      rw [← isTaken] at takes few partitions bound
      have foundTaken : found ∈ taken := by
        rw [isTaken, group_eq_insert some]
        exact Finset.mem_insert_self _ _
      refine ⟨(processMask ∩ taken) :: others, ?_, ?_⟩
      · simp only [bindWorkers, isFound, takes, bound, Option.bind_eq_bind,
          Option.bind_some]
        rfl
      · constructor
        case length => exact congrArg (· + 1) partitions.length
        case nonempty =>
          rw [List.forall_mem_cons]
          exact ⟨⟨found, Finset.mem_inter.mpr ⟨foundSet, foundTaken⟩⟩,
            partitions.nonempty⟩
        case within =>
          rw [List.forall_mem_cons]
          exact ⟨Finset.inter_subset_left, fun mask member =>
            (partitions.within mask member).trans Finset.sdiff_subset⟩
        case few =>
          rw [List.forall_mem_cons]
          exact ⟨(Finset.card_le_card Finset.inter_subset_right).trans few,
            partitions.few⟩
        case apart =>
          apply List.Pairwise.cons _ partitions.apart
          intro mask member
          exact Finset.disjoint_of_subset_left Finset.inter_subset_right
            (Finset.disjoint_of_subset_right (partitions.within mask member)
              Finset.disjoint_sdiff)

/-- The scans stay within the process mask, and the workers share it out among
them. -/
theorem threadsInit_partitions (pinStrategy : PinStrategy)
    (processMask : Finset ℕ) (nThreads : ℕ) (positive : 1 ≤ nThreads)
    (available : nThreads ≤ processMask.card) :
    ∃ masks, threadsInit processMask nThreads pinStrategy = some masks ∧
      masks.length = nThreads ∧
      (∀ mask ∈ masks, mask.Nonempty ∧ mask ⊆ processMask ∧
        mask.card ≤ processMask.card / nThreads) ∧
      masks.Pairwise Disjoint := by
  have some : 0 < processMask.card / nThreads :=
    Nat.div_pos available positive
  have ready : Ready (processMask.sup id) (processMask.card / nThreads) nThreads
      0 processMask := by
    constructor
    case ahead => exact fun _ _ => Nat.zero_le _
    case enough => exact Nat.mul_div_le _ _
    case last => exact fun other set => @Finset.le_sup _ _ _ _ _ id _ set
  obtain ⟨masks, bound, partitions⟩ :=
    @Ready.partitions pinStrategy _ _ _ _ _ ready some
  refine ⟨masks, ?_, partitions.length, ?_, partitions.apart⟩
  · rw [threadsInit, if_neg (Nat.not_lt.mpr available)]
    exact bound
  · exact fun mask member => ⟨partitions.nonempty mask member,
      partitions.within mask member, partitions.few mask member⟩

/-- Two workers share four CPUs. -/
theorem threadsInit_partitions_two : ∃ masks : List (Finset ℕ),
    threadsInit {1, 2, 5, 7} 2 .spread = some masks ∧ masks.length = 2 := by
  obtain ⟨masks, bound, length, -⟩ :=
    threadsInit_partitions .spread {1, 2, 5, 7} 2 (by decide) (by decide)
  exact ⟨masks, bound, length⟩

end Binding

end Multicilk.Pinning
