import Mathlib.Algebra.Group.Nat.Defs
import Mathlib.Data.Fin.VecNotation
import Mathlib.Data.List.Induction
import Multicilk.Allocator.InternalMalloc

/-!
# The list of chunks

Every chunk is entered into a list, which grows by a few slots at a time.  What
`realloc` leaves in the new slots is up to the system, and the whole list is
handed back in the end.
-/

namespace Multicilk.Allocator

variable {Address : Type*}

/-- What the system contributes to one call of `extend_global_pool`: the chunk,
and, in case the list grows, the contents of the new slots. -/
structure Grant (Address : Type*) where
  chunk : Address
  newSlots : Fin memListSize → Option Address

/-- The part of the global pool that lists the chunks.  An empty slot holds
`NULL`. -/
structure MemList (Address : Type*) where
  memList : List (Option Address)
  memListIndex : ℕ
  memListSize : ℕ

namespace MemList

/-- `cilk_internal_malloc_global_init`. -/
def init : MemList Address where
  memList := List.replicate Allocator.memListSize none
  memListIndex := 2 ^ 32 - 1
  memListSize := Allocator.memListSize

/-- The old entries are preserved. -/
def realloc (memList : List (Option Address)) (newListSize : ℕ)
    (newSlots : Fin Allocator.memListSize → Option Address) :
    List (Option Address) :=
  (memList ++ List.ofFn newSlots).take newListSize

/-- `extend_global_pool` before the chunk is stored. -/
def advance (imPool : MemList Address) (grant : Grant Address) :
    MemList Address :=
  let memListIndex := (imPool.memListIndex + 1) % 2 ^ 32
  if imPool.memListSize ≤ memListIndex then
    let newListSize := (imPool.memListSize + Allocator.memListSize) % 2 ^ 32
    { memList := realloc imPool.memList newListSize grant.newSlots
      memListIndex
      memListSize := newListSize }
  else { imPool with memListIndex }

def extendGlobalPool (imPool : MemList Address) (grant : Grant Address) :
    MemList Address :=
  let advanced := imPool.advance grant
  { advanced with
    memList := advanced.memList.set advanced.memListIndex (some grant.chunk) }

/-- `global_im_pool_destroy`, on the addresses that are passed to
`free_to_system` and on the list that is left. -/
def globalImPoolDestroy (imPool : MemList Address) :
    List (Option Address) × MemList Address :=
  (imPool.memList.take imPool.memListSize,
    { memList := [], memListIndex := 2 ^ 32 - 1, memListSize := 0 })

/-- After any number of calls. -/
def extended (grants : List (Grant Address)) : MemList Address :=
  grants.foldl extendGlobalPool init

end MemList

/-- Every store is in bounds, and every chunk is handed back once, with nothing
else but `NULL`. -/
structure TornDown (grants : List (Grant Address)) : Prop where
  inBounds : ∀ before grant after, grants = before ++ grant :: after →
    ((MemList.extended before).advance grant).memListIndex <
      ((MemList.extended before).advance grant).memList.length
  exactly : List.Perm
    ((MemList.extended grants).globalImPoolDestroy.1.filterMap id)
    (grants.map Grant.chunk)

section Contents

variable {grants before : List (Grant Address)} {grant : Grant Address}
  {n i : ℕ}

/-- The length of the list after `n` calls. -/
def capacity (n : ℕ) : ℕ :=
  if n ≤ memListSize then memListSize
  else (n + (memListSize - 1)) / memListSize * memListSize

/-- What a slot holds before a chunk is stored there: the first slots have been
cleared, and the call that has added any other slot has left what the system
has put there. -/
def unstored (grants : List (Grant Address)) (i : ℕ) : Option Address :=
  if i < memListSize then none
  else
    (grants[i / memListSize * memListSize]?).bind fun grant =>
      grant.newSlots ⟨i % memListSize, Nat.mod_lt i (by decide)⟩

def slot (grants : List (Grant Address)) (i : ℕ) : Option Address :=
  match grants[i]? with
  | some grant => some grant.chunk
  | none => unstored grants i

theorem capacity_cases (n : ℕ) :
    n ≤ 8 ∧ capacity n = 8 ∨ 8 < n ∧ capacity n = (n + 7) / 8 * 8 := by
  unfold capacity memListSize
  split <;> omega

theorem capacity_ge (n : ℕ) : n ≤ capacity n := by
  have cases := capacity_cases n
  omega

theorem slot_stored (stored : i < grants.length) :
    slot grants i = some grants[i].chunk := by
  simp only [slot, List.getElem?_eq_getElem stored]

theorem slot_unstored (beyond : grants.length ≤ i) :
    slot grants i = unstored grants i := by
  simp only [slot, List.getElem?_eq_none beyond]

theorem slot_last : slot (before ++ [grant]) before.length =
    some grant.chunk := by
  simp [slot]

theorem slot_append_of_lt (inside : i < capacity before.length)
    (notLast : i ≠ before.length) :
    slot (before ++ [grant]) i = slot before i := by
  have cases := capacity_cases before.length
  have length : (before ++ [grant]).length = before.length + 1 :=
    List.length_append
  by_cases stored : i < before.length
  · rw [slot_stored stored, slot_stored (by omega)]
    rw [List.getElem_append_left stored]
  · rw [slot_unstored (by omega), slot_unstored (by omega)]
    unfold unstored memListSize
    split
    case isTrue => rfl
    case isFalse added =>
      rw [List.getElem?_append_left (by omega)]

/-- A call that extends the list. -/
theorem slot_added (multiple : before.length % memListSize = 0)
    (some : memListSize ≤ before.length) (new : Fin memListSize)
    (notFirst : new.val ≠ 0) :
    slot (before ++ [grant]) (before.length + new) = grant.newSlots new := by
  have bound := new.isLt
  have length : (before ++ [grant]).length = before.length + 1 :=
    List.length_append
  simp only [memListSize] at multiple some bound
  rw [slot_unstored (by omega)]
  have base : (before.length + new) / memListSize * memListSize =
      before.length := by
    simp only [memListSize]
    omega
  have offset : (before.length + new) % memListSize = new := by
    simp only [memListSize]
    omega
  have notCleared : ¬ before.length + new < memListSize := by
    simp only [memListSize]
    omega
  simp [unstored, notCleared, base, offset]

end Contents

section Extension

variable {grants before : List (Grant Address)} {grant : Grant Address}

/-- As long as the capacity fits into 32 bits, the contents are known. -/
structure Listed (grants : List (Grant Address)) (imPool : MemList Address) :
    Prop where
  index : imPool.memListIndex = (grants.length + (2 ^ 32 - 1)) % 2 ^ 32
  size : imPool.memListSize = capacity grants.length
  contents : imPool.memList =
    (List.range (capacity grants.length)).map (slot grants)

theorem listed_init : Listed [] (MemList.init : MemList Address) := by
  constructor
  case index => simp [MemList.init]
  case size => rfl
  case contents => rfl

/-- The list before the chunk is stored. -/
theorem Listed.advance {imPool : MemList Address} (listed : Listed before imPool)
    (few : before.length < 2 ^ 32 - 8) :
    (imPool.advance grant).memListIndex = before.length ∧
      (imPool.advance grant).memListSize = capacity (before.length + 1) ∧
      (imPool.advance grant).memList.length = capacity (before.length + 1) ∧
      ∀ i < capacity (before.length + 1), i ≠ before.length →
        (imPool.advance grant).memList[i]? =
          some (slot (before ++ [grant]) i) := by
  have now := capacity_cases before.length
  have next := capacity_cases (before.length + 1)
  have index : (imPool.memListIndex + 1) % 2 ^ 32 = before.length := by
    rw [listed.index]
    omega
  simp only [MemList.advance, index, listed.size]
  split
  case isTrue full =>
    have newSize : (capacity before.length + memListSize) % 2 ^ 32 =
        capacity (before.length + 1) := by
      simp only [memListSize]
      omega
    have length : (imPool.memList ++ List.ofFn grant.newSlots).length =
        capacity (before.length + 1) := by
      rw [List.length_append, List.length_ofFn, listed.contents,
        List.length_map, List.length_range, memListSize]
      omega
    simp only [newSize, MemList.realloc, ← length, List.take_length]
    refine ⟨trivial, trivial, trivial, ?_⟩
    intro i inside notLast
    rw [length] at inside
    by_cases old : i < capacity before.length
    · rw [List.getElem?_append_left (by simpa [listed.contents] using old)]
      simp [listed.contents, old, slot_append_of_lt old notLast]
    · have new : i - capacity before.length < memListSize := by
        simp only [memListSize]
        omega
      have place : before.length + (i - capacity before.length) = i := by omega
      have added := @slot_added _ before grant (by simp [memListSize]; omega)
        (by simp [memListSize]; omega) ⟨i - capacity before.length, new⟩
        (by simp; omega)
      rw [List.getElem?_append_right (by simpa [listed.contents] using old)]
      simp only [place] at added
      simp [listed.contents, added, new]
  case isFalse room =>
    have same : capacity before.length = capacity (before.length + 1) := by
      omega
    refine ⟨rfl, same, ?_, ?_⟩
    · simp [listed.contents, same]
    · intro i inside notLast
      rw [← same] at inside
      simp [listed.contents, inside, slot_append_of_lt inside notLast]

theorem Listed.extendGlobalPool {imPool : MemList Address}
    (listed : Listed before imPool) (few : before.length < 2 ^ 32 - 8) :
    Listed (before ++ [grant]) (imPool.extendGlobalPool grant) := by
  obtain ⟨index, size, length, contents⟩ :=
    @Listed.advance _ before grant imPool listed few
  have newLength : (before ++ [grant]).length = before.length + 1 :=
    List.length_append
  constructor
  case index =>
    simp only [MemList.extendGlobalPool, index, newLength]
    omega
  case size => simpa only [MemList.extendGlobalPool, newLength] using size
  case contents =>
    apply List.ext_getElem?
    intro i
    simp only [MemList.extendGlobalPool, index, newLength]
    by_cases inside : i < capacity (before.length + 1)
    · have known : ((List.range (capacity (before.length + 1))).map
          (slot (before ++ [grant])))[i]? = some (slot (before ++ [grant]) i) := by
        simp [inside]
      rw [known]
      by_cases last : i = before.length
      · subst i
        rw [List.getElem?_set_self (by omega), slot_last]
      · rw [List.getElem?_set_ne (Ne.symm last)]
        exact contents i inside last
    · rw [List.getElem?_eq_none, List.getElem?_eq_none]
      · simpa using inside
      · simpa [length] using inside

theorem extended_append : MemList.extended (before ++ [grant]) =
    (MemList.extended before).extendGlobalPool grant :=
  List.foldl_append

theorem listed_extended (few : grants.length ≤ 2 ^ 32 - 8) :
    Listed grants (MemList.extended grants) := by
  induction grants using List.reverseRecOn with
  | nil => exact listed_init
  | append_singleton before grant ih =>
      rw [List.length_append, List.length_singleton] at few
      rw [extended_append]
      exact (ih (by omega)).extendGlobalPool (by omega)

/-- Where the capacity does not fit into 32 bits, the list is cut to nothing,
and there is no slot for the chunk. -/
theorem advance_full {imPool : MemList Address} (listed : Listed before imPool)
    (full : before.length = 2 ^ 32 - 8) :
    (imPool.advance grant).memList = [] := by
  have now := capacity_cases before.length
  have size : capacity before.length = 2 ^ 32 - 8 := by omega
  have index : (imPool.memListIndex + 1) % 2 ^ 32 = 2 ^ 32 - 8 := by
    rw [listed.index]
    omega
  have newSize : (capacity before.length + memListSize) % 2 ^ 32 = 0 := by
    simp only [memListSize]
    omega
  simp only [MemList.advance, index, listed.size, newSize]
  rw [if_pos (Nat.le_of_eq size)]
  simp only [MemList.realloc, List.take_zero]

theorem range_slots (grants : List (Grant Address)) (n : ℕ)
    (more : grants.length ≤ n) :
    ((List.range n).map (slot grants)).filterMap id =
      grants.map Grant.chunk ++
        ((List.range' grants.length (n - grants.length)).map
          (unstored grants)).filterMap id := by
  have split : List.range n = List.range grants.length ++
      List.range' grants.length (n - grants.length) := by
    have sum : n = grants.length + (n - grants.length) := by omega
    rw [List.range_eq_range', List.range_eq_range', sum,
      ← List.range'_append_1]
    simp
  have stored : (List.range grants.length).map (slot grants) =
      grants.map (some ∘ Grant.chunk) := by
    apply List.ext_getElem (by simp)
    intro i inside _
    simp only [List.length_map, List.length_range] at inside
    simp [slot_stored inside]
  have others : (List.range' grants.length (n - grants.length)).map
      (slot grants) =
        (List.range' grants.length (n - grants.length)).map
          (unstored grants) := by
    apply List.map_congr_left
    intro i member
    exact slot_unstored (List.mem_range'_1.mp member).1
  rw [split, List.map_append, List.filterMap_append, stored, others]
  simp [List.filterMap_map]

/-- The system has left `NULL` wherever no chunk is stored, and there are not
too many chunks. -/
structure CleanSlots (grants : List (Grant Address)) : Prop where
  few : grants.length ≤ 2 ^ 32 - 8
  clean : ∀ i, grants.length ≤ i → i < capacity grants.length →
    unstored grants i = none

theorem inBounds_of_few (few : grants.length ≤ 2 ^ 32 - 8)
    (after : List (Grant Address)) (shape : grants = before ++ grant :: after) :
    ((MemList.extended before).advance grant).memListIndex <
      ((MemList.extended before).advance grant).memList.length := by
  have shorter : before.length < 2 ^ 32 - 8 := by
    rw [shape] at few
    simp at few
    omega
  obtain ⟨index, -, length, -⟩ := @Listed.advance _ before grant _
    (listed_extended (Nat.le_of_lt shorter)) shorter
  rw [index, length]
  exact capacity_ge (before.length + 1)

theorem few_of_inBounds (inBounds : ∀ before grant after,
    grants = before ++ grant :: after →
      ((MemList.extended before).advance grant).memListIndex <
        ((MemList.extended before).advance grant).memList.length) :
    grants.length ≤ 2 ^ 32 - 8 := by
  by_contra many
  have inside : 2 ^ 32 - 8 < grants.length := Nat.lt_of_not_le many
  have shape : grants = grants.take (2 ^ 32 - 8) ++
      grants[2 ^ 32 - 8] :: grants.drop (2 ^ 32 - 8 + 1) := by
    rw [← List.drop_eq_getElem_cons, List.take_append_drop]
  have length : (grants.take (2 ^ 32 - 8)).length = 2 ^ 32 - 8 :=
    List.length_take_of_le (Nat.le_of_lt inside)
  have bounded := inBounds _ _ _ shape
  rw [advance_full (listed_extended (Nat.le_of_eq length)) length] at bounded
  exact absurd bounded (Nat.not_lt_zero _)

/-- The chunks are handed back exactly when the system has left `NULL` in the
slots that are still free. -/
theorem tornDown_iff : TornDown grants ↔ CleanSlots grants := by
  have handed (few : grants.length ≤ 2 ^ 32 - 8) :
      (MemList.extended grants).globalImPoolDestroy.1.filterMap id =
        grants.map Grant.chunk ++
          ((List.range' grants.length
            (capacity grants.length - grants.length)).map
              (unstored grants)).filterMap id := by
    have listed := listed_extended few
    rw [← range_slots grants _ (capacity_ge _), ← listed.contents]
    have whole : (MemList.extended grants).memList.length =
        (MemList.extended grants).memListSize := by
      simp [listed.contents, listed.size]
    simp only [MemList.globalImPoolDestroy, ← whole, List.take_length]
  constructor
  · intro tornDown
    have few := few_of_inBounds tornDown.inBounds
    have length := tornDown.exactly.length_eq
    rw [handed few, List.length_append, Nat.add_eq_left,
      List.length_eq_zero_iff, List.filterMap_eq_nil_iff] at length
    refine ⟨few, fun i beyond inside => ?_⟩
    apply length
    apply List.mem_map_of_mem
    rw [List.mem_range'_1]
    omega
  · intro cleanSlots
    constructor
    case inBounds => exact fun _ _ => inBounds_of_few cleanSlots.few
    case exactly =>
      have clean : ((List.range' grants.length
          (capacity grants.length - grants.length)).map
            (unstored grants)).filterMap id = [] := by
        rw [List.filterMap_eq_nil_iff]
        intro address member
        obtain ⟨i, inside, rfl⟩ := List.mem_map.mp member
        rw [List.mem_range'_1] at inside
        apply cleanSlots.clean i inside.1
        omega
      rw [handed cleanSlots.few, clean, List.append_nil]

/-- The pool of the allocator only counts what is in the list. -/
theorem extended_counted (few : grants.length ≤ 2 ^ 32 - 8) :
    let imPool :=
      GlobalState.extendGlobalPool^[grants.length] GlobalState.init.imPool
    imPool.memListSize = (MemList.extended grants).memListSize ∧
      (MemList.extended grants).memListIndex =
        (imPool.chunks + (2 ^ 32 - 1)) % 2 ^ 32 := by
  have listed := listed_extended few
  have counted (n : ℕ) :
      (GlobalState.extendGlobalPool^[n] GlobalState.init.imPool).memListSize =
          capacity n ∧
        (GlobalState.extendGlobalPool^[n] GlobalState.init.imPool).chunks =
          n := by
    induction n with
    | zero => exact ⟨rfl, rfl⟩
    | succ n ih =>
        have now := capacity_cases n
        have next := capacity_cases (n + 1)
        obtain ⟨size, chunks⟩ := ih
        rw [Function.iterate_succ_apply']
        simp only [GlobalState.extendGlobalPool, size, chunks, memListSize]
        constructor
        · split <;> omega
        · trivial
  obtain ⟨size, chunks⟩ := counted grants.length
  exact ⟨size.trans listed.size.symm, listed.index.trans (by rw [chunks])⟩

/-- The ninth chunk makes the list grow, and `realloc` leaves some address in
the slots that are not used. -/
def nineChunks : List (Grant ℕ) :=
  (List.range 9).map fun i =>
    ⟨internalMallocChunkSize * (i + 1), fun _ => some 48⟩

theorem garbage_freed :
    ¬ ∀ grants : List (Grant ℕ), TornDown grants := by
  intro tornDown
  have length := (tornDown nineChunks).exactly.length_eq
  revert length
  decide +kernel

end Extension

end Multicilk.Allocator
