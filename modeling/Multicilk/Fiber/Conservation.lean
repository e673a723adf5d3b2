import Mathlib.Data.List.Range
import Multicilk.Fiber.Pool
import Multicilk.Support.Inventory
import Multicilk.Support.Run

/-!
# No fiber is lost

A worker always knows how full its pool is from the place in the code where it
is.  The global pool is known to the one that holds its lock.
-/

namespace Multicilk.FiberPool

open Inventory TransitionSystem

section Definitions

variable {nworkers : ℕ}

inductive Place (nworkers : ℕ) where
  | handedOut
  | pool (w : Fin nworkers)
  | global
  | deallocated

def contents (s : State nworkers) : Place nworkers → List Fiber
  | .handedOut => s.handedOut
  | .pool w => (s.pools w).fibers
  | .global => s.global.fibers
  | .deallocated => s.deallocated

/-- A pool of some capacity, in its own words. -/
structure Pool.Kept (capacity : ℕ) (pool : Pool) : Prop where
  counted : pool.size = pool.fibers.length
  limit : pool.capacity = capacity
  room : pool.size ≤ capacity

/-- How full the pool of a worker is. -/
def Post (cap : ℕ) (pool : Pool) : Pc → Prop
  | .unstarted => pool = .init 0
  | .idle => pool.Kept cap
  | .allocateBatch batchSize _ =>
      pool.Kept cap ∧ batchSize = cap / 2 ∧ pool.size = 0
  | .fromParent i fromParent batchSize _ =>
      pool.Kept cap ∧ batchSize = cap / 2 ∧ pool.size = i ∧ i ≤ fromParent ∧
        fromParent ≤ batchSize
  | .fromSystem i batchSize _ =>
      pool.Kept cap ∧ batchSize = cap / 2 ∧ pool.size = i ∧ i ≤ batchSize
  | .take => pool.Kept cap ∧ 0 < pool.size
  | .freeBatch batchSize _ =>
      pool.Kept cap ∧ batchSize = cap / 2 ∧ pool.size = cap
  | .toParent i toParent batchSize _ =>
      pool.Kept cap ∧ batchSize = cap / 2 ∧ pool.size + i = cap ∧
        i ≤ toParent ∧ toParent ≤ batchSize
  | .toSystem i batchSize _ =>
      pool.Kept cap ∧ batchSize = cap / 2 ∧ pool.size + i = cap ∧ i ≤ batchSize
  | .put _ => pool.Kept cap ∧ pool.size < cap

/-- What the holder of the lock knows about the global pool. -/
def LockedPost (global : Pool) : Pc → Prop
  | .fromParent i fromParent _ _ => fromParent ≤ global.size + i
  | .toParent i toParent _ _ => global.size + toParent ≤ global.capacity + i
  | _ => True

structure Conserved (options : FiberPoolCap) (s : State nworkers) : Prop where
  partitioned : Partitioned (List.range s.created) (contents s)
  global : s.global.Kept (10 * options.cap % 2 ^ 32)
  posts : ∀ w, Post options.cap (s.pools w) (s.pc w)
  owner : ∀ w, s.mutexOwner = some w ↔ (s.pc w).locked = true
  lockedPost : ∀ w, s.mutexOwner = some w → LockedPost s.global (s.pc w)
  returned : ∀ w fiber, (s.pc w).returned = some fiber → fiber ∈ s.handedOut
  returnedOnce : ∀ w v fiber, (s.pc w).returned = some fiber →
    (s.pc v).returned = some fiber → w = v

end Definitions

section Pools

variable {pool : Pool} {cap : ℕ} {fiber : Fiber}

theorem unsignedSub_eq {a b : ℕ} (le : b ≤ a) (fits : a < 2 ^ 32) :
    unsignedSub a b = a - b := by
  unfold unsignedSub
  omega

theorem Pool.Kept.push (kept : pool.Kept cap) (fits : cap < 2 ^ 32)
    (room : pool.size < cap) :
    (pool.push fiber).Kept cap ∧ (pool.push fiber).size = pool.size + 1 := by
  have size : (pool.push fiber).size = pool.size + 1 :=
    Nat.mod_eq_of_lt (by omega)
  refine ⟨⟨?_, kept.limit, by omega⟩, size⟩
  rw [size, kept.counted]
  rfl

theorem Pool.Kept.pop (kept : pool.Kept cap) (fits : cap < 2 ^ 32)
    (found : pool.fibers.head? = some fiber) :
    pool.fibers = fiber :: pool.pop.fibers ∧ pool.pop.Kept cap ∧
      pool.pop.size + 1 = pool.size := by
  obtain ⟨rest, shape⟩ := List.head?_eq_some_iff.mp found
  have counted := kept.counted
  have room := kept.room
  have rests : pool.pop.fibers = rest := congrArg List.tail shape
  rw [shape, List.length_cons] at counted
  have size : pool.pop.size = pool.size - 1 :=
    unsignedSub_eq (by omega) (by omega)
  refine ⟨by rw [rests, shape], ⟨?_, kept.limit, by omega⟩, by omega⟩
  rw [rests]
  omega

/-- The statistics do not matter. -/
theorem Pool.Kept.congr {other : Pool} (kept : pool.Kept cap)
    (fibers : other.fibers = pool.fibers) (size : other.size = pool.size)
    (capacity : other.capacity = pool.capacity) : other.Kept cap := by
  constructor
  case counted => rw [size, fibers, kept.counted]
  case limit => rw [capacity, kept.limit]
  case room => rw [size]; exact kept.room

end Pools

section Moves

variable {nworkers : ℕ} {options : FiberPoolCap} {s next : State nworkers}
  {w : Fin nworkers} {pool : Pool} {pc : Pc}

/-- A worker that does not hold the lock leaves the global pool alone. -/
theorem Conserved.goto (conserved : Conserved options s)
    (pools : next.pools = Function.update s.pools w pool)
    (pcs : next.pc = Function.update s.pc w pc)
    (partitioned : Partitioned (List.range next.created) (contents next))
    (kept : next.global.Kept (10 * options.cap % 2 ^ 32))
    (global : next.global = s.global ∨ (s.pc w).locked = true)
    (mutex : next.mutexOwner =
      if pc.locked then some w
      else if (s.pc w).locked then none else s.mutexOwner)
    (acquired : pc.locked = true →
      (s.mutexOwner = none ∨ (s.pc w).locked = true) ∧
        LockedPost next.global pc)
    (post : Post options.cap pool pc)
    (handedOut : ∀ v fiber, v ≠ w → (s.pc v).returned = some fiber →
      fiber ∈ next.handedOut)
    (returns : ∀ fiber, pc.returned = some fiber →
      fiber ∈ next.handedOut ∧
        ∀ v, v ≠ w → (s.pc v).returned ≠ some fiber) :
    Conserved options next := by
  have samePool {v : Fin nworkers} (other : v ≠ w) :
      next.pools v = s.pools v := by
    rw [pools, Function.update_of_ne other]
  have samePc {v : Fin nworkers} (other : v ≠ w) : next.pc v = s.pc v := by
    rw [pcs, Function.update_of_ne other]
  have newPc : next.pc w = pc := by rw [pcs, Function.update_self]
  have newPool : next.pools w = pool := by rw [pools, Function.update_self]
  -- The lock is free for the others unless the worker holds it.
  have others {v : Fin nworkers} (other : v ≠ w) :
      next.mutexOwner = some v ↔
        s.mutexOwner = some v ∧ (s.pc w).locked = false := by
    have owns := conserved.owner w
    rw [mutex]
    split
    case isTrue locked =>
      rcases (acquired locked).1 with free | held
      · simp [free, Ne.symm other]
      · simp [held, Ne.symm other]
    case isFalse =>
      split
      case isTrue held => simp [held]
      case isFalse notHeld => simp [Bool.eq_false_iff.mpr notHeld]
  constructor
  case partitioned => exact partitioned
  case global => exact kept
  case posts =>
    intro v
    by_cases same : v = w
    · subst v
      rw [newPc, newPool]
      exact post
    · rw [samePc same, samePool same]
      exact conserved.posts v
  case owner =>
    intro v
    by_cases same : v = w
    · subst v
      have owns := conserved.owner w
      rw [newPc, mutex]
      split
      case isTrue locked => simp [locked]
      case isFalse notLocked =>
        rw [Bool.not_eq_true] at notLocked
        rw [notLocked]
        split
        case isTrue => simp
        case isFalse notHeld => simpa [notHeld] using owns
    · rw [samePc same, others same, ← conserved.owner v]
      constructor
      · exact And.left
      · intro held
        refine ⟨held, Bool.eq_false_iff.mpr fun locked => same ?_⟩
        exact Option.some.inj (held.symm.trans ((conserved.owner w).mpr locked))
  case lockedPost =>
    intro v held
    by_cases same : v = w
    · subst v
      rw [newPc]
      by_cases locked : pc.locked = true
      · exact (acquired locked).2
      · cases pc with
        | fromParent => exact absurd rfl locked
        | toParent => exact absurd rfl locked
        | _ => trivial
    · obtain ⟨heldBefore, notLocked⟩ := (others same).mp held
      have sameGlobal : next.global = s.global :=
        global.resolve_right (by simp [notLocked])
      rw [samePc same, sameGlobal]
      exact conserved.lockedPost v heldBefore
  case returned =>
    intro v fiber gives
    by_cases same : v = w
    · subst v
      rw [newPc] at gives
      exact (returns fiber gives).1
    · rw [samePc same] at gives
      exact handedOut v fiber same gives
  case returnedOnce =>
    intro v u fiber gives alsoGives
    by_cases same : v = w
    · by_cases alsoSame : u = w
      · rw [same, alsoSame]
      · rw [same, newPc] at gives
        rw [samePc alsoSame] at alsoGives
        exact absurd alsoGives ((returns fiber gives).2 u alsoSame)
    · rw [samePc same] at gives
      by_cases alsoSame : u = w
      · rw [alsoSame, newPc] at alsoGives
        exact absurd gives ((returns fiber alsoGives).2 v same)
      · rw [samePc alsoSame] at alsoGives
        exact conserved.returnedOnce v u fiber gives alsoGives

theorem contents_pool {fibers : List Fiber}
    (pools : next.pools = Function.update s.pools w pool)
    (same : pool.fibers = fibers) : contents next (.pool w) = fibers := by
  simp only [contents, pools, Function.update_self, same]

/-- The places that a step of a worker leaves alone. -/
theorem contents_congr {place : Place nworkers}
    (pools : next.pools = Function.update s.pools w pool)
    (handedOut : place = .handedOut → next.handedOut = s.handedOut)
    (global : place = .global → next.global.fibers = s.global.fibers)
    (deallocated : place = .deallocated → next.deallocated = s.deallocated)
    (notPool : place ≠ .pool w) : contents next place = contents s place := by
  cases place with
  | handedOut => exact handedOut rfl
  | pool v =>
      have other : v ≠ w := fun same => notPool (same ▸ rfl)
      simp only [contents, pools, Function.update_of_ne other]
  | global => exact global rfl
  | deallocated => exact deallocated rfl

/-- Nothing has been moved. -/
theorem Conserved.stay (conserved : Conserved options s)
    (pools : next.pools = Function.update s.pools w pool)
    (sameFibers : pool.fibers = (s.pools w).fibers)
    (sameGlobal : next.global.fibers = s.global.fibers)
    (sameHandedOut : next.handedOut = s.handedOut)
    (sameDeallocated : next.deallocated = s.deallocated)
    (sameCreated : next.created = s.created) :
    Partitioned (List.range next.created) (contents next) := by
  rw [sameCreated]
  apply conserved.partitioned.congr
  intro place
  by_cases isPool : place = .pool w
  · subst place
    exact contents_pool pools sameFibers
  · exact contents_congr pools (fun _ => sameHandedOut) (fun _ => sameGlobal)
      (fun _ => sameDeallocated) isPool

theorem half_pos (options : FiberPoolCap) : 0 < options.cap / 2 := by
  have atLeast := options.atLeast
  omega

/-- A worker that does not hold the lock gets nowhere near it. -/
theorem Conserved.unlocked (conserved : Conserved options s)
    (pools : next.pools = Function.update s.pools w pool)
    (pcs : next.pc = Function.update s.pc w pc)
    (partitioned : Partitioned (List.range next.created) (contents next))
    (global : next.global = s.global) (mutex : next.mutexOwner = s.mutexOwner)
    (wasUnlocked : (s.pc w).locked = false) (unlocked : pc.locked = false)
    (post : Post options.cap pool pc)
    (handedOut : ∀ v fiber, v ≠ w → (s.pc v).returned = some fiber →
      fiber ∈ next.handedOut)
    (returns : ∀ fiber, pc.returned = some fiber →
      fiber ∈ next.handedOut ∧
        ∀ v, v ≠ w → (s.pc v).returned ≠ some fiber) :
    Conserved options next := by
  refine conserved.goto pools pcs partitioned (global ▸ conserved.global)
    (.inl global) ?_ ?_ post handedOut returns
  · simp [unlocked, wasUnlocked, mutex]
  · intro locked
    rw [unlocked] at locked
    cases locked

/-- The fiber that a worker gives back is nobody else's. -/
theorem Conserved.gives (conserved : Conserved options s) {fiber : Fiber}
    (gives : (s.pc w).returned = some fiber) :
    fiber ∈ s.handedOut ∧ ∀ v, v ≠ w → (s.pc v).returned ≠ some fiber := by
  refine ⟨conserved.returned w fiber gives, fun v other alsoGives => other ?_⟩
  exact conserved.returnedOnce v w fiber alsoGives gives

end Moves

section Steps

variable {nworkers : ℕ} {options : FiberPoolCap} {s next : State nworkers}
  {action : Action nworkers}

/-- A new fiber is numbered with the next number. -/
theorem Conserved.create (conserved : Conserved options s)
    {next : State nworkers} {target : Place nworkers}
    (created : next.created = s.created + 1)
    (put : contents next target = s.created :: contents s target)
    (others : ∀ place, place ≠ target →
      contents next place = contents s place) :
    Partitioned (List.range next.created) (contents next) := by
  have fresh : s.created ∉ List.range s.created := by simp
  apply (conserved.partitioned.create fresh put others).of_mem_iff
  intro fiber
  rw [created, List.range_succ, List.mem_append, List.mem_singleton,
    List.mem_cons, or_comm]

section Allocation

variable {w : Fin nworkers} {i fromParent batchSize : ℕ} {caller : Caller}
  {fiber : Fiber}

theorem Conserved.lockToAllocate (conserved : Conserved options s)
    (atPc : s.pc w = .allocateBatch batchSize caller)
    (free : s.mutexOwner = none) :
    Conserved options
      { s.goto w
          ((s.pools w).increaseCapacity
            ((batchSize + (s.pools w).size) % 2 ^ 32))
          (.fromParent 0 (s.global.fromParent batchSize) batchSize caller) with
        mutexOwner := some w } := by
  have fits := options.fits
  have post := conserved.posts w
  simp only [atPc, Post] at post
  obtain ⟨kept, isBatch, empty⟩ := post
  have sameCapacity : ((s.pools w).increaseCapacity
      ((batchSize + (s.pools w).size) % 2 ^ 32)).capacity =
        (s.pools w).capacity := by
    have limit := kept.limit
    simp only [Pool.increaseCapacity]
    rw [if_neg (by omega)]
  refine conserved.goto rfl rfl (conserved.stay rfl rfl rfl rfl rfl rfl)
    conserved.global (.inl rfl) rfl ?_ ?_ ?_ nofun
  · intro locked
    refine ⟨.inl free, ?_⟩
    simp only [LockedPost, Pool.fromParent, goto_global]
    split <;> omega
  · refine ⟨kept.congr rfl rfl sameCapacity, isBatch, empty, Nat.zero_le _, ?_⟩
    simp only [Pool.fromParent]
    split <;> omega
  · exact fun v fiber _ gives => conserved.returned v fiber gives

theorem Conserved.takeFromParent (conserved : Conserved options s)
    (atPc : s.pc w = .fromParent i fromParent batchSize caller)
    (more : i < fromParent) (found : s.global.fibers.head? = some fiber) :
    Conserved options
      { s.goto w ((s.pools w).push fiber)
          (.fromParent (i + 1) fromParent batchSize caller) with
        global := s.global.pop } := by
  have fits := options.fits
  have post := conserved.posts w
  simp only [atPc, Post] at post
  obtain ⟨kept, isBatch, size, -, within⟩ := post
  have locked : (s.pc w).locked = true := by rw [atPc]; rfl
  have owns := (conserved.owner w).mpr locked
  have known := conserved.lockedPost w owns
  simp only [atPc, LockedPost] at known
  obtain ⟨shape, keptGlobal, left⟩ :=
    conserved.global.pop (Nat.mod_lt _ (by omega)) found
  obtain ⟨pushed, newSize⟩ := @Pool.Kept.push _ _ fiber kept fits (by omega)
  refine conserved.goto rfl rfl ?_ keptGlobal (.inr locked) owns ?_ ?_ ?_ nofun
  · refine @Partitioned.transfer _ _ _ (contents s) _ fiber [] _ .global
      (.pool w) conserved.partitioned (by simp) shape rfl (contents_pool rfl rfl) ?_
    exact fun place notGlobal notPool => contents_congr rfl (fun _ => rfl)
      (fun same => absurd same notGlobal) (fun _ => rfl) notPool
  · intro _
    refine ⟨.inr locked, ?_⟩
    simp only [LockedPost]
    omega
  · exact ⟨pushed, isBatch, by omega, more, within⟩
  · exact fun v fiber _ gives => conserved.returned v fiber gives

theorem Conserved.unlockToAllocate (conserved : Conserved options s)
    (atPc : s.pc w = .fromParent i fromParent batchSize caller)
    (done : fromParent ≤ i) :
    Conserved options
      { s.goto w (s.pools w) (.fromSystem fromParent batchSize caller) with
        global := s.global.use fromParent
        mutexOwner := none } := by
  have post := conserved.posts w
  simp only [atPc, Post] at post
  obtain ⟨kept, isBatch, size, most, within⟩ := post
  have locked : (s.pc w).locked = true := by rw [atPc]; rfl
  refine conserved.goto rfl rfl (conserved.stay rfl rfl rfl rfl rfl rfl)
    (conserved.global.congr rfl rfl rfl) (.inr locked) ?_ nofun ?_ ?_ nofun
  · rw [if_pos locked]
    rfl
  · exact ⟨kept, isBatch, by omega, within⟩
  · exact fun v fiber _ gives => conserved.returned v fiber gives

theorem Conserved.allocateFiber (conserved : Conserved options s)
    (atPc : s.pc w = .fromSystem i batchSize caller) (more : i < batchSize) :
    Conserved options
      { s.goto w ((s.pools w).push s.created)
          (.fromSystem (i + 1) batchSize caller) with
        created := s.created + 1 } := by
  have fits := options.fits
  have half := half_pos options
  have post := conserved.posts w
  simp only [atPc, Post] at post
  obtain ⟨kept, isBatch, size, -⟩ := post
  obtain ⟨pushed, newSize⟩ := @Pool.Kept.push _ _ s.created kept fits (by omega)
  refine conserved.unlocked rfl rfl ?_ rfl rfl (by rw [atPc]; rfl) rfl ?_ ?_
    nofun
  · refine @Conserved.create _ _ _ conserved _ (.pool w) rfl
      (contents_pool rfl rfl) ?_
    exact fun place notPool => contents_congr rfl (fun _ => rfl) (fun _ => rfl)
      (fun _ => rfl) notPool
  · exact ⟨pushed, isBatch, by omega, more⟩
  · exact fun v fiber _ gives => conserved.returned v fiber gives

theorem Conserved.batchAllocated (conserved : Conserved options s)
    (atPc : s.pc w = .fromSystem i batchSize caller) (done : batchSize ≤ i) :
    Conserved options
      (s.goto w (afterAllocate (s.pools w).noteFree caller).1
        (afterAllocate (s.pools w).noteFree caller).2) := by
  have half := half_pos options
  have post := conserved.posts w
  simp only [atPc, Post] at post
  obtain ⟨kept, isBatch, size, -⟩ := post
  have handedOut (v : Fin nworkers) (fiber : Fiber) (_ : v ≠ w)
      (gives : (s.pc v).returned = some fiber) : fiber ∈ s.handedOut :=
    conserved.returned v fiber gives
  cases caller with
  | init =>
      refine conserved.unlocked rfl rfl (conserved.stay rfl rfl rfl rfl rfl rfl)
        rfl rfl (by rw [atPc]; rfl) rfl ?_ handedOut nofun
      exact kept.congr rfl rfl rfl
  | allocate =>
      refine conserved.unlocked rfl rfl (conserved.stay rfl rfl rfl rfl rfl rfl)
        rfl rfl (by rw [atPc]; rfl) rfl ?_ handedOut nofun
      have filled : 0 < (s.pools w).noteFree.size := by
        rw [Pool.noteFree]
        dsimp only
        omega
      exact ⟨kept.congr rfl rfl rfl, filled⟩

theorem Conserved.take (conserved : Conserved options s) (atPc : s.pc w = .take)
    (found : (s.pools w).fibers.head? = some fiber) :
    Conserved options
      { s.goto w ((s.pools w).pop.use 1) .idle with
        handedOut := fiber :: s.handedOut } := by
  have post := conserved.posts w
  simp only [atPc, Post] at post
  obtain ⟨kept, -⟩ := post
  obtain ⟨shape, popped, -⟩ := kept.pop options.fits found
  refine conserved.unlocked rfl rfl ?_ rfl rfl (by rw [atPc]; rfl) rfl ?_ ?_
    nofun
  · refine @Partitioned.transfer _ _ _ (contents s) _ fiber [] _ (.pool w)
      .handedOut conserved.partitioned (by simp) shape (contents_pool rfl rfl) rfl
      ?_
    exact fun place notPool notHandedOut => contents_congr rfl
      (fun same => absurd same notHandedOut) (fun _ => rfl) (fun _ => rfl)
      notPool
  · exact popped.congr rfl rfl rfl
  · exact fun v fiber _ gives =>
      List.mem_cons_of_mem _ (conserved.returned v fiber gives)

end Allocation

section Deallocation

variable {w : Fin nworkers} {i toParent batchSize : ℕ}
  {fiberToReturn : Option Fiber} {fiber : Fiber}

theorem Conserved.lockToFree (conserved : Conserved options s)
    (atPc : s.pc w = .freeBatch batchSize fiberToReturn)
    (free : s.mutexOwner = none) :
    Conserved options
      { s.goto w (s.pools w)
          (.toParent 0 (s.global.toParent batchSize) batchSize
            fiberToReturn) with
        mutexOwner := some w } := by
  have post := conserved.posts w
  simp only [atPc, Post] at post
  obtain ⟨kept, isBatch, full⟩ := post
  obtain ⟨-, limit, room⟩ := conserved.global
  have left : unsignedSub s.global.capacity s.global.size =
      s.global.capacity - s.global.size :=
    unsignedSub_eq (by omega) (by omega)
  refine conserved.goto rfl rfl (conserved.stay rfl rfl rfl rfl rfl rfl)
    conserved.global (.inl rfl) rfl ?_ ?_ ?_ ?_
  · intro _
    refine ⟨.inl free, ?_⟩
    simp only [LockedPost, Pool.toParent, goto_global, left]
    split <;> omega
  · refine ⟨kept, isBatch, full, Nat.zero_le _, ?_⟩
    simp only [Pool.toParent]
    split <;> omega
  · exact fun v fiber _ gives => conserved.returned v fiber gives
  · exact fun fiber same => conserved.gives (by rw [atPc]; exact same)

theorem Conserved.giveToParent (conserved : Conserved options s)
    (atPc : s.pc w = .toParent i toParent batchSize fiberToReturn)
    (more : i < toParent) (found : (s.pools w).fibers.head? = some fiber) :
    Conserved options
      { s.goto w (s.pools w).pop
          (.toParent (i + 1) toParent batchSize fiberToReturn) with
        global := s.global.push fiber } := by
  have post := conserved.posts w
  simp only [atPc, Post] at post
  obtain ⟨kept, isBatch, size, -, within⟩ := post
  have locked : (s.pc w).locked = true := by rw [atPc]; rfl
  have owns := (conserved.owner w).mpr locked
  have known := conserved.lockedPost w owns
  simp only [atPc, LockedPost, conserved.global.limit] at known
  obtain ⟨shape, popped, left⟩ := kept.pop options.fits found
  obtain ⟨pushed, newSize⟩ := @Pool.Kept.push _ _ fiber conserved.global
    (Nat.mod_lt _ (by omega)) (by omega)
  refine conserved.goto rfl rfl ?_ pushed (.inr locked) owns ?_ ?_ ?_ ?_
  · refine @Partitioned.transfer _ _ _ (contents s) _ fiber [] _ (.pool w)
      .global conserved.partitioned (by simp) shape (contents_pool rfl rfl) rfl ?_
    exact fun place notPool notGlobal => contents_congr rfl (fun _ => rfl)
      (fun same => absurd same notGlobal) (fun _ => rfl) notPool
  · intro _
    refine ⟨.inr locked, ?_⟩
    simp only [LockedPost, newSize, pushed.limit]
    omega
  · exact ⟨popped, isBatch, by omega, more, within⟩
  · exact fun v fiber _ gives => conserved.returned v fiber gives
  · exact fun fiber same => conserved.gives (by rw [atPc]; exact same)

theorem Conserved.unlockToFree (conserved : Conserved options s)
    (atPc : s.pc w = .toParent i toParent batchSize fiberToReturn)
    (done : toParent ≤ i) :
    Conserved options
      { s.goto w (s.pools w) (.toSystem toParent batchSize fiberToReturn) with
        global := s.global.unuse toParent
        mutexOwner := none } := by
  have post := conserved.posts w
  simp only [atPc, Post] at post
  obtain ⟨kept, isBatch, size, most, within⟩ := post
  have locked : (s.pc w).locked = true := by rw [atPc]; rfl
  refine conserved.goto rfl rfl (conserved.stay rfl rfl rfl rfl rfl rfl)
    (conserved.global.congr rfl rfl rfl) (.inr locked) ?_ nofun ?_ ?_ ?_
  · rw [if_pos locked]
    rfl
  · exact ⟨kept, isBatch, by omega, within⟩
  · exact fun v fiber _ gives => conserved.returned v fiber gives
  · exact fun fiber same => conserved.gives (by rw [atPc]; exact same)

theorem Conserved.deallocateFiber (conserved : Conserved options s)
    (atPc : s.pc w = .toSystem i batchSize fiberToReturn) (more : i < batchSize)
    (found : (s.pools w).fibers.head? = some fiber) :
    Conserved options
      { s.goto w (s.pools w).pop
          (.toSystem (i + 1) batchSize fiberToReturn) with
        deallocated := fiber :: s.deallocated } := by
  have post := conserved.posts w
  simp only [atPc, Post] at post
  obtain ⟨kept, isBatch, size, -⟩ := post
  obtain ⟨shape, popped, left⟩ := kept.pop options.fits found
  refine conserved.unlocked rfl rfl ?_ rfl rfl (by rw [atPc]; rfl) rfl ?_ ?_ ?_
  · refine @Partitioned.transfer _ _ _ (contents s) _ fiber [] _ (.pool w)
      .deallocated conserved.partitioned (by simp) shape (contents_pool rfl rfl) rfl
      ?_
    exact fun place notPool notDeallocated => contents_congr rfl (fun _ => rfl)
      (fun _ => rfl) (fun same => absurd same notDeallocated) notPool
  · exact ⟨popped, isBatch, by omega, more⟩
  · exact fun v fiber _ gives => conserved.returned v fiber gives
  · exact fun fiber same => conserved.gives (by rw [atPc]; exact same)

theorem Conserved.put (conserved : Conserved options s)
    (atPc : s.pc w = .put (some fiber)) :
    Conserved options
      { s.goto w (((s.pools w).push fiber).unuse 1) .idle with
        handedOut := s.handedOut.erase fiber } := by
  have post := conserved.posts w
  simp only [atPc, Post] at post
  obtain ⟨kept, room⟩ := post
  obtain ⟨pushed, -⟩ := @Pool.Kept.push _ _ fiber kept options.fits room
  obtain ⟨member, others⟩ :=
    @Conserved.gives _ _ _ w conserved fiber (by rw [atPc]; rfl)
  have nodup := conserved.partitioned.nodup .handedOut
  obtain ⟨before, after, shape⟩ := List.append_of_mem member
  have notBefore : fiber ∉ before := by
    intro inBefore
    exact @Partitioned.not_mem_rest _ _ _ (contents s) _ _ _ .handedOut
      conserved.partitioned shape (List.mem_append_left _ inBefore)
  have erased : s.handedOut.erase fiber = before ++ after := by
    rw [shape, List.erase_append_right _ notBefore, List.erase_cons_head]
  refine conserved.unlocked rfl rfl ?_ rfl rfl (by rw [atPc]; rfl) rfl ?_ ?_
    nofun
  · refine @Partitioned.transfer _ _ _ (contents s) _ fiber before after
      .handedOut (.pool w) conserved.partitioned (by simp) shape erased
      (contents_pool rfl rfl) ?_
    exact fun place notHandedOut notPool => contents_congr rfl
      (fun same => absurd same notHandedOut) (fun _ => rfl) (fun _ => rfl)
      notPool
  · exact pushed.congr rfl rfl rfl
  · intro v other notSame gives
    have different : other ≠ fiber := fun same =>
      others v notSame (same ▸ gives)
    exact (List.mem_erase_of_ne different).mpr (conserved.returned v other gives)

end Deallocation

theorem Conserved.step (conserved : Conserved options s)
    (taken : Step options s action next) : Conserved options next := by
  have fits := options.fits
  have half := half_pos options
  have handedOut {w : Fin nworkers} (v : Fin nworkers) (fiber : Fiber)
      (_ : v ≠ w) (gives : (s.pc v).returned = some fiber) :
      fiber ∈ s.handedOut :=
    conserved.returned v fiber gives
  cases taken with
  | perWorkerInit atPc =>
      rename_i w
      have post := conserved.posts w
      simp only [atPc, Post] at post
      refine conserved.unlocked rfl rfl
        (conserved.stay rfl ?_ rfl rfl rfl rfl) rfl rfl (by rw [atPc]; rfl) rfl
        ?_ handedOut nofun
      · rw [post]
        rfl
      · exact ⟨⟨rfl, rfl, Nat.zero_le _⟩, rfl, rfl⟩
  | allocateFromPool atPc =>
      rename_i w
      have post := conserved.posts w
      simp only [atPc, Post] at post
      split
      case isTrue empty =>
        refine conserved.unlocked rfl rfl
          (conserved.stay rfl rfl rfl rfl rfl rfl) rfl rfl (by rw [atPc]; rfl)
          rfl ?_ handedOut nofun
        exact ⟨post, by rw [post.limit], empty⟩
      case isFalse filled =>
        refine conserved.unlocked rfl rfl
          (conserved.stay rfl rfl rfl rfl rfl rfl) rfl rfl (by rw [atPc]; rfl)
          rfl ?_ handedOut nofun
        exact ⟨post, Nat.pos_of_ne_zero filled⟩
  | deallocateToPool atPc free =>
      rename_i w fiberToReturn
      have post := conserved.posts w
      simp only [atPc, Post] at post
      have room := post.room
      have gives (fiber : Fiber) (given : fiberToReturn = some fiber) :
          fiber ∈ s.handedOut ∧ ∀ v, v ≠ w → (s.pc v).returned ≠ some fiber :=
        ⟨(free fiber given).1, fun v _ => (free fiber given).2 v⟩
      split
      case isTrue full =>
        refine conserved.unlocked rfl rfl
          (conserved.stay rfl rfl rfl rfl rfl rfl) rfl rfl (by rw [atPc]; rfl)
          rfl ?_ handedOut gives
        exact ⟨post, by rw [post.limit], full.trans post.limit⟩
      case isFalse notFull =>
        rw [post.limit] at notFull
        refine conserved.unlocked rfl rfl
          (conserved.stay rfl rfl rfl rfl rfl rfl) rfl rfl (by rw [atPc]; rfl)
          rfl ?_ handedOut gives
        exact ⟨post, Nat.lt_of_le_of_ne room notFull⟩
  | allocateRoot =>
      constructor
      case partitioned =>
        refine @Conserved.create _ _ _ conserved _ .handedOut rfl rfl ?_
        intro place notHandedOut
        cases place with
        | handedOut => exact absurd rfl notHandedOut
        | _ => rfl
      case global => exact conserved.global
      case posts => exact conserved.posts
      case owner => exact conserved.owner
      case lockedPost => exact conserved.lockedPost
      case returned =>
        exact fun w fiber gives =>
          List.mem_cons_of_mem _ (conserved.returned w fiber gives)
      case returnedOnce => exact conserved.returnedOnce
  | lockToAllocate atPc free => exact conserved.lockToAllocate atPc free
  | takeFromParent atPc more found =>
      exact conserved.takeFromParent atPc more found
  | unlockToAllocate atPc done => exact conserved.unlockToAllocate atPc done
  | allocateFiber atPc more => exact conserved.allocateFiber atPc more
  | batchAllocated atPc done => exact conserved.batchAllocated atPc done
  | take atPc found => exact conserved.take atPc found
  | lockToFree atPc free => exact conserved.lockToFree atPc free
  | giveToParent atPc more found => exact conserved.giveToParent atPc more found
  | unlockToFree atPc done => exact conserved.unlockToFree atPc done
  | deallocateFiber atPc more found =>
      exact conserved.deallocateFiber atPc more found
  | batchFreed atPc done =>
      rename_i w i batchSize fiberToReturn
      have post := conserved.posts w
      simp only [atPc, Post] at post
      obtain ⟨kept, isBatch, size, -⟩ := post
      refine conserved.unlocked rfl rfl (conserved.stay rfl rfl rfl rfl rfl rfl)
        rfl rfl (by rw [atPc]; rfl) rfl ?_ handedOut ?_
      · exact ⟨kept, by omega⟩
      · exact fun fiber same => conserved.gives (by rw [atPc]; exact same)
  | put atPc => exact conserved.put atPc
  | putNothing atPc =>
      rename_i w
      have post := conserved.posts w
      simp only [atPc, Post] at post
      exact conserved.unlocked rfl rfl (conserved.stay rfl rfl rfl rfl rfl rfl)
        rfl rfl (by rw [atPc]; rfl) rfl post.1 handedOut nofun

end Steps

section Safety

variable {nworkers : ℕ} {options : FiberPoolCap} {s : State nworkers}

/-- The next thing a worker does there is to take a fiber out of its pool. -/
def Pc.popsPool : Pc → Prop
  | .toParent i most _ _ => i < most
  | .toSystem i batchSize _ => i < batchSize
  | .take => True
  | _ => False

def Pc.pushesPool : Pc → Prop
  | .fromParent i most _ _ => i < most
  | .fromSystem i batchSize _ => i < batchSize
  | .put fiberToReturn => fiberToReturn.isSome = true
  | _ => False

def Pc.popsGlobal : Pc → Prop
  | .fromParent i most _ _ => i < most
  | _ => False

def Pc.pushesGlobal : Pc → Prop
  | .toParent i most _ _ => i < most
  | _ => False

/-- The assertions of the source, each at the place where it is. -/
def Asserts (s : State nworkers) (w : Fin nworkers) : Pc → Prop
  | .allocateBatch _ _ => s.mutexOwner ≠ some w
  | .fromParent _ _ _ _ => s.mutexOwner = some w
  | .take => (s.pools w).fibers.head? ≠ none
  | .freeBatch batchSize _ =>
      batchSize ≤ (s.pools w).size ∧ s.mutexOwner ≠ some w
  | .toParent _ _ _ _ =>
      s.global.size ≤ s.global.capacity ∧ s.mutexOwner = some w
  | .toSystem i batchSize _ => batchSize ≤ i →
      (s.pools w).capacity / 2 ≤
        unsignedSub (s.pools w).capacity (s.pools w).size
  | _ => True

/-- The sizes are what they should be, whatever comes next. -/
structure Safe (s : State nworkers) : Prop where
  counted : ∀ w, (s.pools w).size = (s.pools w).fibers.length
  room : ∀ w, (s.pools w).size ≤ (s.pools w).capacity
  globalCounted : s.global.size = s.global.fibers.length
  globalRoom : s.global.size ≤ s.global.capacity
  pops : ∀ w, (s.pc w).popsPool → 0 < (s.pools w).size
  pushes : ∀ w, (s.pc w).pushesPool → (s.pools w).size < (s.pools w).capacity
  popsGlobal : ∀ w, (s.pc w).popsGlobal → 0 < s.global.size
  pushesGlobal : ∀ w, (s.pc w).pushesGlobal →
    s.global.size < s.global.capacity
  asserts : ∀ w, Asserts s w (s.pc w)

theorem Post.kept {cap : ℕ} {pool : Pool} {pc : Pc} (post : Post cap pool pc) :
    pool.size = pool.fibers.length ∧ pool.size ≤ pool.capacity ∧
      (pc ≠ .unstarted → pool.Kept cap) := by
  have of_kept (kept : pool.Kept cap) : pool.size = pool.fibers.length ∧
      pool.size ≤ pool.capacity ∧ (pc ≠ .unstarted → pool.Kept cap) :=
    ⟨kept.counted, kept.limit ▸ kept.room, fun _ => kept⟩
  cases pc with
  | unstarted =>
      simp only [Post] at post
      subst pool
      exact ⟨rfl, Nat.le_refl _, fun started => absurd rfl started⟩
  | idle => exact of_kept post
  | _ => exact of_kept post.1

theorem Conserved.safe (conserved : Conserved options s) : Safe s := by
  have fits := options.fits
  have half := half_pos options
  obtain ⟨globalCounted, limit, room⟩ := conserved.global
  have globalRoom : s.global.size ≤ s.global.capacity := by omega
  have notOwner (w : Fin nworkers) (free : (s.pc w).locked = false) :
      s.mutexOwner ≠ some w := by
    intro owns
    rw [(conserved.owner w).mp owns] at free
    cases free
  have known (w : Fin nworkers) (locked : (s.pc w).locked = true) :
      s.mutexOwner = some w ∧ LockedPost s.global (s.pc w) := by
    have owns := (conserved.owner w).mpr locked
    exact ⟨owns, conserved.lockedPost w owns⟩
  constructor
  case counted => exact fun w => (conserved.posts w).kept.1
  case room => exact fun w => (conserved.posts w).kept.2.1
  case globalCounted => exact globalCounted
  case globalRoom => exact globalRoom
  case pops =>
    intro w pops
    have post := conserved.posts w
    cases atPc : s.pc w <;>
      simp only [atPc, Post, Pc.popsPool] at post pops <;> omega
  case pushes =>
    intro w pushes
    have post := conserved.posts w
    cases atPc : s.pc w <;>
      simp only [atPc, Post, Pc.pushesPool] at post pushes
    case fromParent => have limit := post.1.limit; omega
    case fromSystem => have limit := post.1.limit; omega
    case put => have limit := post.1.limit; omega
  case popsGlobal =>
    intro w pops
    have knows := known w
    cases atPc : s.pc w <;> simp only [atPc, Pc.popsGlobal] at pops
    have bound := (knows (by rw [atPc]; rfl)).2
    rw [atPc] at bound
    simp only [LockedPost] at bound
    omega
  case pushesGlobal =>
    intro w pushes
    have knows := known w
    cases atPc : s.pc w <;> simp only [atPc, Pc.pushesGlobal] at pushes
    have bound := (knows (by rw [atPc]; rfl)).2
    rw [atPc] at bound
    simp only [LockedPost] at bound
    omega
  case asserts =>
    intro w
    have post := conserved.posts w
    have knows := known w
    have free := notOwner w
    cases atPc : s.pc w with
    | allocateBatch => exact free (by rw [atPc]; rfl)
    | fromParent => exact (knows (by rw [atPc]; rfl)).1
    | take =>
        simp only [atPc, Post] at post
        obtain ⟨kept, filled⟩ := post
        rw [kept.counted] at filled
        simp only [Asserts, ne_eq, List.head?_eq_none_iff]
        exact List.ne_nil_of_length_pos filled
    | freeBatch =>
        simp only [atPc, Post] at post
        exact ⟨by omega, free (by rw [atPc]; rfl)⟩
    | toParent => exact ⟨globalRoom, (knows (by rw [atPc]; rfl)).1⟩
    | toSystem =>
        simp only [atPc, Post] at post
        obtain ⟨kept, isBatch, size, -⟩ := post
        have limit := kept.limit
        intro done
        rw [unsignedSub_eq (by omega) (by omega)]
        omega
    | _ => trivial

theorem conserved_start (options : FiberPoolCap) :
    Conserved options (State.start options : State nworkers) := by
  constructor
  case partitioned =>
    apply partitioned_nil
    intro place
    cases place <;> rfl
  case global => exact ⟨rfl, rfl, Nat.zero_le _⟩
  case posts => exact fun _ => rfl
  case owner => exact fun _ => iff_of_false nofun nofun
  case lockedPost => exact nofun
  case returned => exact nofun
  case returnedOnce => exact nofun

/-- Every fiber that has been created is in one place, and just once, whatever
the workers have done, and no pool is used beyond its bounds. -/
theorem fibers_conserved {trace : List (State nworkers × Action nworkers)}
    (run : Run (Step options) (State.start options) trace s) :
    (∀ fiber < s.created, ∃! place, fiber ∈ contents s place) ∧
      (∀ place, (contents s place).Nodup) ∧ Safe s := by
  have conserved : Conserved options s :=
    run.invariant (conserved_start options)
      fun _ _ _ conserved taken => conserved.step taken
  refine ⟨fun fiber created => ?_, conserved.partitioned.nodup, conserved.safe⟩
  exact conserved.partitioned.unique (List.mem_range.mpr created)

/-- The smallest pools that are accepted. -/
def smallest : FiberPoolCap := ⟨8, by decide, by decide⟩

/-- Two workers fill their pools.  A fiber that the first one hands out is given
back by the second one. -/
theorem fibers_conserved_exchanged :
    ∃ (trace : List (State 2 × Action 2)) (s : State 2),
      Run (Step smallest) (State.start smallest) trace s ∧
      (trace.map Prod.snd).drop 16 = [.allocateFromPool 0, .internal 0,
        .deallocateToPool 1 (some 3), .internal 1] ∧
      (s.pools 0).fibers = [2, 1, 0] ∧ (s.pools 1).fibers = [3, 7, 6, 5, 4] ∧
      (∀ fiber < 8, ∃! place, fiber ∈ contents s place) ∧ Safe s := by
  have start := @Run.refl _ _ (@Step 2 smallest) (State.start smallest)
  have first := start.snoc (@Step.perWorkerInit _ _ _ 0 rfl)
    |>.snoc (@Step.lockToAllocate _ _ _ 0 4 .init rfl rfl)
    |>.snoc (@Step.unlockToAllocate _ _ _ 0 0 0 4 .init rfl (by decide))
    |>.snoc (@Step.allocateFiber _ _ _ 0 0 4 .init rfl (by decide))
    |>.snoc (@Step.allocateFiber _ _ _ 0 1 4 .init rfl (by decide))
    |>.snoc (@Step.allocateFiber _ _ _ 0 2 4 .init rfl (by decide))
    |>.snoc (@Step.allocateFiber _ _ _ 0 3 4 .init rfl (by decide))
    |>.snoc (@Step.batchAllocated _ _ _ 0 4 4 .init rfl (by decide))
  have second := first.snoc (@Step.perWorkerInit _ _ _ 1 rfl)
    |>.snoc (@Step.lockToAllocate _ _ _ 1 4 .init rfl rfl)
    |>.snoc (@Step.unlockToAllocate _ _ _ 1 0 0 4 .init rfl (by decide))
    |>.snoc (@Step.allocateFiber _ _ _ 1 0 4 .init rfl (by decide))
    |>.snoc (@Step.allocateFiber _ _ _ 1 1 4 .init rfl (by decide))
    |>.snoc (@Step.allocateFiber _ _ _ 1 2 4 .init rfl (by decide))
    |>.snoc (@Step.allocateFiber _ _ _ 1 3 4 .init rfl (by decide))
    |>.snoc (@Step.batchAllocated _ _ _ 1 4 4 .init rfl (by decide))
  have handedOut := second.snoc (@Step.allocateFromPool _ _ _ 0 rfl)
    |>.snoc (@Step.take _ _ _ 0 3 rfl rfl)
  have givenBack := handedOut.snoc (@Step.deallocateToPool _ _ _ 1 (some 3) rfl
      (by rintro fiber ⟨⟩; exact ⟨by decide, by decide⟩))
    |>.snoc (@Step.put _ _ _ 1 3 rfl)
  obtain ⟨placed, -, safe⟩ := fibers_conserved givenBack
  exact ⟨_, _, givenBack, rfl, rfl, rfl, placed, safe⟩

end Safety

end Multicilk.FiberPool
