import Mathlib.Algebra.Order.Group.Nat
import Mathlib.Data.Nat.Notation

/-!
# The stacks of fibers

`make_stack` turns the configured size into a number of pages, and maps them with
a guard page at either end.  The accepted sizes are far from the bounds of
`size_t`, and addresses do not wrap around, so both are natural numbers.
-/

namespace Multicilk.FiberStack

def minNumPagesPerStack : ℕ := 4

def maxNumPagesPerStack : ℕ := 2000

def lowGuardPages : ℕ := 1

def highGuardPages : ℕ := 1

/-- What `set_stacksize` reads and writes. -/
structure GlobalState where
  workersStarted : Bool
  stacksize : ℕ
deriving DecidableEq

/-- A failed assertion is `none`. -/
def setStacksize (g : GlobalState) (stacksize : ℕ) : Option GlobalState :=
  if g.workersStarted = false ∧ 16384 ≤ stacksize ∧
      stacksize ≤ 100 * 1024 * 1024 then
    some { g with stacksize }
  else none

/-- `cilk_internal_malloc_global_init`: `ffs` and the shift in the assertion take
an `int`, in which no other bit than the first 31 can be tested. -/
def cheetahPageShift (pageSize : BitVec 64) : Option ℕ :=
  let pageShift := (pageSize.setWidth 32).ctz.toNat
  if pageShift < 31 ∧ 2 ^ pageShift = pageSize.toNat then some pageShift
  else none

/-- A `cilk_fiber` without its owner. -/
structure CilkFiber where
  allocLow : ℕ
  stackLow : ℕ
  stackHigh : ℕ
  allocHigh : ℕ

/-- Some bytes in a row. -/
structure Range where
  start : ℕ
  size : ℕ

/-- A fiber with what has been done to the memory of its stack. -/
structure Stack where
  fiber : CilkFiber
  /-- Where `mprotect` has taken all permissions. -/
  guards : List Range
  /-- Where `memset` has written. -/
  filled : Option Range

def stackPages (pageShift stackSize : ℕ) : ℕ :=
  let pageSize := 2 ^ pageShift
  let stackPages := (stackSize + pageSize - 1) >>> pageShift
  let stackPages := stackPages + (lowGuardPages + highGuardPages)
  if stackPages < minNumPagesPerStack then minNumPagesPerStack
  else if stackPages > maxNumPagesPerStack then maxNumPagesPerStack
  else stackPages

/-- The system gives an address for a size, or nothing, which ends the program.
The debug level decides about the fill. -/
def makeStack (mmap : ℕ → Option ℕ) (memorySlow : Bool)
    (pageShift stackSize : ℕ) : Option Stack :=
  let pageSize := 2 ^ pageShift
  let size := stackPages pageShift stackSize * pageSize
  (mmap size).map fun allocLow =>
    let allocHigh := allocLow + size
    let stackHigh := allocHigh - pageSize
    let stackLow := allocLow + pageSize
    { fiber := { allocLow, stackLow, stackHigh, allocHigh }
      guards := [⟨allocLow, pageSize⟩, ⟨stackHigh, pageSize⟩]
      filled := if memorySlow then some ⟨stackLow, stackSize⟩ else none }

/-- The range lies between the guard pages. -/
def CilkFiber.Usable (fiber : CilkFiber) (range : Range) : Prop :=
  fiber.stackLow ≤ range.start ∧ range.start + range.size ≤ fiber.stackHigh

/-- The stack has the configured size between its guard pages, which are the
first and the last page of what has been mapped. -/
structure Stack.Holds (stack : Stack) (pageSize stacksize : ℕ) : Prop where
  guards : stack.guards = [⟨stack.fiber.allocLow, pageSize⟩,
    ⟨stack.fiber.stackHigh, pageSize⟩]
  low : stack.fiber.allocLow + pageSize = stack.fiber.stackLow
  high : stack.fiber.stackHigh + pageSize = stack.fiber.allocHigh
  configured : stacksize ≤ stack.fiber.stackHigh - stack.fiber.stackLow
  filled : ∀ range, stack.filled = some range → stack.fiber.Usable range

section Pages

variable {pageShift stackSize : ℕ}

/-- The pages of a size are rounded up. -/
theorem pages_le_iff {pages : ℕ} :
    (stackSize + 2 ^ pageShift - 1) >>> pageShift ≤ pages ↔
      stackSize ≤ pages * 2 ^ pageShift := by
  have positive : 0 < 2 ^ pageShift := Nat.two_pow_pos pageShift
  rw [Nat.shiftRight_eq_div_pow, ← Nat.lt_succ_iff,
    Nat.div_lt_iff_lt_mul positive, Nat.succ_mul]
  omega

theorem stackPages_cases :
    stackPages pageShift stackSize = minNumPagesPerStack ∧
      stackSize ≤ 2 ^ pageShift ∨
    stackPages pageShift stackSize = maxNumPagesPerStack ∧
      1998 * 2 ^ pageShift < stackSize ∨
    stackPages pageShift stackSize =
        (stackSize + 2 ^ pageShift - 1) >>> pageShift + 2 ∧
      stackSize ≤ 1998 * 2 ^ pageShift ∧ 2 ^ pageShift < stackSize := by
  have atMostOne := @pages_le_iff pageShift stackSize 1
  have atMostMax := @pages_le_iff pageShift stackSize 1998
  rw [stackPages]
  generalize (stackSize + 2 ^ pageShift - 1) >>> pageShift = pages at *
  have twoGuards : pages + (lowGuardPages + highGuardPages) = pages + 2 := rfl
  by_cases few : pages + (lowGuardPages + highGuardPages) < minNumPagesPerStack
  · rw [if_pos few]
    rw [twoGuards, minNumPagesPerStack] at few
    exact .inl ⟨rfl, by omega⟩
  rw [if_neg few]
  rw [twoGuards, minNumPagesPerStack] at few
  by_cases many : pages + (lowGuardPages + highGuardPages) > maxNumPagesPerStack
  · rw [if_pos many]
    rw [twoGuards, maxNumPagesPerStack] at many
    exact .inr (.inl ⟨rfl, by omega⟩)
  · rw [if_neg many]
    rw [twoGuards, maxNumPagesPerStack] at many
    exact .inr (.inr ⟨rfl, by omega, by omega⟩)

/-- The pages between the guard pages are enough exactly when the upper bound on
the number of pages leaves enough of them. -/
theorem le_usablePages :
    stackSize ≤ (stackPages pageShift stackSize - 2) * 2 ^ pageShift ↔
      stackSize ≤ 1998 * 2 ^ pageShift := by
  rcases @stackPages_cases pageShift stackSize with
    ⟨pages, small⟩ | ⟨pages, large⟩ | ⟨pages, notLarge, -⟩
  · rw [pages, minNumPagesPerStack]
    omega
  · rw [pages, maxNumPagesPerStack]
  · rw [pages, Nat.add_sub_cancel, ← pages_le_iff]
    exact iff_of_true le_rfl notLarge

theorem two_le_stackPages : 2 ≤ stackPages pageShift stackSize := by
  rcases @stackPages_cases pageShift stackSize with
    ⟨pages, -⟩ | ⟨pages, -⟩ | ⟨pages, -⟩
  · rw [pages, minNumPagesPerStack]
    omega
  · rw [pages, maxNumPagesPerStack]
    omega
  · rw [pages]
    exact Nat.le_add_left 2 _

end Pages

section PageSize

variable {pageSize : BitVec 64} {pageShift : ℕ}

theorem cheetahPageShift_eq_some
    (found : cheetahPageShift pageSize = some pageShift) :
    pageSize.toNat = 2 ^ pageShift := by
  simp only [cheetahPageShift] at found
  split at found
  case isTrue accepted =>
    cases found
    exact accepted.2.symm
  case isFalse => cases found

/-- The runtime starts with every page size that is a power of two and an
`int`. -/
theorem cheetahPageShift_twoPow (k : Fin 31) :
    cheetahPageShift (BitVec.twoPow 64 k) = some k.val := by
  revert k
  decide +kernel

end PageSize

section MakeStack

variable {mmap : ℕ → Option ℕ} {memorySlow : Bool} {pageShift stackSize : ℕ}
  {stack : Stack}

/-- Everything about a stack but its size is as it should be. -/
theorem makeStack_holds_iff
    (made : makeStack mmap memorySlow pageShift stackSize = some stack) :
    stack.Holds (2 ^ pageShift) stackSize ↔
      stackSize ≤ 1998 * 2 ^ pageShift := by
  obtain ⟨allocLow, -, rfl⟩ := Option.map_eq_some_iff.mp made
  rw [← le_usablePages]
  obtain ⟨usable, isUsable⟩ := Nat.exists_eq_add_of_le
    (@two_le_stackPages pageShift stackSize)
  have size : (2 + usable) * 2 ^ pageShift =
      2 * 2 ^ pageShift + usable * 2 ^ pageShift := Nat.add_mul ..
  rw [isUsable, size, Nat.add_sub_cancel_left]
  constructor
  · intro holds
    have configured := holds.configured
    dsimp only at configured
    omega
  · intro enough
    constructor
    case guards => rfl
    case low => rfl
    case high =>
      dsimp only
      omega
    case configured =>
      dsimp only
      omega
    case filled =>
      intro range isFilled
      cases memorySlow with
      | false => cases isFilled
      | true =>
          cases isFilled
          constructor
          · exact le_rfl
          · dsimp only
            omega

end MakeStack

/-- For every page size with which the runtime starts and every size that it
accepts, a fiber has the configured size unless that takes more pages than there
may be. -/
theorem fiber_holds_stacksize (mmap : ℕ → Option ℕ) (memorySlow : Bool)
    (g configured : GlobalState) (stacksize pageShift : ℕ) (stack : Stack)
    (pageSize : BitVec 64) (booted : cheetahPageShift pageSize = some pageShift)
    (accepted : setStacksize g stacksize = some configured)
    (made : makeStack mmap memorySlow pageShift configured.stacksize =
      some stack) :
    stack.Holds pageSize.toNat stacksize ↔
      stacksize ≤ (maxNumPagesPerStack - (lowGuardPages + highGuardPages)) *
        pageSize.toNat := by
  have sameSize : configured.stacksize = stacksize := by
    simp only [setStacksize, Option.ite_none_right_eq_some] at accepted
    rw [← Option.some.inj accepted.2]
  rw [sameSize] at made
  rw [cheetahPageShift_eq_some booted]
  exact makeStack_holds_iff made

/-- The largest size fits on pages of 64 KiB. -/
theorem fiber_holds_stacksize_max :
    ∃ stack, makeStack some true 16 104857600 = some stack ∧
      (stack.Holds 65536 104857600 ↔ 104857600 ≤ 1998 * 65536) :=
  ⟨_, rfl, fiber_holds_stacksize some true ⟨false, 0⟩ ⟨false, 104857600⟩
    104857600 16 _ 65536 (by decide +kernel) (by decide) rfl⟩

/-- On pages of 4 KiB the largest size does not fit, and the fill runs into the
guard page and beyond the mapping. -/
theorem fiber_too_small :
    ¬ ∀ (pageSize : BitVec 64) (pageShift k : ℕ) (g configured : GlobalState)
      (stacksize : ℕ) (stack : Stack), 12 ≤ k → pageSize.toNat = 2 ^ k →
      cheetahPageShift pageSize = some pageShift →
      setStacksize g stacksize = some configured →
      makeStack some true pageShift configured.stacksize = some stack →
      stack.Holds pageSize.toNat stacksize := by
  intro holds
  have configured := (holds 4096 12 12 ⟨false, 0⟩ ⟨false, 104857600⟩ 104857600
    _ le_rfl rfl (by decide +kernel) (by decide) rfl).configured
  revert configured
  decide

end Multicilk.FiberStack
