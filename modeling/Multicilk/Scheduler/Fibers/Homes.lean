import Multicilk.Scheduler.Fibers.Moves

/-!
# The fiber that a closure belongs to

The fiber a closure is on is left to the first child that is stolen from it, which
gives it back.  So there is one fiber to which a closure comes back at every
sync, and it stays the same however the children return.
-/

namespace Multicilk.Scheduler

variable {core made : Core} {b b' : Fibers} {pc : ℕ → Pc} {home : ℕ → ℕ}
  {children : ℕ → List ℕ} {c cl t w x y child parent root : ℕ}

/-- Which fibers the closures have, where `home` says where they belong to. -/
structure Homed (core : Core) (b : Fibers) (home : ℕ → ℕ) : Prop where
  settled : ∀ c, (core.nodes c).Live → (core.nodes c).joinCounter = 0 →
    b.fiberChild c = none → b.fiber c = some (home c)
  saved : ∀ c x, b.fiberChild c = some x → (core.nodes c).Live ∧ x = home c
  leftmost : ∀ c p, (core.nodes c).Live → (core.nodes c).spawnParent = some p →
    (core.nodes c).leftSib = none → b.fiberChild p = none → home c = home p
  called : ∀ c p, (core.nodes c).Live → (core.nodes c).callParent = some p →
    b.fiber p = some (home c)
  aboard : ∀ c, (core.nodes c).Active → b.fiber c ≠ none

/-- A frame that waits at a sync has left its fiber. -/
def Core.Ashore (core : Core) (b : Fibers) : Prop :=
  ∀ c, (core.nodes c).status = .suspended →
    (core.nodes c).hasCilkCallee = false →
      b.fiber c = none ∧ (core.nodes c).joinCounter ≠ 0

namespace Homed

/-- The links of the closures are not changed, and their fibers are the same. -/
theorem congr (homed : Homed core b home)
    (live : ∀ c, (made.nodes c).Live ↔ (core.nodes c).Live)
    (active : ∀ c, (made.nodes c).Active → b.fiber c ≠ none)
    (counter : ∀ c, (made.nodes c).joinCounter = (core.nodes c).joinCounter)
    (spawnParent : ∀ c, (made.nodes c).spawnParent =
      (core.nodes c).spawnParent)
    (leftSib : ∀ c, (made.nodes c).leftSib = (core.nodes c).leftSib)
    (callParent : ∀ c, (made.nodes c).callParent = (core.nodes c).callParent)
    (fiber : b'.fiber = b.fiber) (fiberChild : b'.fiberChild = b.fiberChild) :
    Homed made b' home := by
  constructor
  case settled =>
    intro c isLive noChild nothing
    rw [fiber]
    exact homed.settled c ((live c).mp isLive) (counter c ▸ noChild)
      (fiberChild ▸ nothing)
  case saved =>
    intro c x isSaved
    rw [live]
    exact homed.saved c x (fiberChild ▸ isSaved)
  case leftmost =>
    intro c p isLive isParent first nothing
    exact homed.leftmost c p ((live c).mp isLive) (spawnParent c ▸ isParent)
      (leftSib c ▸ first) (fiberChild ▸ nothing)
  case called =>
    intro c p isLive isCaller
    rw [fiber]
    exact homed.called c p ((live c).mp isLive) (callParent c ▸ isCaller)
  case aboard =>
    intro c isActive
    rw [fiber]
    exact active c isActive

theorem sameFibers (homed : Homed core b home) (fiber : b'.fiber = b.fiber)
    (fiberChild : b'.fiberChild = b.fiberChild) : Homed core b' home :=
  homed.congr (fun _ => Iff.rfl) homed.aboard (fun _ => rfl) (fun _ => rfl)
    (fun _ => rfl) (fun _ => rfl) fiber fiberChild

theorem setStatus {status : ClosureStatus} (homed : Homed core b home)
    (live : (core.nodes t).Live)
    (remains : Node.Live { core.nodes t with status })
    (aboard : Node.Active { core.nodes t with status } → b.fiber t ≠ none)
    (deque : List ℕ) :
    Homed ((core.setStatus t status).setDeque w deque) b home := by
  have node (c : ℕ) : ((core.setStatus t status).setDeque w deque).nodes c =
      { core.nodes c with
        status := if c = t then status else (core.nodes c).status } :=
    Core.setStatus_nodes ..
  apply homed.congr
  case live =>
    intro c
    rw [node]
    by_cases isT : c = t
    · subst isT
      rw [if_pos rfl]
      exact iff_of_true remains live
    · rw [if_neg isT]
  case active =>
    intro c active
    rw [node] at active
    by_cases isT : c = t
    · subst isT
      rw [if_pos rfl] at active
      exact aboard active
    · rw [if_neg isT] at active
      exact homed.aboard c active
  case fiber => rfl
  case fiberChild => rfl
  all_goals
    intro c
    rw [node]

/-- The closure goes on on the fiber that a child has left to it. -/
theorem sync (homed : Homed core b home) (noChild : ∀ c, (core.nodes c).Live →
      (core.nodes c).spawnParent ≠ some t)
    (noCallee : ∀ c, (core.nodes c).Live → (core.nodes c).callParent ≠ some t)
    (isSaved : b.fiberChild t ≠ none) : Homed core (b.sync w t) home := by
  have fiber (c : ℕ) : (b.sync w t).fiber c =
      if c = t then b.fiberChild t else b.fiber c := Function.update_apply ..
  obtain ⟨x, isX⟩ := Option.ne_none_iff_exists'.mp isSaved
  constructor
  case settled =>
    intro c live counter nothing
    rw [Fibers.sync_fiberChild] at nothing
    rw [fiber]
    split
    case isTrue isT =>
      rw [isX, isT, (homed.saved t x isX).2]
    case isFalse notT =>
      rw [if_neg notT] at nothing
      exact homed.settled c live counter nothing
  case saved =>
    intro c y isSavedThere
    rw [Fibers.sync_fiberChild] at isSavedThere
    split at isSavedThere
    · cases isSavedThere
    · exact homed.saved c y isSavedThere
  case leftmost =>
    intro c p live isParent first nothing
    rw [Fibers.sync_fiberChild, if_neg] at nothing
    · exact homed.leftmost c p live isParent first nothing
    · rintro rfl
      exact noChild c live isParent
  case called =>
    intro c p live isCaller
    rw [fiber, if_neg]
    · exact homed.called c p live isCaller
    · rintro rfl
      exact noCallee c live isCaller
  case aboard =>
    intro c active
    rw [fiber]
    split
    · exact isSaved
    · exact homed.aboard c active

/-- The closure waits for its children, and its fiber is left. -/
theorem wait (homed : Homed core b home) (placed : Placed core pc)
    (has : t ∈ core.carried pc w) (hasChild : (core.nodes t).joinCounter ≠ 0)
    (deque : List ℕ) :
    Homed ((core.setStatus t .suspended).setDeque w deque) (b.wait w t)
      home := by
  have live := (placed.active has).live
  have fiber (c : ℕ) : (b.wait w t).fiber c =
      if c = t then none else b.fiber c := Function.update_apply ..
  have node (c : ℕ) : ((core.setStatus t .suspended).setDeque w deque).nodes c =
      { core.nodes c with
        status := if c = t then .suspended else (core.nodes c).status } :=
    Core.setStatus_nodes ..
  have liveBefore (c : ℕ) (isLive : (((core.setStatus t .suspended).setDeque w
      deque).nodes c).Live) : (core.nodes c).Live := by
    rw [node] at isLive
    by_cases isT : c = t
    · exact isT ▸ live
    · rwa [if_neg isT] at isLive
  constructor
  case settled =>
    intro c isLive counter nothing
    have before := liveBefore c isLive
    rw [node] at counter
    rw [fiber, if_neg]
    · exact homed.settled c before counter nothing
    · rintro rfl
      exact hasChild counter
  case saved =>
    intro c y isSaved
    obtain ⟨isLive, isHome⟩ := homed.saved c y isSaved
    refine ⟨?_, isHome⟩
    rw [node]
    by_cases isT : c = t
    · rw [if_pos isT]
      simp [Node.Live]
    · rwa [if_neg isT]
  case leftmost =>
    intro c p isLive isParent first nothing
    have before := liveBefore c isLive
    rw [node] at isParent first
    exact homed.leftmost c p before isParent first nothing
  case called =>
    intro c p isLive isCaller
    have before := liveBefore c isLive
    rw [node] at isCaller
    rw [fiber, if_neg]
    · exact homed.called c p before isCaller
    · rintro rfl
      exact placed.not_carried (placed.caller c p before isCaller).1 has
  case aboard =>
    intro c active
    rw [node] at active
    rw [fiber]
    by_cases isT : c = t
    · rw [if_pos isT] at active
      exact absurd rfl active.not_suspended
    · rw [if_neg isT] at active ⊢
      exact homed.aboard c active

/-- The caller is on the fiber that the callee has come back to. -/
theorem setReturn {caller : ℕ} (homed : Homed core b home)
    (placed : Placed core pc) (has : t ∈ core.carried pc w)
    (isCaller : (core.nodes t).callParent = some caller)
    (nothing : b.fiberChild t = none) :
    Homed (core.setReturn w t caller) (b.setFiber t none) home := by
  have live := (placed.active has).live
  obtain ⟨suspended, -⟩ := placed.caller t caller live isCaller
  have callerLive : (core.nodes caller).Live := by simp [Node.Live, suspended]
  have different : t ≠ caller := by
    rintro rfl
    exact placed.not_carried suspended has
  have fiber (c : ℕ) (other : c ≠ t) : (b.setFiber t none).fiber c =
      b.fiber c := Function.update_of_ne other ..
  have node (c : ℕ) (other : c ≠ t) : ∃ status hasCilkCallee callee,
      (core.setReturn w t caller).nodes c =
        { core.nodes c with status, hasCilkCallee, callee } ∧
      ((core.setReturn w t caller).nodes c).Active =
        (c = caller ∨ (core.nodes c).Active) := by
    simp only [Core.setReturn]
    by_cases isHere : c = caller
    · rw [if_pos isHere]
      exact ⟨_, _, _, rfl, by simp [Node.Active, isHere]⟩
    · rw [if_neg isHere, if_neg other]
      exact ⟨_, _, _, rfl, by simp [isHere]⟩
  have isLive (c : ℕ) : ((core.setReturn w t caller).nodes c).Live ↔
      c ≠ t ∧ (core.nodes c).Live := by
    simp only [Core.setReturn]
    by_cases isHere : c = caller
    · rw [if_pos isHere, isHere]
      simp [Node.Live, different.symm, suspended]
    · rw [if_neg isHere]
      by_cases isT : c = t
      · simp [Node.Live, isT]
      · simp [isT]
  constructor
  case settled =>
    intro c liveThere counter empty
    obtain ⟨other, before⟩ := (isLive c).mp liveThere
    obtain ⟨_, _, _, isNode, -⟩ := node c other
    rw [isNode] at counter
    rw [fiber c other]
    exact homed.settled c before counter empty
  case saved =>
    intro c y isSaved
    obtain ⟨before, isHome⟩ := homed.saved c y isSaved
    refine ⟨(isLive c).mpr ⟨?_, before⟩, isHome⟩
    rintro rfl
    exact absurd (nothing.symm.trans isSaved).symm (Option.some_ne_none y)
  case leftmost =>
    intro c p liveThere isParent first empty
    obtain ⟨other, before⟩ := (isLive c).mp liveThere
    obtain ⟨_, _, _, isNode, -⟩ := node c other
    rw [isNode] at isParent first
    exact homed.leftmost c p before isParent first empty
  case called =>
    intro c p liveThere isCallee
    obtain ⟨other, before⟩ := (isLive c).mp liveThere
    obtain ⟨_, _, _, isNode, -⟩ := node c other
    rw [isNode] at isCallee
    rw [fiber]
    · exact homed.called c p before isCallee
    · rintro rfl
      exact placed.not_carried (placed.caller c p before isCallee).1 has
  case aboard =>
    intro c active
    have other : c ≠ t := ((isLive c).mp active.live).1
    obtain ⟨_, _, _, -, isActive⟩ := node c other
    rw [isActive] at active
    rw [fiber c other]
    rcases active with rfl | active
    · rw [homed.called t c live isCaller]
      exact Option.some_ne_none _
    · exact homed.aboard c active

section Steals

/-- The new closure is on the fiber of the closure it has been stolen from. -/
theorem steal (homed : Homed core b home) (placed : Placed core pc)
    (offspring : core.Offspring root children)
    (running : (core.nodes cl).status = .running)
    (isFiber : b.fiber cl = some y) (deque : List ℕ) :
    Homed ((core.addChild cl).setDeque w deque) (b.steal cl core.created x)
      (Function.update home core.created y) := by
  have clLive : (core.nodes cl).Live := by simp [Node.Live, running]
  have allocated := placed.allocated clLive
  have old (c : ℕ) (live : (core.nodes c).Live) : c ≠ core.created :=
    (placed.allocated live).ne
  have isLive (c : ℕ) : (((core.addChild cl).setDeque w deque).nodes c).Live ↔
      c = core.created ∨ (core.nodes c).Live :=
    Core.addChild_live allocated.ne c
  have sameHome (c : ℕ) (other : c ≠ core.created) :
      Function.update home core.created y c = home c :=
    Function.update_of_ne other ..
  have newHome : Function.update home core.created y core.created = y :=
    Function.update_self ..
  have fiber (c : ℕ) : (b.steal cl core.created x).fiber c =
      if c = cl then some x else if c = core.created then some y
      else b.fiber c := by
    simp only [Fibers.steal, Fibers.setFiber, Fibers.setFiberChild, Fibers.take,
      Function.update_apply, isFiber]
  have fiberChild (c : ℕ) : (b.steal cl core.created x).fiberChild c =
      if c = core.created then none else b.fiberChild c :=
    Function.update_apply ..
  have new : ((core.addChild cl).setDeque w deque).nodes core.created = {
      status := .running, spawnParent := some cl
      leftSib := (core.nodes cl).rightMostChild } := if_pos rfl
  have node (c : ℕ) (other : c ≠ core.created) :
      ((core.addChild cl).setDeque w deque).nodes c = { core.nodes c with
        rightMostChild := (((core.addChild cl).setDeque w deque).nodes
          c).rightMostChild
        rightSib := (((core.addChild cl).setDeque w deque).nodes c).rightSib
        joinCounter := if c = cl then (core.nodes c).joinCounter + 1
          else (core.nodes c).joinCounter } := by
    simp only [Core.setDeque, Core.addChild, if_neg other]
    by_cases isCl : c = cl
    · simp [isCl]
    · rw [if_neg isCl, if_neg isCl]
      split <;> rfl
  constructor
  case settled =>
    intro c live counter nothing
    rcases (isLive c).mp live with rfl | before
    · rw [fiber, if_neg allocated.ne', if_pos rfl, newHome]
    · rw [node c (old c before)] at counter
      rw [fiberChild, if_neg (old c before)] at nothing
      split at counter
      · cases counter
      case isFalse notCl =>
        rw [fiber, if_neg notCl, if_neg (old c before), sameHome c (old c before)]
        exact homed.settled c before counter nothing
  case saved =>
    intro c z isSaved
    rw [fiberChild] at isSaved
    split at isSaved
    · cases isSaved
    case isFalse isOld =>
      obtain ⟨before, isHome⟩ := homed.saved c z isSaved
      rw [sameHome c isOld]
      exact ⟨(isLive c).mpr (.inr before), isHome⟩
  case leftmost =>
    intro c p live isParent first nothing
    rcases (isLive c).mp live with rfl | before
    · rw [new] at isParent first
      cases isParent
      -- The closure had no outstanding children.
      have noChild : (core.nodes cl).joinCounter = 0 := by
        have rightMost := offspring.siblings.rightMost cl
        rw [offspring.siblings.counter, List.length_eq_zero_iff]
        exact List.getLast?_eq_none_iff.mp (rightMost.symm.trans first)
      rw [fiberChild, if_neg allocated.ne] at nothing
      have atHome := homed.settled cl clLive noChild nothing
      rw [isFiber, Option.some.injEq] at atHome
      rw [newHome, sameHome cl allocated.ne, atHome]
    · have isOld := old c before
      rw [node c isOld] at isParent first
      have isOldParent : p ≠ core.created := by
        have older := placed.kin.parent c p isParent
        have := placed.allocated before
        omega
      rw [fiberChild, if_neg isOldParent] at nothing
      rw [sameHome c isOld, sameHome p isOldParent]
      exact homed.leftmost c p before isParent first nothing
  case called =>
    intro c p live isCaller
    rcases (isLive c).mp live with rfl | before
    · rw [new] at isCaller
      cases isCaller
    · have isOld := old c before
      rw [node c isOld] at isCaller
      have suspended := (placed.caller c p before isCaller).1
      have notCl : p ≠ cl := by
        rintro rfl
        rw [running] at suspended
        cases suspended
      rw [fiber, if_neg notCl, if_neg (old p (by simp [Node.Live, suspended])),
        sameHome c isOld]
      exact homed.called c p before isCaller
  case aboard =>
    intro c active
    rw [fiber]
    by_cases isCl : c = cl
    · rw [if_pos isCl]
      exact Option.some_ne_none x
    · rw [if_neg isCl]
      by_cases isNew : c = core.created
      · rw [if_pos isNew]
        exact Option.some_ne_none y
      · rw [if_neg isNew]
        rw [node c isNew] at active
        exact homed.aboard c active

/-- The frame that goes on had no closure, and the one of its caller stays on the
same fiber. -/
theorem stealCallee (homed : Homed core b home) (placed : Placed core pc)
    (running : (core.nodes cl).status = .running)
    (isFiber : b.fiber cl = some y) (deque : List ℕ) :
    Homed (((core.addTempCallee cl).addChild core.created).setDeque w deque)
      (b.stealCallee cl core.created (core.created + 1) x)
      (Function.update (Function.update home core.created y)
        (core.created + 1) y) := by
  have clLive : (core.nodes cl).Live := by simp [Node.Live, running]
  have allocated := placed.allocated clLive
  have old (c : ℕ) (live : (core.nodes c).Live) :
      c ≠ core.created ∧ c ≠ core.created + 1 := by
    have := placed.allocated live
    omega
  have isLive (c : ℕ) : ((((core.addTempCallee cl).addChild
      core.created).setDeque w deque).nodes c).Live ↔
        c = core.created + 1 ∨ c = core.created ∨ (core.nodes c).Live := by
    refine (Core.addChild_live (Nat.lt_succ_self _).ne c).trans ?_
    rw [Core.addTempCallee_live clLive]
    exact Iff.rfl
  obtain ⟨home', isHome⟩ : ∃ home', home' = Function.update
    (Function.update home core.created y) (core.created + 1) y := ⟨_, rfl⟩
  have sameHome (c : ℕ) (notRes : c ≠ core.created)
      (notChild : c ≠ core.created + 1) : home' c = home c := by
    rw [isHome, Function.update_of_ne notChild, Function.update_of_ne notRes]
  have childHome : home' (core.created + 1) = y := by
    rw [isHome, Function.update_self]
  have resHome : home' core.created = y := by
    rw [isHome, Function.update_of_ne (Nat.lt_succ_self _).ne,
      Function.update_self]
  have fiber (c : ℕ) : (b.stealCallee cl core.created (core.created + 1)
      x).fiber c = if c = core.created then some x
        else if c = core.created + 1 then some y else b.fiber c := by
    simp only [Fibers.stealCallee, Fibers.setFiber, Fibers.setFiberChild,
      Fibers.take, Function.update_apply, isFiber]
  have fiberChild (c : ℕ) : (b.stealCallee cl core.created (core.created + 1)
      x).fiberChild c = if c = core.created + 1 then none
        else if c = core.created then none else b.fiberChild c := by
    simp only [Fibers.stealCallee, Fibers.setFiber, Fibers.setFiberChild,
      Fibers.take, Function.update_apply]
  have child : (((core.addTempCallee cl).addChild core.created).setDeque w
      deque).nodes (core.created + 1) = {
        status := .running, spawnParent := some core.created } := by
    simp [Core.setDeque, Core.addChild, Core.addTempCallee]
  have res : (((core.addTempCallee cl).addChild core.created).setDeque w
      deque).nodes core.created = {
        status := .running, callParent := some cl, joinCounter := 1
        rightMostChild := some (core.created + 1) } := by
    simp [Core.setDeque, Core.addChild, Core.addTempCallee]
  have node (c : ℕ) (notRes : c ≠ core.created)
      (notChild : c ≠ core.created + 1) : ∃ status hasCilkCallee,
        (((core.addTempCallee cl).addChild core.created).setDeque w
          deque).nodes c = { core.nodes c with status, hasCilkCallee } ∧
        (c = cl → status = .suspended) ∧
        (c ≠ cl → status = (core.nodes c).status) := by
    by_cases isCl : c = cl
    · refine ⟨.suspended, true, ?_, fun _ => rfl, fun notCl => absurd isCl notCl⟩
      simp [Core.setDeque, Core.addChild, Core.addTempCallee, isCl,
        allocated.ne, (allocated.trans (Nat.lt_succ_self _)).ne]
    · refine ⟨(core.nodes c).status, (core.nodes c).hasCilkCallee, ?_,
        fun same => absurd same isCl, fun _ => rfl⟩
      simp [Core.setDeque, Core.addChild, Core.addTempCallee, notRes, notChild,
        isCl]
  rw [← isHome]
  constructor
  case settled =>
    intro c live counter nothing
    rcases (isLive c).mp live with rfl | rfl | before
    · rw [fiber, if_neg (Nat.lt_succ_self _).ne', if_pos rfl, childHome]
    · rw [res] at counter
      cases counter
    · obtain ⟨notRes, notChild⟩ := old c before
      obtain ⟨_, _, isNode, -, -⟩ := node c notRes notChild
      rw [isNode] at counter
      rw [fiberChild, if_neg notChild, if_neg notRes] at nothing
      rw [fiber, if_neg notRes, if_neg notChild, sameHome c notRes notChild]
      exact homed.settled c before counter nothing
  case saved =>
    intro c z isSaved
    rw [fiberChild] at isSaved
    split at isSaved
    · cases isSaved
    case isFalse notChild =>
      split at isSaved
      · cases isSaved
      case isFalse notRes =>
        obtain ⟨before, isHomeThere⟩ := homed.saved c z isSaved
        rw [sameHome c notRes notChild]
        exact ⟨(isLive c).mpr (.inr (.inr before)), isHomeThere⟩
  case leftmost =>
    intro c p live isParent first nothing
    rcases (isLive c).mp live with rfl | rfl | before
    · rw [child] at isParent
      cases isParent
      rw [childHome, resHome]
    · rw [res] at isParent
      cases isParent
    · obtain ⟨notRes, notChild⟩ := old c before
      obtain ⟨_, _, isNode, -, -⟩ := node c notRes notChild
      rw [isNode] at isParent first
      have older := placed.kin.parent c p isParent
      have isOld := placed.allocated before
      have notRes' : p ≠ core.created := by omega
      have notChild' : p ≠ core.created + 1 := by omega
      rw [fiberChild, if_neg notChild', if_neg notRes'] at nothing
      rw [sameHome c notRes notChild, sameHome p notRes' notChild']
      exact homed.leftmost c p before isParent first nothing
  case called =>
    intro c p live isCaller
    have onOldFiber (p : ℕ) (live : (core.nodes p).Live) :
        (b.stealCallee cl core.created (core.created + 1) x).fiber p =
          b.fiber p := by
      rw [fiber, if_neg (old p live).1, if_neg (old p live).2]
    rcases (isLive c).mp live with rfl | rfl | before
    · rw [child] at isCaller
      cases isCaller
    · rw [res] at isCaller
      cases isCaller
      rw [onOldFiber cl clLive, resHome, isFiber]
    · obtain ⟨notRes, notChild⟩ := old c before
      obtain ⟨_, _, isNode, -, -⟩ := node c notRes notChild
      rw [isNode] at isCaller
      have suspended := (placed.caller c p before isCaller).1
      rw [onOldFiber p (by simp [Node.Live, suspended]),
        sameHome c notRes notChild]
      exact homed.called c p before isCaller
  case aboard =>
    intro c active
    rw [fiber]
    by_cases isRes : c = core.created
    · rw [if_pos isRes]
      exact Option.some_ne_none x
    · rw [if_neg isRes]
      by_cases isChild : c = core.created + 1
      · rw [if_pos isChild]
        exact Option.some_ne_none y
      · rw [if_neg isChild]
        obtain ⟨status, hasCilkCallee, isNode, atCl, notAtCl⟩ :=
          node c isRes isChild
        rw [isNode] at active
        apply homed.aboard c
        by_cases isCl : c = cl
        · exact absurd (atCl isCl) active.not_suspended
        · rw [notAtCl isCl] at active
          exact active

end Steals

/-- The frames between are on the fiber of their caller. -/
theorem promote {res : ℕ} {closures : List ℕ} (homed : Homed core b home)
    (placed : Placed core pc) (has : res ∈ core.carried pc w)
    (isCaller : (core.nodes res).callParent = some cl)
    (chain : core.Chained made cl res closures) :
    Homed made (b.promote cl closures)
      fun c => if c ∈ closures then home res else home c := by
  have active := placed.active has
  have suspended := (placed.caller res cl active.live isCaller).1
  have isFiber := homed.called res cl active.live isCaller
  have isLive (c : ℕ) := chain.live (c := c) active.live
  have fresh (c : ℕ) (live : (core.nodes c).Live) : c ∉ closures := fun member =>
    absurd (placed.allocated live) (not_lt.mpr (chain.fresh c member).1)
  have node (c : ℕ) (notBetween : c ∉ closures) :
      ∃ status callee callParent hasCilkCallee, made.nodes c =
        { core.nodes c with status, callee, callParent, hasCilkCallee } ∧
      (c ≠ res → callParent = (core.nodes c).callParent) ∧
      (Node.Active { core.nodes c with status } → (core.nodes c).Active) := by
    by_cases isCl : c = cl
    · obtain ⟨callee, older⟩ := chain.older
      rw [isCl]
      exact ⟨_, _, _, _, older, fun _ => rfl, id⟩
    · by_cases isRes : c = res
      · obtain ⟨callParent, younger⟩ := chain.younger
        rw [isRes]
        exact ⟨_, _, _, _, younger, fun notRes => absurd rfl notRes,
          fun _ => active⟩
      · rw [chain.kept c notBetween isCl isRes]
        exact ⟨_, _, _, _, rfl, fun _ => rfl, id⟩
  have fiber (c : ℕ) : (b.promote cl closures).fiber c =
      if c ∈ closures then some (home res) else b.fiber c := by
    rw [← isFiber]
    rfl
  have fiberChild (c : ℕ) : (b.promote cl closures).fiberChild c =
      if c ∈ closures then none else b.fiberChild c := rfl
  constructor
  case settled =>
    intro c live counter nothing
    rw [fiber]
    rcases (isLive c).mp live with between | before
    · rw [if_pos between, if_pos between]
    · have notBetween := fresh c before
      obtain ⟨_, _, _, _, isNode, -⟩ := node c notBetween
      rw [isNode] at counter
      rw [fiberChild, if_neg notBetween] at nothing
      rw [if_neg notBetween, if_neg notBetween]
      exact homed.settled c before counter nothing
  case saved =>
    intro c z isSaved
    rw [fiberChild] at isSaved
    split at isSaved
    · cases isSaved
    case isFalse notBetween =>
      obtain ⟨before, isHome⟩ := homed.saved c z isSaved
      rw [if_neg notBetween]
      exact ⟨(isLive c).mpr (.inr before), isHome⟩
  case leftmost =>
    intro c p live isParent first nothing
    rcases (isLive c).mp live with between | before
    · obtain ⟨_, _, isNode⟩ := chain.between c between
      rw [isNode] at isParent
      cases isParent
    · have notBetween := fresh c before
      obtain ⟨_, _, _, _, isNode, -⟩ := node c notBetween
      rw [isNode] at isParent first
      have notBetween' : p ∉ closures := by
        intro member
        have older := placed.kin.parent c p isParent
        have := placed.allocated before
        have := (chain.fresh p member).1
        omega
      rw [fiberChild, if_neg notBetween'] at nothing
      rw [if_neg notBetween, if_neg notBetween']
      exact homed.leftmost c p before isParent first nothing
  case called =>
    intro c p live isCallee
    obtain ⟨linked, next, isNext, isNextCaller⟩ := chain.links
    have inChain (p : ℕ) (member : p ∈ closures ++ [cl]) :
        (b.promote cl closures).fiber p = some (home res) := by
      rw [fiber]
      split
      · rfl
      case isFalse notBetween =>
        have isCl := (List.mem_append.mp member).resolve_left notBetween
        rw [List.mem_singleton.mp isCl, isFiber]
    rcases (isLive c).mp live with between | before
    · obtain ⟨q, isHere, isQ⟩ := linked.caller between
      rw [isQ, Option.some.injEq] at isCallee
      rw [if_pos between, ← isCallee]
      exact inChain q isHere
    · have notBetween := fresh c before
      rw [if_neg notBetween]
      by_cases isRes : c = res
      · rw [isRes, isNextCaller, Option.some.injEq] at isCallee
        rw [isRes, ← isCallee]
        exact inChain next isNext
      · obtain ⟨_, _, _, _, isNode, same, -⟩ := node c notBetween
        rw [isNode] at isCallee
        have before' := (same isRes).symm.trans isCallee
        have onFiber := homed.called c p before before'
        have suspended := (placed.caller c p before before').1
        rw [fiber, if_neg (fresh p (by simp [Node.Live, suspended]))]
        exact onFiber
  case aboard =>
    intro c activeThere
    rw [fiber]
    split
    · exact Option.some_ne_none _
    case isFalse notBetween =>
      obtain ⟨_, _, _, _, isNode, -, isActive⟩ := node c notBetween
      rw [isNode] at activeThere
      exact homed.aboard c (isActive activeThere)

section Returns

variable (homed : Homed core b home) (placed : Placed core pc)
  (offspring : core.Offspring root children) (has : child ∈ core.carried pc w)
  (isParent : (core.nodes child).spawnParent = some parent)

include homed placed offspring has isParent

omit offspring in
/-- The parent has the fiber of its first child when that has returned. -/
theorem leave_fiberChild (noChild : (core.nodes child).joinCounter = 0)
    (nothing : b.fiberChild child = none) (c : ℕ) :
    ((b.leave parent child (core.leavesFiber b parent child)).fiberChild c =
        b.fiberChild c ∨
      c = parent ∧ (b.leave parent child
        (core.leavesFiber b parent child)).fiberChild c = some (home parent)) ∧
    ((core.nodes child).leftSib = none → (b.leave parent child
      (core.leavesFiber b parent child)).fiberChild parent ≠ none) := by
  have live := (placed.active has).live
  have isFiber := homed.settled child live noChild nothing
  have leaves : core.leavesFiber b parent child = true ↔
      (core.nodes child).leftSib = none ∧ b.fiberChild parent = none := by
    simp [Core.leavesFiber]
  simp only [Fibers.leave_fiberChild, leaves]
  constructor
  · split
    case isTrue isFirst =>
      obtain ⟨isHere, isFirst, empty⟩ := isFirst
      rw [isFiber, homed.leftmost child parent live isParent isFirst empty]
      exact .inr ⟨isHere, rfl⟩
    case isFalse => exact .inl rfl
  · intro isFirst
    split
    · rw [isFiber]
      exact Option.some_ne_none _
    case isFalse notFirst => exact fun empty => notFirst ⟨trivial, isFirst, empty⟩

theorem removeChild (noChild : (core.nodes child).joinCounter = 0)
    (nothing : b.fiberChild child = none) :
    Homed (core.removeChild parent child)
      (b.leave parent child (core.leavesFiber b parent child)) home ∧
    (((core.removeChild parent child).nodes parent).joinCounter = 0 →
      (b.leave parent child (core.leavesFiber b parent child)).fiberChild
        parent ≠ none) := by
  obtain ⟨b', isMade⟩ : ∃ b', b' =
    b.leave parent child (core.leavesFiber b parent child) := ⟨_, rfl⟩
  have live := (placed.active has).live
  have saved (c : ℕ) := (homed.leave_fiberChild placed has isParent
    noChild nothing c).1
  have left := (homed.leave_fiberChild placed has isParent noChild
    nothing parent).2
  rw [← isMade] at saved left ⊢
  have fiber (c : ℕ) (other : c ≠ child) : b'.fiber c = b.fiber c := by
    rw [isMade]
    exact Fibers.leave_fiber b parent child _ other
  have node (c : ℕ) (other : c ≠ child) : ∃ leftSib rightSib rightMostChild,
      (core.removeChild parent child).nodes c = { core.nodes c with
        leftSib, rightSib, rightMostChild
        joinCounter := if c = parent then (core.nodes c).joinCounter - 1
          else (core.nodes c).joinCounter } ∧
      (leftSib = none → (core.nodes c).leftSib = none ∨
        (core.nodes c).spawnParent = some parent ∧
          (core.nodes child).leftSib = none) := by
    simp only [Core.removeChild, Core.unlinkChild, if_neg other]
    refine ⟨_, _, _, rfl, fun isFirst => ?_⟩
    split at isFirst
    case isTrue isRight =>
      rw [(placed.kin.right child c isRight).2]
      exact .inr ⟨isParent, isFirst⟩
    case isFalse => exact .inl isFirst
  have isLive (c : ℕ) : ((core.removeChild parent child).nodes c).Live ↔
      c ≠ child ∧ (core.nodes c).Live := by
    by_cases isRemoved : c = child <;>
      simp [Core.removeChild, Node.Live, isRemoved]
  -- The parent waits for another child, or it has the fiber of this one.
  have parted : ((core.removeChild parent child).nodes parent).joinCounter = 0 →
      b'.fiberChild parent ≠ none := by
    intro counter
    apply left
    cases isLeft : (core.nodes child).leftSib with
    | none => rfl
    | some sibling =>
        exact absurd counter (offspring.counter_of_left live isParent isLeft)
  refine ⟨?_, parted⟩
  constructor
  case settled =>
    intro c liveThere counter empty
    obtain ⟨other, before⟩ := (isLive c).mp liveThere
    have notParent : c ≠ parent := by
      rintro rfl
      exact parted counter empty
    obtain ⟨_, _, _, isNode, -⟩ := node c other
    rw [isNode] at counter
    simp only [if_neg notParent] at counter
    rcases saved c with same | ⟨isHere, -⟩
    · rw [fiber c other]
      exact homed.settled c before counter (same.symm.trans empty)
    · exact absurd isHere notParent
  case saved =>
    intro c z isSaved
    rcases saved c with same | ⟨rfl, atHome⟩
    · obtain ⟨before, isHome⟩ := homed.saved c z (same.symm.trans isSaved)
      refine ⟨(isLive c).mpr ⟨?_, before⟩, isHome⟩
      rintro rfl
      exact Option.some_ne_none z
        (isSaved.symm.trans (same.trans nothing))
    · have isChild := (offspring.spawned c child).mpr ⟨live, isParent⟩
      refine ⟨(isLive c).mpr ⟨?_, ?_⟩, ?_⟩
      · exact (Nat.ne_of_gt (placed.kin.parent child c isParent)).symm
      · by_contra dead
        rw [offspring.dead c dead] at isChild
        cases isChild
      · exact Option.some.inj (isSaved.symm.trans atHome)
  case leftmost =>
    intro c p liveThere isParentThere first empty
    obtain ⟨other, before⟩ := (isLive c).mp liveThere
    obtain ⟨_, _, _, isNode, leftmost⟩ := node c other
    rw [isNode] at isParentThere first
    have same : b.fiberChild p = none := by
      rcases saved p with same | ⟨-, atHome⟩
      · exact same.symm.trans empty
      · exact absurd (atHome.symm.trans empty) (Option.some_ne_none _)
    rcases leftmost first with first | ⟨isHere, isFirst⟩
    · exact homed.leftmost c p before isParentThere first same
    · cases isHere.symm.trans isParentThere
      exact absurd empty (left isFirst)
  case called =>
    intro c p liveThere isCaller
    obtain ⟨other, before⟩ := (isLive c).mp liveThere
    obtain ⟨_, _, _, isNode, -⟩ := node c other
    rw [isNode] at isCaller
    rw [fiber]
    · exact homed.called c p before isCaller
    · rintro rfl
      exact placed.not_carried (placed.caller c p before isCaller).1 has
  case aboard =>
    intro c active
    have other := ((isLive c).mp active.live).1
    obtain ⟨_, _, _, isNode, -⟩ := node c other
    rw [isNode] at active
    rw [fiber c other]
    exact homed.aboard c active

end Returns

end Homed

section Steps

variable {action : Action}

theorem FiberMove.homed (move : FiberMove core b pc action made b')
    (placed : Placed core pc) (offspring : core.Offspring root children)
    (homed : Homed core b home) :
    ∃ home', Homed made b' home' ∧ ∀ c, c < core.created → home' c = home c := by
  have noChild (t : ℕ) (counter : (core.nodes t).joinCounter = 0) (c : ℕ)
      (live : (core.nodes c).Live) : (core.nodes c).spawnParent ≠ some t :=
    fun isParent => offspring.siblings.counter_ne_zero
      ((offspring.spawned t c).mpr ⟨live, isParent⟩) counter
  have same (homed' : Homed made b' home) : ∃ home', Homed made b' home' ∧
      ∀ c, c < core.created → home' c = home c :=
    ⟨home, homed', fun _ _ => rfl⟩
  have free (w : ℕ) : Homed core (b.free w) home :=
    homed.sameFibers (b.free_fiber w) (b.free_fiberChild w)
  cases move with
  | still => exact same homed
  | @own _ w t status deque has active =>
      exact same (homed.setStatus (placed.active has).live active.live
        (fun _ => homed.aboard t (placed.active has)) deque)
  | @syncPass w t has counter parted =>
      apply same
      apply (free w).sync (noChild t counter)
      · intro c live isCaller
        exact placed.not_carried (placed.caller c t live isCaller).1 has
      · rwa [b.free_fiberChild]
  | @syncWait w t deque has hasChild =>
      exact same ((free w).wait placed has hasChild deque)
  | @setReturn w t caller has isCaller counter nothing =>
      exact same (homed.setReturn placed has isCaller nothing)
  | @freeFiber w => exact same (free w)
  | @stealItself w v cl x deque member running =>
      have live : (core.nodes cl).Live := by simp [Node.Live, running]
      obtain ⟨y, isFiber⟩ :=
        Option.ne_none_iff_exists'.mp (homed.aboard cl (.inl running))
      exact ⟨_, homed.steal placed offspring running isFiber deque,
        fun c isOld => Function.update_of_ne isOld.ne ..⟩
  | @stealCallee w v cl x deque member running =>
      obtain ⟨y, isFiber⟩ :=
        Option.ne_none_iff_exists'.mp (homed.aboard cl (.inl running))
      refine ⟨_, homed.stealCallee placed running isFiber deque,
        fun c isOld => ?_⟩
      rw [Function.update_of_ne (isOld.trans (Nat.lt_succ_self _)).ne,
        Function.update_of_ne isOld.ne]
  | @promote w cl res closures made has isCaller chain =>
      refine ⟨_, homed.promote placed has isCaller chain, fun c isOld => ?_⟩
      exact if_neg fun between =>
        absurd isOld (not_lt.mpr (chain.fresh c between).1)
  | @removeChild w child parent has isParent counter nothing =>
      exact same (homed.removeChild placed offspring has isParent counter
        nothing).1
  | @resume w child parent has isParent counter nothing childless suspended =>
      obtain ⟨removed, parted⟩ := homed.removeChild placed offspring has isParent
        counter nothing
      obtain ⟨noCallee, isLast⟩ := Bool.or_eq_false_iff.mp childless
      rw [bne_eq_false_iff_eq] at isLast
      have different : parent ≠ child := by
        rintro rfl
        exact placed.not_carried suspended has
      have isLive (c : ℕ) (live : ((core.removeChild parent child).nodes c).Live) :
          (core.nodes c).Live := by
        by_cases isRemoved : c = child
        · simp [Core.removeChild, Node.Live, isRemoved] at live
        · simpa [Core.removeChild, Node.Live, isRemoved] using live
      have live : ((core.removeChild parent child).nodes parent).Live := by
        simp [Core.removeChild, Node.Live, different, suspended]
      have offspring' := offspring.removeChild (placed.active has).live isParent
        counter
      have synced := removed.sync (w := w) (t := parent)
        (fun c live isChild => offspring'.siblings.counter_ne_zero
          ((offspring'.spawned parent c).mpr ⟨live, isChild⟩) isLast)
        (fun c live isCallee => by
          have hasCallee := (placed.caller c parent (isLive c live) isCallee).2
          exact absurd (hasCallee.symm.trans noCallee) Bool.noConfusion)
        (parted isLast)
      have readied := synced.setStatus (w := w) live
        (show Node.Live { (core.removeChild parent child).nodes parent with
          status := .ready } by simp [Node.Live])
        (fun _ => ?_) (core.deques w)
      · exact same (Core.setDeque_self (((core.removeChild parent
          child).setStatus parent .ready)) w ▸ readied)
      · exact (Function.update_self ..).trans_ne (parted isLast)
  | mapFiber => exact same (homed.sameFibers rfl rfl)
  | unmapFiber => exact same (homed.sameFibers rfl rfl)

theorem FiberMove.ashore (move : FiberMove core b pc action made b')
    (placed : Placed core pc) (ashore : core.Ashore b) : made.Ashore b' := by
  intro c suspended noCallee
  have here (status : (core.nodes c).status = .suspended)
      (noCallee : (core.nodes c).hasCilkCallee = false)
      (fiber : b'.fiber c = b.fiber c)
      (counter : (made.nodes c).joinCounter = (core.nodes c).joinCounter) :
      b'.fiber c = none ∧ (made.nodes c).joinCounter ≠ 0 := by
    rw [fiber, counter]
    exact ashore c status noCallee
  have free (w : ℕ) := congrFun (b.free_fiber w) c
  cases move with
  | still | mapFiber | unmapFiber => exact here suspended noCallee rfl rfl
  | @own _ w t status deque has active =>
      have node := Core.setStatus_nodes (c := t) (d := c) core status
      have isNode : ((core.setStatus t status).setDeque w deque).nodes c = _ :=
        node
      rw [isNode] at suspended noCallee
      by_cases isT : c = t
      · rw [if_pos isT] at suspended
        exact absurd suspended active.not_suspended
      · rw [if_neg isT] at suspended
        exact here suspended noCallee rfl (by rw [isNode])
  | @syncPass w t has counter parted =>
      have notT : c ≠ t := by
        rintro rfl
        exact placed.not_carried suspended has
      exact here suspended noCallee
        ((Function.update_of_ne notT ..).trans (free w)) rfl
  | @syncWait w t deque has hasChild =>
      have isNode : ((core.setStatus t .suspended).setDeque w deque).nodes c =
        _ := Core.setStatus_nodes (c := t) (d := c) core .suspended
      by_cases isT : c = t
      · rw [isNode, isT]
        exact ⟨Function.update_self .., hasChild⟩
      · rw [isNode, if_neg isT] at suspended
        rw [isNode] at noCallee
        exact here suspended noCallee
          ((Function.update_of_ne isT ..).trans (free w)) (by rw [isNode])
  | @setReturn w t caller has isCaller counter nothing =>
      simp only [Core.setReturn] at suspended noCallee
      have notCaller : c ≠ caller := by
        intro isHere
        simp [isHere] at suspended
      have notT : c ≠ t := by
        intro isHere
        rw [if_neg notCaller, if_pos isHere] at suspended
        cases suspended
      rw [if_neg notCaller, if_neg notT] at suspended noCallee
      apply here suspended noCallee (Function.update_of_ne notT ..)
      simp [Core.setReturn, notCaller, notT]
  | @freeFiber w => exact here suspended noCallee (free w) rfl
  | @stealItself w v cl x deque member running =>
      have notNew : c ≠ core.created := by
        rintro rfl
        simp [Core.setDeque, Core.addChild] at suspended
      have notCl : c ≠ cl := by
        rintro rfl
        simp [Core.setDeque, Core.addChild, notNew, running] at suspended
      have isNode : ∃ rightSib, ((core.addChild cl).setDeque v deque).nodes c =
          { core.nodes c with rightSib } := by
        simp only [Core.setDeque, Core.addChild, if_neg notNew, if_neg notCl]
        split <;> exact ⟨_, rfl⟩
      obtain ⟨_, isNode⟩ := isNode
      rw [isNode] at suspended noCallee
      apply here suspended noCallee _ (by rw [isNode])
      exact (Function.update_of_ne notCl ..).trans
        (Function.update_of_ne notNew ..)
  | @stealCallee w v cl x deque member running =>
      have notChild : c ≠ core.created + 1 := by
        rintro rfl
        simp [Core.setDeque, Core.addChild, Core.addTempCallee] at suspended
      have notRes : c ≠ core.created := by
        rintro rfl
        simp [Core.setDeque, Core.addChild, Core.addTempCallee] at suspended
      have notCl : c ≠ cl := by
        rintro rfl
        simp [Core.setDeque, Core.addChild, Core.addTempCallee, notChild, notRes]
          at noCallee
      have isNode : (((core.addTempCallee cl).addChild core.created).setDeque v
          deque).nodes c = core.nodes c := by
        simp [Core.setDeque, Core.addChild, Core.addTempCallee, notChild, notRes,
          notCl]
      rw [isNode] at suspended noCallee
      apply here suspended noCallee _ (by rw [isNode])
      exact (Function.update_of_ne notRes ..).trans
        (Function.update_of_ne notChild ..)
  | @promote w cl res closures made has isCaller chain =>
      have notBetween : c ∉ closures := by
        intro member
        obtain ⟨_, _, isNode⟩ := chain.between c member
        rw [isNode] at noCallee
        cases noCallee
      have notCl : c ≠ cl := by
        rintro rfl
        obtain ⟨_, isNode⟩ := chain.older
        rw [isNode] at noCallee
        cases noCallee
      have notRes : c ≠ res := by
        rintro rfl
        obtain ⟨_, isNode⟩ := chain.younger
        rw [isNode] at suspended
        cases suspended
      have isNode := chain.kept c notBetween notCl notRes
      rw [isNode] at suspended noCallee
      exact here suspended noCallee (if_neg notBetween) (by rw [isNode])
  | @removeChild w child parent has isParent counter nothing waits =>
      have notChild : c ≠ child := by
        rintro rfl
        simp [Core.removeChild] at suspended
      have status : (core.nodes c).status = .suspended :=
        (if_neg notChild).symm.trans suspended
      have fiber := b.leave_fiber parent child
        (core.leavesFiber b parent child) notChild
      by_cases isParent : c = parent
      · subst isParent
        rw [fiber]
        refine ⟨(ashore c status noCallee).1, fun isLast => ?_⟩
        apply waits _ status
        exact Bool.or_eq_false_iff.mpr ⟨noCallee, bne_eq_false_iff_eq.mpr isLast⟩
      · exact here status noCallee fiber (if_neg isParent)
  | @resume w child parent has isParent counter nothing childless isSuspended =>
      rw [Core.setStatus_nodes] at suspended noCallee
      have notParent : c ≠ parent := by
        intro isHere
        rw [if_pos isHere] at suspended
        cases suspended
      rw [if_neg notParent] at suspended
      have notChild : c ≠ child := by
        rintro rfl
        simp [Core.removeChild] at suspended
      have status : (core.nodes c).status = .suspended :=
        (if_neg notChild).symm.trans suspended
      have fiber := b.leave_fiber parent child
        (core.leavesFiber b parent child) notChild
      apply here status noCallee
      · exact (Function.update_of_ne notParent ..).trans fiber
      · rw [Core.setStatus_nodes]
        exact if_neg notParent

/-- A fiber that has been left to the parent is kept until the frame goes on. -/
theorem FiberMove.saved (move : FiberMove core b pc action made b')
    (placed : Placed core pc) (homed : Homed core b home)
    (notSync : ∀ w, action ≠ .sync w) (notReturn : ∀ w, action ≠ .finishReturn w)
    (isSaved : b.fiberChild c ≠ none) : b'.fiberChild c ≠ none := by
  obtain ⟨x, isX⟩ := Option.ne_none_iff_exists'.mp isSaved
  have allocated := placed.allocated (homed.saved c x isX).1
  cases move with
  | still | own | setReturn | mapFiber | unmapFiber => exact isSaved
  | @freeFiber w => rwa [b.free_fiberChild]
  | syncPass | syncWait => exact absurd rfl (notSync _)
  | removeChild | resume => exact absurd rfl (notReturn _)
  | @stealItself w v cl x deque =>
      have same : (b.steal cl core.created x).fiberChild c = b.fiberChild c :=
        Function.update_of_ne allocated.ne ..
      rwa [same]
  | @stealCallee w v cl x deque =>
      have notChild : c ≠ core.created + 1 := by omega
      have same : (b.stealCallee cl core.created (core.created + 1)
          x).fiberChild c = b.fiberChild c :=
        (Function.update_of_ne notChild ..).trans
          (Function.update_of_ne allocated.ne ..)
      rwa [same]
  | @promote w cl res closures made has isCaller chain =>
      have notBetween : c ∉ closures := fun member =>
        absurd allocated (not_lt.mpr (chain.fresh c member).1)
      exact (if_neg notBetween).trans_ne isSaved

end Steps

end Multicilk.Scheduler
