import Multicilk.Scheduler.Frames.Accounts

/-!
# What a step does to the fibers

A fiber goes from one closure to another, to the worker that leaves it, or into a
pool.  Every step does one of a few things.
-/

namespace Multicilk.Scheduler

open Machine

namespace Fibers

/-- A fiber is mapped for a pool. -/
def map (b : Fibers) : Fibers :=
  { b with pool := b.mapped :: b.pool, mapped := b.mapped + 1 }

/-- A fiber of a pool is unmapped. -/
def unmap (b : Fibers) (x : ℕ) : Fibers :=
  { b with pool := b.pool.erase x, unmapped := x :: b.unmapped }

/-- A thief takes a fiber for the frame that goes on, and the child stays on the
fiber of the frame. -/
def steal (b : Fibers) (cl child x : ℕ) : Fibers :=
  (((b.take x).setFiberChild child none).setFiber child (b.fiber cl)).setFiber cl
    (some x)

/-- A thief takes a fiber for a frame that had no closure. -/
def stealCallee (b : Fibers) (cl res child x : ℕ) : Fibers :=
  ((((b.take x).setFiberChild res none).setFiberChild child none).setFiber child
    (b.fiber cl)).setFiber res (some x)

end Fibers

/-- What becomes of the closure tree and of the fibers. -/
inductive FiberMove (core : Core) (b : Fibers) (pc : ℕ → Pc) :
    Action → Core → Fibers → Prop where
  | still {action : Action} : FiberMove core b pc action core b
  | own {action : Action} {w t : ℕ} {status : ClosureStatus}
      {deque : List ℕ} :
      t ∈ core.carried pc w → Node.Active { core.nodes t with status } →
      FiberMove core b pc action ((core.setStatus t status).setDeque w deque) b
  | syncPass {w t : ℕ} :
      t ∈ core.carried pc w → (core.nodes t).joinCounter = 0 →
      b.fiberChild t ≠ none →
      FiberMove core b pc (.sync w) core ((b.free w).sync w t)
  | syncWait {w t : ℕ} {deque : List ℕ} :
      t ∈ core.carried pc w → (core.nodes t).joinCounter ≠ 0 →
      FiberMove core b pc (.sync w)
        ((core.setStatus t .suspended).setDeque w deque) ((b.free w).wait w t)
  | setReturn {w t caller : ℕ} :
      t ∈ core.carried pc w → (core.nodes t).callParent = some caller →
      (core.nodes t).joinCounter = 0 → b.fiberChild t = none →
      FiberMove core b pc (.setReturn w) (core.setReturn w t caller)
        (b.setFiber t none)
  | freeFiber {w : ℕ} :
      FiberMove core b pc (.freeFiber w) core (b.free w)
  | stealItself {w v cl x : ℕ} {deque : List ℕ} :
      cl ∈ core.deques v → (core.nodes cl).status = .running → x ∈ b.pool →
      FiberMove core b pc (.steal w v) ((core.addChild cl).setDeque v deque)
        (b.steal cl core.created x)
  | stealCallee {w v cl x : ℕ} {deque : List ℕ} :
      cl ∈ core.deques v → (core.nodes cl).status = .running → x ∈ b.pool →
      FiberMove core b pc (.steal w v)
        (((core.addTempCallee cl).addChild core.created).setDeque v deque)
        (b.stealCallee cl core.created (core.created + 1) x)
  | promote {w cl res : ℕ} {closures : List ℕ} {made : Core} :
      res ∈ core.carried pc w → (core.nodes res).callParent = some cl →
      core.Chained made cl res closures →
      FiberMove core b pc (.finishPromote w) made (b.promote cl closures)
  | removeChild {w child parent : ℕ} :
      child ∈ core.carried pc w →
      (core.nodes child).spawnParent = some parent →
      (core.nodes child).joinCounter = 0 → b.fiberChild child = none →
      (((core.removeChild parent child).nodes parent).hasChildren = false →
        (core.nodes parent).status ≠ .suspended) →
      FiberMove core b pc (.finishReturn w) (core.removeChild parent child)
        (b.leave parent child (core.leavesFiber b parent child))
  | resume {w child parent : ℕ} :
      child ∈ core.carried pc w →
      (core.nodes child).spawnParent = some parent →
      (core.nodes child).joinCounter = 0 → b.fiberChild child = none →
      ((core.removeChild parent child).nodes parent).hasChildren = false →
      (core.nodes parent).status = .suspended →
      FiberMove core b pc (.finishReturn w)
        ((core.removeChild parent child).setStatus parent .ready)
        ((b.leave parent child (core.leavesFiber b parent child)).sync w parent)
  | mapFiber : FiberMove core b pc .mapFiber core b.map
  | unmapFiber {x : ℕ} :
      x ∈ b.pool → FiberMove core b pc .unmapFiber core (b.unmap x)

section Steps

variable {M : Type*} [Monoid M] {m m' : Machine M} {action : Action}
  {young : ℕ → List ℕ} {core : Core} {b : Fibers} {pc : ℕ → Pc} {w t root : ℕ}

omit [Monoid M] in
theorem FiberMove.status {status : ClosureStatus}
    (has : t ∈ core.carried pc w)
    (active : Node.Active { core.nodes t with status }) :
    FiberMove core b pc action (core.setStatus t status) b := by
  have move := @FiberMove.own core b pc action w t status (core.deques w) has
    active
  rwa [← (core.setStatus t status).setDeque_self w]

omit [Monoid M] in
theorem FiberMove.deque {deque : List ℕ} (placed : Placed core pc)
    (has : t ∈ core.carried pc w) :
    FiberMove core b pc action (core.setDeque w deque) b := by
  have move := @FiberMove.own core b pc action w t (core.nodes t).status deque
    has (placed.active has)
  rwa [core.setStatus_self] at move

/-- A frame that has not been synced is that of a closure that has children, or
is on a fiber of its own. -/
theorem Step.sync_parted (taken : Step m (.sync w) m')
    (accounted : Accounted m.sched.core m.sched.stacks m.pc root
      m.sched.Settled young)
    (bottom : dequePeekBottom m.sched w = some t) :
    ¬ m.sched.Settled t := by
  cases taken with
  | @sync w f t' s ready isUser current unsynched =>
      have posture := accounted.placed.posture w
      rw [isUser] at posture
      have isDeque := (peekBottom_user posture bottom).1
      have has : t ∈ m.sched.core.carried m.pc w := by
        simp [Core.carried, isDeque]
      obtain ⟨own, isOwnDeque, isOwn, -⟩ :=
        Accounted.own_of_old isUser accounted current fun isYoung =>
          absurd (unsynched.symm.trans isYoung.synched) Bool.noConfusion
      have same : own = t := by simpa [isDeque] using isOwnDeque.symm
      rw [same] at isOwn
      intro settled
      have synched := accounted.framed.parted t
        (accounted.placed.active has).live settled f isOwn
      exact absurd (unsynched.symm.trans synched) Bool.noConfusion

/-- A called frame that is left has been synced. -/
theorem Step.setReturn_settled (taken : Step m (.setReturn w) m')
    (accounted : Accounted m.sched.core m.sched.stacks m.pc root
      m.sched.Settled young)
    (bottom : dequePeekBottom m.sched w = some t) : m.sched.Settled t := by
  cases taken with
  | @setReturn w f t' caller isUser current synched notLast attached stolen =>
      have posture := accounted.placed.posture w
      rw [isUser] at posture
      have isDeque := (peekBottom_user posture bottom).1
      have has : t ∈ m.sched.core.carried m.pc w := by
        simp [Core.carried, isDeque]
      obtain ⟨own, isOwnDeque, isOwn, -⟩ :=
        Accounted.own_of_stolen isUser accounted current stolen
      have same : own = t := by simpa [isDeque] using isOwnDeque.symm
      rw [same] at isOwn
      apply accounted.settled_of_synched (Accounted.not_promoting isUser) has
      intro g isFrame
      rw [isOwn, Option.some.injEq] at isFrame
      exact isFrame ▸ synched

theorem Step.fiberMove (taken : Step m action m')
    (accounted : Accounted m.sched.core m.sched.stacks m.pc root
      m.sched.Settled young)
    (waits : m.sched.core.Waits) :
    FiberMove m.sched.core m.sched.fibers m.pc action m'.sched.core
      m'.sched.fibers := by
  have placed := accounted.placed
  have whole := taken
  cases taken with
  | @call w isUser =>
      rw [goto, fibers_enterFrame]
      exact .still
  | @spawn w t =>
      have core := core_spawn t (s := m.sched) (w := w)
      rw [goto, core, fibers_spawn]
      exact .still
  | update =>
      rw [goto, fibers_modifyWorker rfl]
      exact .still
  | leaveCalled =>
      rw [goto, fibers_popFrame]
      exact .still
  | @leaveSpawned w sf s isUser current synched notLast detached isState =>
      rw [goto, isState, core_leaveDetached, core_popFrame, fibers_leaveDetached,
        fibers_popFrame]
      exact .still
  | @setReturn w sf t caller isUser current synched notLast attached stolen
      bottom isCaller =>
      have has := @mem_carried_of_bottom _ m.pc _ _ _ bottom
      have settled := whole.setReturn_settled accounted bottom
      have different : t ≠ caller := by
        rintro rfl
        have active := placed.active has
        exact active.not_suspended
          (placed.caller t t active.live isCaller).1
      rw [goto, core_cilkSetReturn different, core_popFrame, fibers_cilkSetReturn,
        fibers_popFrame]
      exact .setReturn has isCaller settled.1 settled.2
  | @exit w sf isUser =>
      have posture := placed.posture w
      rw [isUser] at posture
      obtain ⟨t, isDeque, -⟩ := posture
      have has : t ∈ m.sched.core.carried m.pc w := by
        simp [Core.carried, isDeque]
      have fibers : (exitCilkifiedRoot (popFrame m.sched w sf) w sf).fibers =
          m.sched.fibers := fibers_popFrame sf (s := m.sched) (w := w)
      rw [goto, fibers]
      exact .deque placed has
  | @sync w sf t s ready isUser current unsynched bottom unlocked synced =>
      have has := @mem_carried_of_bottom _ m.pc _ _ _ bottom
      have parted := whole.sync_parted accounted bottom
      have fibers := fibers_cilkSync (placed.kin.real t) synced
      rcases cilkSync_cases (placed.kin.real t) synced with
        ⟨childless, rfl, core⟩ | ⟨waiting, rfl, core⟩
      · rw [if_pos rfl] at fibers
        rw [goto, core, fibers]
        obtain ⟨-, noChild⟩ := Bool.or_eq_false_iff.mp childless
        rw [bne_eq_false_iff_eq] at noChild
        exact .syncPass has noChild fun nothing => parted ⟨noChild, nothing⟩
      · rw [if_neg Bool.false_ne_true] at fibers
        rw [goto, core, fibers]
        refine .syncWait has fun noChild => ?_
        have hasChildren : (m.sched.core.nodes t).hasChildren = true := waiting
        rw [Node.hasChildren, noChild, bne_self_eq_false, Bool.or_false]
          at hasChildren
        exact (placed.active has).not_suspended (waits t hasChildren)
  | @exceptionHandler w t s stolen isPopped bottom unlocked handled =>
      have has := @mem_carried_of_bottom _ m.pc _ _ _ bottom
      rw [goto, fibers_cilkExceptionHandler handled]
      rcases cilkExceptionHandler_cases handled with
        ⟨-, -, same⟩ | ⟨-, -, returning⟩
      · exact same.symm ▸ .still
      · split at returning
        · exact returning.symm ▸ .status has (.inr (.inr rfl))
        · exact returning.symm ▸ .still
  | @freeFiber w =>
      rw [goto, core_freeFiber, fibers_freeFiber]
      exact .freeFiber
  | xtractNothing => exact .still
  | @xtractBottom w t isLooking bottom =>
      rw [goto, fibers_dequeXtractBottom]
      exact .deque placed (mem_carried_of_bottom bottom)
  | @steal w victim fiber cl res s isThief other pooled top unlocked stolen =>
      have running := (closureStealTop_some stolen).2.1
      have member : cl ∈ m.sched.core.deques victim := List.mem_of_head? top
      have allocated : cl < m.sched.created :=
        placed.allocated (by simp [Node.Live, running])
      obtain ⟨below, rest, -, cases⟩ := accounted.stealTop stolen
      rcases closureStealTop_cases stolen allocated
        (placed.kin.siblingsAllocated cl) with ⟨isOld, core⟩ | ⟨isNew, core⟩
      · rcases cases with ⟨-, isState, -⟩ | ⟨isNew, -⟩
        · have fibers := @fibers_extractedItself _ m.sched fiber victim cl
            allocated.ne
          rw [goto, core, isState, fibers]
          exact .stealItself member running pooled
        · exact absurd (isOld.symm.trans isNew) allocated.ne
      · rcases cases with ⟨isOld, -⟩ | ⟨-, isState, -⟩
        · exact absurd (isOld.symm.trans isNew) allocated.ne
        · have fibers := @fibers_extractedCallee _ m.sched fiber victim cl
          rw [goto, core, isState, fibers]
          exact .stealCallee member running pooled
  | @finishPromote w cl res fuel s isPromoting finished =>
      obtain ⟨caller, -⟩ := placed.promoting isPromoting
      have has : res ∈ m.sched.core.carried m.pc w := by
        simp [Core.carried, isPromoting, Pc.closures]
      by_cases different : cl ≠ res
      · obtain ⟨_, _, closures, _, -, -, chain, -, fibers⟩ :=
          accounted.promoted isPromoting different finished
        rw [goto, fibers]
        exact .promote has (caller different) chain
      · rw [not_not] at different
        subst different
        have readied : s = readyParent m.sched cl := by
          simpa [Scheduler.finishPromote] using finished.symm
        rw [goto, readied, core_readyParent, fibers_readyParent]
        exact .status has (.inr (.inl rfl))
  | @setupForExecution w t isHolding =>
      have has : t ∈ m.sched.core.carried m.pc w := by
        simp [Core.carried, isHolding, Pc.closures]
      rw [goto, fibers_setupForExecution, core_setupForExecution]
      exact .status has (.inl rfl)
  | @execute w t isExecuting =>
      have has : t ∈ m.sched.core.carried m.pc w := by
        simp [Core.carried, isExecuting, Pc.closures]
      rw [goto, core_longjmpToUserCode, fibers_longjmpToUserCode,
        fibers_dequeAddBottom]
      exact .deque placed has
  | returnValue => exact .still
  | @reducerIteration w child parent =>
      have same := core_reducerIteration parent child (s := m.sched) (w := w)
      rw [goto, same, fibers_reducerIteration]
      exact .still
  | @finishReturn w child parent s res isReturning isParent unlocked unlocked'
      left right finished =>
      have posture := placed.posture w
      rw [isReturning] at posture
      have has : child ∈ m.sched.core.carried m.pc w := by
        simp [Core.carried, isReturning, Pc.closures]
      have notPromoting (cl res : ℕ) : m.pc w ≠ .promoting cl res := by
        rw [isReturning]
        exact Pc.noConfusion
      obtain ⟨noChild, nothing⟩ := accounted.settled_of_synched notPromoting has
        (accounted.framed.returning child posture.2)
      have real := placed.kin.real parent
      have different : child ≠ parent :=
        Nat.ne_of_gt (placed.kin.parent child parent isParent)
      obtain ⟨removed, isRemoved⟩ : ∃ removed,
        removed = childReturned m.sched w parent child := ⟨_, rfl⟩
      have removedCore : removed.core = m.sched.core.removeChild parent child := by
        rw [isRemoved, core_childReturned]
      have removedFibers : removed.fibers = m.sched.fibers.leave parent child
          (m.sched.core.leavesFiber m.sched.fibers parent child) := by
        rw [isRemoved, fibers_childReturned]
      have fibers := fibers_finishReturn real isRemoved finished
      rw [goto]
      rcases finishReturn_cases real different finished with
        ⟨childless, suspended, isRes, core⟩ | ⟨waits, isNone, core⟩
      · obtain ⟨-, fibers⟩ := fibers.resolve_left fun none =>
          absurd (isRes.symm.trans none.1) (Option.some_ne_none parent)
        rw [core, fibers, removedFibers]
        exact .resume has isParent noChild nothing childless suspended
      · obtain ⟨-, fibers⟩ := fibers.resolve_right fun some =>
          absurd (some.1.symm.trans isNone) (Option.some_ne_none parent)
        rw [core, fibers, removedFibers]
        exact .removeChild has isParent noChild nothing fun childless
          suspended => waits ⟨childless, suspended⟩
  | mapFiber => exact .mapFiber
  | unmapFiber pooled => exact .unmapFiber pooled

end Steps

end Multicilk.Scheduler
