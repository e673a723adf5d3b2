import Multicilk.Scheduler.Frames.Stacks

/-!
# The fibers

Where the fibers are: with the closures, with the workers and in the pools.  Below
is what every operation does to them.
-/

namespace Multicilk.Scheduler

@[ext] structure Fibers where
  fiber : ℕ → Option ℕ
  fiberChild : ℕ → Option ℕ
  fiberToFree : ℕ → Option ℕ
  pool : List ℕ
  mapped : ℕ
  unmapped : List ℕ
  taken : List ℕ
  returned : List ℕ

variable {M : Type*} {s t : State M} {w c x : ℕ} {b : Fibers}

def State.fibers (s : State M) : Fibers where
  fiber := fun c => (s.closures c).fiber
  fiberChild := fun c => (s.closures c).fiberChild
  fiberToFree := fun w => (s.workers w).fiberToFree
  pool := s.pool
  mapped := s.mapped
  unmapped := s.unmapped
  taken := s.taken
  returned := s.returned

namespace Fibers

def setFiber (b : Fibers) (c : ℕ) (fiber : Option ℕ) : Fibers :=
  { b with fiber := Function.update b.fiber c fiber }

def setFiberChild (b : Fibers) (c : ℕ) (fiber : Option ℕ) : Fibers :=
  { b with fiberChild := Function.update b.fiberChild c fiber }

def setFiberToFree (b : Fibers) (w : ℕ) (fiber : Option ℕ) : Fibers :=
  { b with fiberToFree := Function.update b.fiberToFree w fiber }

/-- A fiber is given to a pool. -/
def put (b : Fibers) (x : ℕ) : Fibers :=
  { b with pool := x :: b.pool, returned := x :: b.returned }

/-- A fiber is taken from a pool. -/
def take (b : Fibers) (x : ℕ) : Fibers :=
  { b with pool := b.pool.erase x, taken := x :: b.taken }

/-- The worker frees the fiber that it has left. -/
def free (b : Fibers) (w : ℕ) : Fibers :=
  match b.fiberToFree w with
  | some x => (b.put x).setFiberToFree w none
  | none => b

/-- The frame goes on on the fiber of its first child. -/
def sync (b : Fibers) (w c : ℕ) : Fibers :=
  ((b.setFiberToFree w (b.fiber c)).setFiber c (b.fiberChild c)).setFiberChild c
    none

/-- The frame waits, and its worker leaves its fiber. -/
def wait (b : Fibers) (w c : ℕ) : Fibers :=
  (b.setFiberToFree w (b.fiber c)).setFiber c none

/-- The first child leaves its fiber to the parent. -/
def leave (b : Fibers) (parent child : ℕ) (isFirst : Bool) : Fibers :=
  (if isFirst then b.setFiberChild parent (b.fiber child)
    else match b.fiber child with
      | some x => b.put x
      | none => b).setFiber child none

@[simp] theorem free_fiber (b : Fibers) (w : ℕ) :
    (b.free w).fiber = b.fiber := by
  unfold free
  split <;> rfl

@[simp] theorem free_fiberChild (b : Fibers) (w : ℕ) :
    (b.free w).fiberChild = b.fiberChild := by
  unfold free
  split <;> rfl

theorem sync_fiberChild (b : Fibers) (w c d : ℕ) : (b.sync w c).fiberChild d =
    if d = c then none else b.fiberChild d :=
  Function.update_apply ..

@[simp] theorem wait_fiberChild (b : Fibers) (w c : ℕ) :
    (b.wait w c).fiberChild = b.fiberChild := rfl

theorem leave_fiberChild (b : Fibers) (parent child : ℕ) (isFirst : Bool)
    (d : ℕ) : (b.leave parent child isFirst).fiberChild d =
      if d = parent ∧ isFirst then b.fiber child else b.fiberChild d := by
  unfold leave
  by_cases first : isFirst
  · rw [if_pos first]
    simp only [setFiber, setFiberChild, first, and_true]
    exact Function.update_apply ..
  · rw [if_neg first, if_neg fun both => first both.2]
    split <;> rfl

@[simp] theorem leave_fiberToFree (b : Fibers) (parent child : ℕ)
    (isFirst : Bool) :
    (b.leave parent child isFirst).fiberToFree = b.fiberToFree := by
  unfold leave
  split
  · rfl
  · split <;> rfl

theorem leave_fiber {d : ℕ} (b : Fibers) (parent child : ℕ) (isFirst : Bool)
    (other : d ≠ child) : (b.leave parent child isFirst).fiber d = b.fiber d := by
  refine (Function.update_of_ne other ..).trans ?_
  split
  · rfl
  · split <;> rfl

end Fibers

/-- The child leaves its fiber to the parent, and not to a pool. -/
def Core.leavesFiber (core : Core) (b : Fibers) (parent child : ℕ) : Bool :=
  (core.nodes child).leftSib.isNone ∧ (b.fiberChild parent).isNone

section Unchanged

/-- What happens to the fibers of a closure. -/
theorem fibers_modifyClosure_fields {change : Closure M → Closure M} :
    (s.modifyClosure c change).fibers =
      (s.fibers.setFiber c (change (s.closures c)).fiber).setFiberChild c
        (change (s.closures c)).fiberChild := by
  apply Fibers.ext
  case fiber =>
    funext d
    simp only [State.fibers, Fibers.setFiber, Fibers.setFiberChild,
      State.modifyClosure_apply, Function.update_apply]
    split <;> rfl
  case fiberChild =>
    funext d
    simp only [State.fibers, Fibers.setFiber, Fibers.setFiberChild,
      State.modifyClosure_apply, Function.update_apply]
    split <;> rfl
  all_goals rfl

theorem fibers_modifyClosure {change : Closure M → Closure M}
    (same : (change (s.closures c)).fiber = (s.closures c).fiber)
    (sameChild : (change (s.closures c)).fiberChild =
      (s.closures c).fiberChild) :
    (s.modifyClosure c change).fibers = s.fibers := by
  rw [fibers_modifyClosure_fields, same, sameChild]
  apply Fibers.ext
  case fiber => exact Function.update_eq_self c s.fibers.fiber
  case fiberChild => exact Function.update_eq_self c s.fibers.fiberChild
  all_goals rfl

theorem fibers_setFiber (fiber : Option ℕ) :
    (s.modifyClosure c ({ · with fiber })).fibers = s.fibers.setFiber c fiber := by
  rw [fibers_modifyClosure_fields]
  apply Fibers.ext
  case fiberChild => exact Function.update_eq_self c s.fibers.fiberChild
  all_goals rfl

theorem fibers_setFiberChild (fiber : Option ℕ) :
    (s.modifyClosure c ({ · with fiberChild := fiber })).fibers =
      s.fibers.setFiberChild c fiber := by
  rw [fibers_modifyClosure_fields]
  apply Fibers.ext
  case fiber => exact Function.update_eq_self c s.fibers.fiber
  all_goals rfl

theorem fibers_modifyWorker_field {change : Worker M → Worker M} :
    (s.modifyWorker w change).fibers =
      s.fibers.setFiberToFree w (change (s.workers w)).fiberToFree := by
  apply Fibers.ext
  case fiberToFree =>
    funext v
    simp only [State.fibers, Fibers.setFiberToFree, State.modifyWorker,
      Function.update_apply]
    split <;> rfl
  all_goals rfl

theorem fibers_modifyWorker {change : Worker M → Worker M}
    (same : (change (s.workers w)).fiberToFree = (s.workers w).fiberToFree) :
    (s.modifyWorker w change).fibers = s.fibers := by
  rw [fibers_modifyWorker_field, same]
  apply Fibers.ext
  case fiberToFree => exact Function.update_eq_self w s.fibers.fiberToFree
  all_goals rfl

@[simp] theorem fibers_modifyFrame (change : StackFrame → StackFrame) (f : ℕ) :
    (s.modifyFrame f change).fibers = s.fibers := rfl

@[simp] theorem fibers_modifyFrameOf (change : StackFrame → StackFrame)
    (frame : Option ℕ) : (s.modifyFrameOf frame change).fibers = s.fibers := by
  cases frame <;> rfl

@[simp] theorem fibers_closureSetStatus (status : ClosureStatus) :
    (closureSetStatus s c status).fibers = s.fibers :=
  fibers_modifyClosure rfl rfl

@[simp] theorem fibers_dequeXtractBottom :
    (dequeXtractBottom s w).fibers = s.fibers := rfl

@[simp] theorem fibers_dequeAddBottom :
    (dequeAddBottom s c w).fibers = s.fibers := rfl

@[simp] theorem fibers_resetExceptionPointer :
    (resetExceptionPointer s w).fibers = s.fibers :=
  fibers_modifyWorker rfl

@[simp] theorem fibers_enterFrame : (enterFrame s w).fibers = s.fibers := by
  simp only [enterFrame]
  rw [fibers_modifyWorker rfl]
  rfl

@[simp] theorem fibers_spawn (t : ℕ) : (spawn s w t).fibers = s.fibers := by
  have detached (u : State M) (sf : ℕ) : (detach u w sf).fibers = u.fibers := by
    unfold detach
    cases (u.frames sf).callParent with
    | none => rfl
    | some parent => exact fibers_modifyWorker rfl
  rw [spawn, detached, fibers_enterFrame, fibers_modifyFrameOf]

@[simp] theorem fibers_popFrame (f : ℕ) : (popFrame s w f).fibers = s.fibers := by
  rw [popFrame, fibers_modifyFrame, fibers_modifyWorker rfl]

@[simp] theorem fibers_leaveDetached (f : ℕ) :
    (leaveDetached s w f).fibers = s.fibers := by
  rw [leaveDetached, fibers_modifyFrame, fibers_modifyWorker rfl]

@[simp] theorem fibers_longjmpToUserCode (t : ℕ) :
    (longjmpToUserCode s w t).fibers = s.fibers := by
  unfold longjmpToUserCode
  split
  · exact fibers_modifyWorker rfl
  · split
    · rfl
    · exact fibers_modifyFrameOf ..

@[simp] theorem fibers_setupForExecution (t : ℕ) :
    (setupForExecution s w t).fibers = s.fibers := by
  simp only [setupForExecution, fibers_resetExceptionPointer]
  rw [fibers_modifyWorker rfl, fibers_closureSetStatus, fibers_modifyFrameOf]

theorem fibers_cilkExceptionHandler {stolen : Bool}
    (handled : cilkExceptionHandler s w c = (t, stolen)) :
    t.fibers = s.fibers := by
  simp only [cilkExceptionHandler] at handled
  split at handled
  · split at handled <;> cases handled
    · rw [fibers_closureSetStatus, fibers_resetExceptionPointer]
    · exact fibers_resetExceptionPointer
  · cases handled
    exact fibers_resetExceptionPointer

@[simp] theorem fibers_closureRemoveChild (parent child : ℕ) :
    (closureRemoveChild s parent child).fibers = s.fibers := by
  have unlinked (u : State M) : (unlinkChild u child).fibers = u.fibers := by
    simp only [unlinkChild]
    rw [fibers_modifyClosure rfl rfl]
    cases (u.closures child).leftSib <;> cases (u.closures child).rightSib
    · rfl
    · exact fibers_modifyClosure rfl rfl
    · exact fibers_modifyClosure rfl rfl
    · exact (fibers_modifyClosure rfl rfl).trans (fibers_modifyClosure rfl rfl)
  rw [closureRemoveChild, unlinked]
  split
  · exact fibers_modifyClosure rfl rfl
  · rfl

@[simp] theorem fibers_closureDestroy (destroyer : Destroyer) :
    (closureDestroy s destroyer c).fibers = s.fibers :=
  fibers_closureSetStatus .postInvalid

@[simp] theorem fibers_storeLeftRmap (parent child : ℕ) (map : Option M) :
    (storeLeftRmap s parent child map).fibers = s.fibers := by
  unfold storeLeftRmap
  split <;> exact fibers_modifyClosure rfl rfl

@[simp] theorem fibers_reducerIteration [Monoid M] (parent child : ℕ) :
    (reducerIteration s w parent child).fibers = s.fibers := by
  simp only [reducerIteration]
  rw [fibers_modifyWorker rfl, fibers_storeLeftRmap, fibers_modifyClosure rfl rfl]

@[simp] theorem fibers_resumeMaps [Monoid M] (parent : ℕ) :
    (resumeMaps s w parent).fibers = s.fibers := by
  simp only [resumeMaps]
  split
  · rw [fibers_modifyWorker rfl, fibers_modifyClosure rfl rfl,
      fibers_modifyClosure rfl rfl]
  · rw [fibers_modifyWorker rfl, fibers_modifyClosure rfl rfl]

end Unchanged

section Changed

theorem fibers_freeFiber : (freeFiber s w).fibers = s.fibers.free w := by
  have same : s.fibers.fiberToFree w = (s.workers w).fiberToFree := rfl
  rw [freeFiber, Fibers.free, same]
  cases (s.workers w).fiberToFree with
  | none => rfl
  | some fiber => exact fibers_modifyWorker_field

theorem fibers_setupForSync (real : (s.core.nodes c).simulatedStolen = false) :
    (setupForSync s w c).fibers = s.fibers.sync w c := by
  have isReal : (s.closures c).simulatedStolen = false := real
  simp only [setupForSync, isReal, Bool.false_eq_true, if_false]
  rw [fibers_modifyClosure rfl rfl, fibers_modifyFrameOf,
    fibers_modifyClosure_fields, fibers_modifyWorker_field]
  rfl

theorem fibers_cilkSync [Monoid M] {ready : Bool}
    (real : (s.core.nodes c).simulatedStolen = false)
    (synced : cilkSync s w c = (t, ready)) :
    t.fibers = if ready then (s.fibers.free w).sync w c
      else (s.fibers.free w).wait w c := by
  simp only [cilkSync] at synced
  split at synced <;> cases synced
  · rw [fibers_modifyClosure rfl rfl, closureSuspend, fibers_dequeXtractBottom,
      fibers_modifyFrameOf, fibers_closureSetStatus, fibers_modifyWorker rfl,
      fibers_setFiber, fibers_modifyWorker_field, fibers_freeFiber,
      ← fibers_freeFiber]
    rfl
  · have isReal : ((freeFiber s w).core.nodes c).simulatedStolen = false := by
      rw [core_freeFiber]
      exact real
    rw [fibers_modifyWorker rfl, fibers_modifyClosure rfl rfl,
      fibers_setupForSync isReal, fibers_freeFiber]
    rfl

theorem fibers_cilkSetReturn {caller : ℕ} :
    (cilkSetReturn s w c caller).fibers = s.fibers.setFiber c none := by
  rw [cilkSetReturn, fibers_dequeAddBottom, fibers_closureDestroy,
    setupCallParentResumption, fibers_resetExceptionPointer,
    fibers_modifyFrameOf, fibers_closureSetStatus, closureRemoveCallee,
    fibers_modifyClosure rfl rfl, fibers_setFiber, fibers_modifyClosure rfl rfl,
    fibers_dequeXtractBottom]

theorem fibers_returnFiber (parent child : ℕ) :
    (returnFiber s parent child).fibers = s.fibers.leave parent child
      ((s.closures child).leftSib.isNone ∧
        (s.closures parent).fiberChild.isNone) := by
  rw [returnFiber, fibers_setFiber, Fibers.leave]
  congr 1
  cases (s.closures child).leftSib <;> cases (s.closures parent).fiberChild
  · exact fibers_setFiberChild _
  all_goals
    have same : s.fibers.fiber child = (s.closures child).fiber := rfl
    simp only [same]
    cases (s.closures child).fiber <;> rfl

theorem fibers_childReturned (parent child : ℕ) :
    (childReturned s w parent child).fibers = s.fibers.leave parent child
      (s.core.leavesFiber s.fibers parent child) := by
  obtain ⟨stored, isStored⟩ : ∃ stored, stored =
      (storeLeftRmap s parent child (s.workers w).reducerMap).modifyWorker w
        ({ · with reducerMap := none }) := ⟨_, rfl⟩
  have sameFibers : stored.fibers = s.fibers := by
    rw [isStored, fibers_modifyWorker rfl, fibers_storeLeftRmap]
  have sameCore : stored.core = s.core := by
    rw [isStored, core_modifyWorker, core_storeLeftRmap]
  have left : (stored.closures child).leftSib = (s.closures child).leftSib :=
    congrArg (fun core : Core => (core.nodes child).leftSib) sameCore
  have saved : (stored.closures parent).fiberChild =
      (s.closures parent).fiberChild :=
    congrArg (fun b : Fibers => b.fiberChild parent) sameFibers
  rw [childReturned, ← isStored, fibers_modifyClosure rfl rfl,
    fibers_closureDestroy, fibers_closureRemoveChild, fibers_returnFiber, left,
    saved, sameFibers]
  rfl

theorem fibers_finishReturn [Monoid M] {parent child : ℕ} {res : Option ℕ}
    {removed : State M} (real : (s.core.nodes parent).simulatedStolen = false)
    (isRemoved : removed = childReturned s w parent child)
    (finished : finishReturn s w parent child = (t, res)) :
    res = none ∧ t.fibers = removed.fibers ∨
      res = some parent ∧ t.fibers = removed.fibers.sync w parent := by
  rcases finishReturn_eq real isRemoved finished with
    ⟨-, rfl, rfl⟩ | ⟨-, -, rfl, rfl⟩
  · exact .inl ⟨rfl, rfl⟩
  · have isReal : ((removed.modifyWorker w
        ({ · with provablyGoodSteal := true })).core.nodes
          parent).simulatedStolen = false := by
      rw [core_modifyWorker, isRemoved, core_childReturned]
      exact real
    refine .inr ⟨rfl, ?_⟩
    rw [fibers_resumeMaps, closureMakeReady, fibers_closureSetStatus,
      fibers_setupForSync isReal, fibers_modifyWorker rfl]

section Promotion

variable {victim cl res fuel : ℕ} {parent : ℕ}

/-- The thief gets a fiber of its own, and leaves the other one to the child. -/
theorem fibers_extractedItself (different : cl ≠ s.created) :
    (extractedItself s victim cl (some x)).fibers =
      (((s.fibers.take x).setFiberChild s.created none).setFiber s.created
        (s.fibers.fiber cl)).setFiber cl (some x) := by
  apply Fibers.ext
  case fiber =>
    funext c
    simp only [State.fibers, extractedItself, Fibers.setFiber,
      Fibers.setFiberChild, Fibers.take, Function.update_apply]
    grind
  case fiberChild =>
    funext c
    simp only [State.fibers, extractedItself, Fibers.setFiber,
      Fibers.setFiberChild, Fibers.take, Function.update_apply]
    grind
  case fiberToFree =>
    funext v
    simp only [State.fibers, extractedItself, extracted, Fibers.setFiber,
      Fibers.setFiberChild, Fibers.take, Function.update_apply]
    grind
  all_goals rfl

theorem fibers_extractedCallee :
    (extractedCallee s victim cl (some x)).fibers =
      ((((s.fibers.take x).setFiberChild s.created none).setFiberChild
        (s.created + 1) none).setFiber (s.created + 1)
          (s.fibers.fiber cl)).setFiber s.created (some x) := by
  apply Fibers.ext
  case fiber =>
    funext c
    simp only [State.fibers, extractedCallee, Fibers.setFiber,
      Fibers.setFiberChild, Fibers.take, Function.update_apply]
    grind
  case fiberChild =>
    funext c
    simp only [State.fibers, extractedCallee, Fibers.setFiber,
      Fibers.setFiberChild, Fibers.take, Function.update_apply]
    grind
  case fiberToFree =>
    funext v
    simp only [State.fibers, extractedCallee, extracted, Fibers.setFiber,
      Fibers.setFiberChild, Fibers.take, Function.update_apply]
    grind
  all_goals rfl

theorem fibers_readyParent (parent : ℕ) :
    (readyParent s parent).fibers = s.fibers := by
  rw [readyParent, closureMakeReady, fibers_closureSetStatus,
    fibers_modifyFrameOf]

/-- The frames between are on the fiber of the victim. -/
def Fibers.promote (b : Fibers) (cl : ℕ) (closures : List ℕ) : Fibers :=
  { b with
    fiber := fun c => if c ∈ closures then b.fiber cl else b.fiber c
    fiberChild := fun c => if c ∈ closures then none else b.fiberChild c }

theorem StackletPromoted.fibers {oldest : ℕ} {path closures : List ℕ}
    (chain : StackletPromoted s t cl res oldest path closures) :
    t.fibers = s.fibers.promote cl closures := by
  have fields (c : ℕ) : (t.closures c).fiber = (if c ∈ closures then
        (s.closures cl).fiber else (s.closures c).fiber) ∧
      (t.closures c).fiberChild =
        if c ∈ closures then none else (s.closures c).fiberChild := by
    by_cases isBetween : c ∈ closures
    · obtain ⟨_, _, _, made⟩ := chain.made c isBetween
      rw [if_pos isBetween, if_pos isBetween, made]
      exact ⟨rfl, rfl⟩
    rw [if_neg isBetween, if_neg isBetween]
    by_cases isCl : c = cl
    · obtain ⟨_, older⟩ := chain.older
      rw [isCl, older]
      exact ⟨rfl, rfl⟩
    by_cases isRes : c = res
    · obtain ⟨_, younger⟩ := chain.younger
      rw [isRes, younger]
      exact ⟨rfl, rfl⟩
    · rw [chain.kept c isBetween isCl isRes]
      exact ⟨rfl, rfl⟩
  apply Fibers.ext
  case fiber => exact funext fun c => (fields c).1
  case fiberChild => exact funext fun c => (fields c).2
  case fiberToFree =>
    funext v
    exact congrArg Worker.fiberToFree (congrFun chain.rest.workers v)
  case pool => exact chain.rest.pool
  case mapped => exact chain.rest.mapped
  case unmapped => exact chain.rest.unmapped
  case taken => exact chain.rest.taken
  case returned => exact chain.rest.returned

end Promotion

end Changed

end Multicilk.Scheduler
