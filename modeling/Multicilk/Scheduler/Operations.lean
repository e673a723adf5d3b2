import Multicilk.Scheduler.Promotion

/-!
# Running, syncing and returning

What a worker does with a closure besides stealing it: the compiled code of a
frame, the sync, the two ways to return, and the start of the execution of a
closure.
-/

namespace Multicilk.Scheduler

open Join

variable {M : Type*}

def resetExceptionPointer (s : State M) (w : ℕ) : State M :=
  s.modifyWorker w fun v => { v with exc := v.head }

/-- A worker gives back the fiber it has left. -/
def freeFiber (s : State M) (w : ℕ) : State M :=
  match (s.workers w).fiberToFree with
  | some fiber => (cilkFiberDeallocateToPool s fiber).modifyWorker w
      ({ · with fiberToFree := none })
  | none => s

section Execution

def setupForExecution (s : State M) (w t : ℕ) : State M :=
  let s := s.modifyFrameOf (s.closures t).frame ({ · with worker := some w })
  let s := closureSetStatus s t .running
  let s := s.modifyWorker w ({ · with
    head := shadowStackInit
    tail := shadowStackInit
    currentStackFrame := (s.closures t).frame })
  resetExceptionPointer s w

/-- At the start of a region the stack pointer has already been set to the
fiber of the root closure. -/
def longjmpToUserCode (s : State M) (w t : ℕ) : State M :=
  if (s.workers w).provablyGoodSteal then
    s.modifyWorker w ({ · with provablyGoodSteal := false })
  else if (s.closures t).simulatedStolen then s
  else s.modifyFrameOf (s.closures t).frame
    ({ · with sp := (s.closures t).fiber })

end Execution

section Frames

/-- `__cilkrts_enter_frame` and `__cilkrts_enter_frame_fast`. -/
def enterFrame (s : State M) (w : ℕ) : State M :=
  let sf := s.entered
  let s := { s with
    frames := Function.update s.frames sf {
      callParent := (s.workers w).currentStackFrame, worker := some w }
    entered := s.entered + 1 }
  s.modifyWorker w ({ · with currentStackFrame := some sf })

def detach (s : State M) (w sf : ℕ) : State M :=
  match (s.frames sf).callParent with
  | some parent =>
    (s.modifyFrame sf ({ · with detached := true })).modifyWorker w fun v =>
      { v with
        shadowStack := Function.update v.shadowStack v.tail parent
        tail := v.tail + 1 }
  | none => s

/-- The caller saves its stack pointer, and the spawn helper is entered and
detached. -/
def spawn (s : State M) (w t : ℕ) : State M :=
  let saved := s.modifyFrameOf (s.workers w).currentStackFrame
    ({ · with sp := (s.closures t).fiber })
  detach (enterFrame saved w) w s.entered

def popFrame (s : State M) (w sf : ℕ) : State M :=
  (s.modifyWorker w ({ · with
    currentStackFrame := (s.frames sf).callParent })).modifyFrame sf
      ({ · with callParent := none })

/-- `__cilkrts_leave_frame` of a detached frame, up to the test. -/
def leaveDetached (s : State M) (w sf : ℕ) : State M :=
  (s.modifyWorker w fun v => { v with tail := v.tail - 1 }).modifyFrame sf
    ({ · with detached := false })

/-- The test of `__cilkrts_leave_frame`. -/
def exceptionRaised (s : State M) (w : ℕ) : Bool :=
  (s.workers w).tail < (s.workers w).exc

def exitCilkifiedRoot (s : State M) (w sf : ℕ) : State M :=
  ({ s with deques := Function.update s.deques w [] }).modifyFrame sf
    ({ · with
      stolen := false, detached := false, unsynched := false, last := false })

end Frames

/-- Whether the child has been stolen from, and the worker has to go back to the
runtime. -/
def cilkExceptionHandler (s : State M) (w t : ℕ) : State M × Bool :=
  let s := resetExceptionPointer s w
  if (s.workers w).tail < (s.workers w).head then
    if (s.closures t).status = .running then
      (closureSetStatus s t .returning, true)
    else (s, true)
  else (s, false)

section Resumption

def setupForSync (s : State M) (w t : ℕ) : State M :=
  let s :=
    if (s.closures t).simulatedStolen then s
    else
      (s.modifyWorker w
        ({ · with fiberToFree := (s.closures t).fiber })).modifyClosure t
          fun c => { c with fiber := c.fiberChild, fiberChild := none }
  let s := s.modifyFrameOf (s.closures t).frame ({ · with
    unsynched := false
    sp := (s.closures t).origRsp
    worker := some w })
  s.modifyClosure t ({ · with origRsp := none })

def setupCallParentResumption (s : State M) (w t : ℕ) : State M :=
  let s := closureSetStatus s t .running
  let s := s.modifyFrameOf (s.closures t).frame ({ · with worker := some w })
  resetExceptionPointer s w

/-- The closure has been found at the bottom of the deque of the worker. -/
def cilkSetReturn (s : State M) (w t callParent : ℕ) : State M :=
  let s := dequeXtractBottom s w
  let s := s.modifyClosure t ({ · with frame := none })
  let s := s.modifyClosure t ({ · with fiber := none })
  let s := closureRemoveCallee s callParent
  let s := setupCallParentResumption s w callParent
  let s := closureDestroy s .cilkSetReturn t
  dequeAddBottom s callParent w

def unconditionalSteal (s : State M) (parent : ℕ) : State M :=
  closureMakeReady (s.modifyClosure parent fun c =>
    { c with fiber := c.fiberChild, fiberChild := none }) parent

def provablyGoodStealMaybe (s : State M) (w parent : ℕ) :
    State M × Option ℕ :=
  if (s.closures parent).hasChildren = false ∧
      (s.closures parent).status = .suspended then
    let s := s.modifyWorker w ({ · with provablyGoodSteal := true })
    (closureMakeReady (setupForSync s w parent) parent, some parent)
  else (s, none)

end Resumption

section Maps

variable [Monoid M]

/-- The compiled code has found `CILK_FRAME_UNSYNCHED`.  The result is whether
the frame may go on. -/
def cilkSync (s : State M) (w t : ℕ) : State M × Bool :=
  let s := freeFiber s w
  if (s.closures t).hasChildren then
    let s := s.modifyWorker w ({ · with fiberToFree := (s.closures t).fiber })
    let s := s.modifyClosure t ({ · with fiber := none })
    let reducers := (s.workers w).reducerMap
    let s := s.modifyWorker w ({ · with reducerMap := none })
    let s := closureSuspend s w t
    (s.modifyClosure t ({ · with userRmap := reducers }), false)
  else
    let s := setupForSync s w t
    let merged := Join.mergeTwoRmaps (s.closures t).childRmap
      (s.workers w).reducerMap
    let s := s.modifyClosure t
      ({ · with childRmap := none, simulatedStolen := false })
    (s.modifyWorker w ({ · with reducerMap := merged }), true)

/-- Where the map left of the child is: with its left sibling, or else with the
parent. -/
def leftRmap (s : State M) (parent child : ℕ) : Option M :=
  match (s.closures child).leftSib with
  | some sibling => (s.closures sibling).rightRmap
  | none => (s.closures parent).childRmap

def storeLeftRmap (s : State M) (parent child : ℕ) (map : Option M) :
    State M :=
  match (s.closures child).leftSib with
  | some sibling => s.modifyClosure sibling ({ · with rightRmap := map })
  | none => s.modifyClosure parent ({ · with childRmap := map })

/-- The locks are given back while the maps are merged. -/
def reducerIteration (s : State M) (w parent child : ℕ) : State M :=
  let left := leftRmap s parent child
  let right := (s.closures child).rightRmap
  let merged := Join.mergeTwoRmaps
    (Join.mergeTwoRmaps left (s.workers w).reducerMap) right
  let s := s.modifyClosure child ({ · with rightRmap := none })
  let s := storeLeftRmap s parent child none
  s.modifyWorker w ({ · with reducerMap := merged })

/-- The left-holder logic for stacks. -/
def returnFiber (s : State M) (parent child : ℕ) : State M :=
  let s :=
    if (s.closures child).leftSib.isSome ∨
        (s.closures parent).fiberChild.isSome then
      match (s.closures child).fiber with
      | some fiber => cilkFiberDeallocateToPool s fiber
      | none => s
    else s.modifyClosure parent
      ({ · with fiberChild := (s.closures child).fiber })
  s.modifyClosure child ({ · with fiber := none })

/-- The maps of a parent that is resumed. -/
def resumeMaps (s : State M) (w parent : ℕ) : State M :=
  let merged := Join.mergeTwoRmaps (s.closures parent).childRmap
    (s.closures parent).userRmap
  let s := s.modifyClosure parent
    ({ · with childRmap := none, userRmap := none })
  if (s.closures parent).simulatedStolen then
    (s.modifyClosure parent ({ · with childRmap := merged })).modifyWorker w
      ({ · with reducerMap := none })
  else s.modifyWorker w ({ · with reducerMap := merged })

/-- The end of `Closure_return`: there are no more maps to be merged.  The
result is the parent when it is to be executed next. -/
def finishReturn (s : State M) (w parent child : ℕ) : State M × Option ℕ :=
  let s := storeLeftRmap s parent child (s.workers w).reducerMap
  let s := s.modifyWorker w ({ · with reducerMap := none })
  let s := returnFiber s parent child
  let s := closureRemoveChild s parent child
  let s := closureDestroy s .closureReturn child
  let s := s.modifyClosure parent
    fun c => { c with joinCounter := c.joinCounter - 1 }
  let (s, res) :=
    if (s.closures parent).simulatedStolen then
      (unconditionalSteal s parent, some parent)
    else provablyGoodStealMaybe s w parent
  match res with
  | some parent => (resumeMaps s w parent, some parent)
  | none => (s, none)

end Maps

end Multicilk.Scheduler
