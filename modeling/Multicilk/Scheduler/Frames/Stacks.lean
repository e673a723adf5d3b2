import Multicilk.Scheduler.Moves

/-!
# The frames and the shadow stacks

Which frame belongs to a closure, and which frames a worker is in, does not
depend on fibers and reducer maps.  Below is what every operation does to the
frames and to the shadow stacks.
-/

namespace Multicilk.Scheduler

/-- The fields of a worker that say in which frames it is. -/
@[ext] structure Stack where
  shadowStack : ℕ → ℕ
  head : ℕ
  tail : ℕ
  exc : ℕ
  currentStackFrame : Option ℕ

@[ext] structure Stacks where
  /-- The frames of the closures. -/
  frameOf : ℕ → Option ℕ
  /-- Without the workers and the stack pointers. -/
  frames : ℕ → StackFrame
  entered : ℕ
  workers : ℕ → Stack

variable {M : Type*} {s t : State M} {w c f : ℕ}

def Worker.stack (v : Worker M) : Stack where
  shadowStack := v.shadowStack
  head := v.head
  tail := v.tail
  exc := v.exc
  currentStackFrame := v.currentStackFrame

def StackFrame.flags (frame : StackFrame) : StackFrame :=
  { frame with worker := none, sp := none }

def State.stacks (s : State M) : Stacks where
  frameOf := fun c => (s.closures c).frame
  frames := fun f => (s.frames f).flags
  entered := s.entered
  workers := fun w => (s.workers w).stack

namespace Stacks

def modifyFrame (k : Stacks) (f : ℕ) (change : StackFrame → StackFrame) :
    Stacks :=
  { k with frames := Function.update k.frames f (change (k.frames f)) }

def modifyFrameOf (k : Stacks) (frame : Option ℕ)
    (change : StackFrame → StackFrame) : Stacks :=
  match frame with
  | some f => k.modifyFrame f change
  | none => k

def modifyWorker (k : Stacks) (w : ℕ) (change : Stack → Stack) : Stacks :=
  { k with workers := Function.update k.workers w (change (k.workers w)) }

theorem modifyFrame_frames (k : Stacks) (change : StackFrame → StackFrame)
    (g : ℕ) : (k.modifyFrame f change).frames g =
      if g = f then change (k.frames f) else k.frames g :=
  Function.update_apply ..

@[simp] theorem modifyWorker_self (k : Stacks) (change : Stack → Stack) :
    (k.modifyWorker w change).workers w = change (k.workers w) :=
  Function.update_self ..

theorem modifyWorker_other (k : Stacks) (change : Stack → Stack) {v : ℕ}
    (other : v ≠ w) : (k.modifyWorker w change).workers v = k.workers v :=
  Function.update_of_ne other ..

end Stacks

section Returns

variable {parent child : ℕ} {res : Option ℕ}

/-- The child is destroyed, before the parent is looked at. -/
def childReturned (s : State M) (w parent child : ℕ) : State M :=
  (closureDestroy (closureRemoveChild (returnFiber ((storeLeftRmap s parent
    child (s.workers w).reducerMap).modifyWorker w
      ({ · with reducerMap := none })) parent child) parent child)
    .closureReturn child).modifyClosure parent
      fun c => { c with joinCounter := c.joinCounter - 1 }

theorem core_childReturned (parent child : ℕ) :
    (childReturned s w parent child).core = s.core.removeChild parent child := by
  rw [childReturned, core_removeChild, core_returnFiber, core_modifyWorker,
    core_storeLeftRmap]

theorem finishReturn_eq [Monoid M] {removed : State M}
    (real : (s.core.nodes parent).simulatedStolen = false)
    (isRemoved : removed = childReturned s w parent child)
    (finished : finishReturn s w parent child = (t, res)) :
    ¬ ((removed.closures parent).hasChildren = false ∧
        (removed.closures parent).status = .suspended) ∧
      res = none ∧ t = removed ∨
    (removed.closures parent).hasChildren = false ∧
      (removed.closures parent).status = .suspended ∧
      res = some parent ∧ t = resumeMaps (closureMakeReady (setupForSync
        (removed.modifyWorker w ({ · with provablyGoodSteal := true })) w
          parent) parent) w parent := by
  have isReal : (removed.closures parent).simulatedStolen = false := by
    rw [isRemoved]
    exact (congrArg (fun core : Core => (core.nodes parent).simulatedStolen)
      (core_childReturned parent child)).trans real
  rw [childReturned] at isRemoved
  simp only [finishReturn, ← isRemoved, isReal, Bool.false_eq_true, if_false,
    provablyGoodStealMaybe] at finished
  by_cases resumes : (removed.closures parent).hasChildren = false ∧
      (removed.closures parent).status = .suspended
  · rw [if_pos resumes] at finished
    cases finished
    exact .inr ⟨resumes.1, resumes.2, rfl, rfl⟩
  · rw [if_neg resumes] at finished
    cases finished
    exact .inl ⟨resumes, rfl, rfl⟩

end Returns

section Operations

theorem stacks_modifyClosure {change : Closure M → Closure M}
    (same : (change (s.closures c)).frame = (s.closures c).frame) :
    (s.modifyClosure c change).stacks = s.stacks := by
  apply Stacks.ext
  case frameOf =>
    funext d
    simp only [State.stacks, State.modifyClosure_apply]
    split
    case isTrue isChanged => rw [isChanged, same]
    case isFalse => rfl
  all_goals rfl

theorem stacks_modifyFrame {change : StackFrame → StackFrame}
    (flagChange : StackFrame → StackFrame)
    (acts : (change (s.frames f)).flags = flagChange (s.frames f).flags) :
    (s.modifyFrame f change).stacks = s.stacks.modifyFrame f flagChange := by
  apply Stacks.ext
  case frames =>
    funext g
    rw [Stacks.modifyFrame_frames]
    simp only [State.stacks, State.modifyFrame, Function.update_apply]
    split
    · exact acts
    · rfl
  all_goals rfl

theorem stacks_modifyFrame_same {change : StackFrame → StackFrame}
    (same : (change (s.frames f)).flags = (s.frames f).flags) :
    (s.modifyFrame f change).stacks = s.stacks := by
  rw [stacks_modifyFrame id same]
  apply Stacks.ext
  case frames => exact Function.update_eq_self f s.stacks.frames
  all_goals rfl

theorem stacks_modifyWorker {change : Worker M → Worker M}
    (stackChange : Stack → Stack)
    (acts : (change (s.workers w)).stack = stackChange (s.workers w).stack) :
    (s.modifyWorker w change).stacks =
      s.stacks.modifyWorker w stackChange := by
  apply Stacks.ext
  case workers =>
    funext v
    simp only [State.stacks, State.modifyWorker, Stacks.modifyWorker,
      Function.update_apply]
    split
    · exact acts
    · rfl
  all_goals rfl

theorem stacks_modifyWorker_same {change : Worker M → Worker M}
    (same : (change (s.workers w)).stack = (s.workers w).stack) :
    (s.modifyWorker w change).stacks = s.stacks := by
  rw [stacks_modifyWorker id same]
  apply Stacks.ext
  case workers => exact Function.update_eq_self w s.stacks.workers
  all_goals rfl

theorem stacks_modifyFrameOf {change : StackFrame → StackFrame}
    (flagChange : StackFrame → StackFrame)
    (acts : ∀ f, (change (s.frames f)).flags = flagChange (s.frames f).flags)
    (frame : Option ℕ) : (s.modifyFrameOf frame change).stacks =
      s.stacks.modifyFrameOf frame flagChange := by
  cases frame with
  | none => rfl
  | some f => exact stacks_modifyFrame flagChange (acts f)

theorem stacks_modifyFrameOf_same {change : StackFrame → StackFrame}
    (same : ∀ f, (change (s.frames f)).flags = (s.frames f).flags)
    (frame : Option ℕ) : (s.modifyFrameOf frame change).stacks = s.stacks := by
  cases frame with
  | none => rfl
  | some f => exact stacks_modifyFrame_same (same f)

@[simp] theorem stacks_closureSetStatus (status : ClosureStatus) :
    (closureSetStatus s c status).stacks = s.stacks :=
  stacks_modifyClosure rfl

@[simp] theorem stacks_dequeXtractBottom :
    (dequeXtractBottom s w).stacks = s.stacks := rfl

@[simp] theorem stacks_dequeAddBottom :
    (dequeAddBottom s c w).stacks = s.stacks := rfl

@[simp] theorem stacks_freeFiber : (freeFiber s w).stacks = s.stacks := by
  unfold freeFiber
  split
  · exact stacks_modifyWorker_same rfl
  · rfl

@[simp] theorem stacks_longjmpToUserCode (t : ℕ) :
    (longjmpToUserCode s w t).stacks = s.stacks := by
  unfold longjmpToUserCode
  split
  · exact stacks_modifyWorker_same rfl
  · split
    · rfl
    · exact stacks_modifyFrameOf_same (fun _ => rfl) _

@[simp] theorem stacks_storeLeftRmap (parent child : ℕ) (map : Option M) :
    (storeLeftRmap s parent child map).stacks = s.stacks := by
  unfold storeLeftRmap
  split <;> exact stacks_modifyClosure rfl

@[simp] theorem stacks_reducerIteration [Monoid M] (parent child : ℕ) :
    (reducerIteration s w parent child).stacks = s.stacks := by
  simp only [reducerIteration]
  rw [stacks_modifyWorker_same rfl, stacks_storeLeftRmap,
    stacks_modifyClosure rfl]

/-- A frame is entered. -/
def Stacks.enter (k : Stacks) (w : ℕ) : Stacks :=
  { k with
    frames := Function.update k.frames k.entered
      { callParent := (k.workers w).currentStackFrame }
    entered := k.entered + 1
    workers := Function.update k.workers w
      { k.workers w with currentStackFrame := some k.entered } }

theorem stacks_enterFrame : (enterFrame s w).stacks = s.stacks.enter w := by
  have acts : ({ s.workers w with currentStackFrame := some s.entered } :
      Worker M).stack = { (s.workers w).stack with
        currentStackFrame := some s.entered } := rfl
  apply Stacks.ext
  case frames =>
    funext f
    simp only [enterFrame, State.modifyWorker, State.stacks, Stacks.enter,
      Function.update_apply]
    split <;> rfl
  case workers =>
    funext v
    simp only [enterFrame, State.modifyWorker, State.stacks, Stacks.enter,
      Function.update_apply]
    split <;> rfl
  all_goals rfl

/-- The frame of a spawn helper is detached from that of its parent. -/
def Stacks.detach (k : Stacks) (w f parent : ℕ) : Stacks :=
  (k.modifyFrame f ({ · with detached := true })).modifyWorker w fun v =>
    { v with
      shadowStack := Function.update v.shadowStack v.tail parent
      tail := v.tail + 1 }

theorem stacks_spawn {parent : ℕ} (t : ℕ)
    (current : (s.workers w).currentStackFrame = some parent) :
    (spawn s w t).stacks =
      (s.stacks.enter w).detach w s.entered parent := by
  obtain ⟨saved, isSaved⟩ : ∃ saved, saved = s.modifyFrameOf
    (s.workers w).currentStackFrame ({ · with sp := (s.closures t).fiber }) :=
    ⟨_, rfl⟩
  have same : saved.stacks = s.stacks := by
    rw [isSaved]
    exact stacks_modifyFrameOf_same (fun _ => rfl) _
  have workers : saved.workers = s.workers := by
    rw [isSaved, workers_modifyFrameOf]
  have entered : saved.entered = s.entered := congrArg Stacks.entered same
  have link : ((enterFrame saved w).frames s.entered).callParent =
      some parent := by
    simp [enterFrame, State.modifyWorker, entered, workers, current]
  simp only [spawn, ← isSaved, detach, link]
  rw [stacks_modifyWorker (fun v => { v with
      shadowStack := Function.update v.shadowStack v.tail parent
      tail := v.tail + 1 }) rfl,
    stacks_modifyFrame ({ · with detached := true }) rfl,
    stacks_enterFrame, same]
  rfl

def Stacks.pop (k : Stacks) (w f : ℕ) : Stacks :=
  (k.modifyWorker w ({ · with
    currentStackFrame := (k.frames f).callParent })).modifyFrame f
      ({ · with callParent := none })

namespace Stacks

variable (k : Stacks)

theorem pop_self : (k.pop w f).workers w = { k.workers w with
    currentStackFrame := (k.frames f).callParent } :=
  Function.update_self ..

theorem pop_other {v : ℕ} (other : v ≠ w) :
    (k.pop w f).workers v = k.workers v :=
  Function.update_of_ne other ..

theorem pop_frames (g : ℕ) : (k.pop w f).frames g =
    if g = f then { k.frames f with callParent := none } else k.frames g :=
  Function.update_apply ..

end Stacks

theorem stacks_popFrame : (popFrame s w f).stacks = s.stacks.pop w f := by
  rw [popFrame, stacks_modifyFrame
      ({ · with callParent := none }) rfl,
    stacks_modifyWorker ({ · with
      currentStackFrame := (s.frames f).callParent }) rfl]
  rfl

def Stacks.leaveDetached (k : Stacks) (w f : ℕ) : Stacks :=
  (k.modifyWorker w fun v => { v with tail := v.tail - 1 }).modifyFrame f
    ({ · with detached := false })

namespace Stacks

variable (k : Stacks)

/-- A spawned frame is left. -/
def leaveSpawned (w f : ℕ) : Stacks :=
  (k.pop w f).leaveDetached w f

theorem leaveSpawned_self : (k.leaveSpawned w f).workers w =
    { k.workers w with
      currentStackFrame := (k.frames f).callParent
      tail := (k.workers w).tail - 1 } := by
  have left : (k.leaveSpawned w f).workers w =
      { (k.pop w f).workers w with
        tail := ((k.pop w f).workers w).tail - 1 } :=
    Function.update_self ..
  rw [left, pop_self]

theorem leaveSpawned_other {v : ℕ} (other : v ≠ w) :
    (k.leaveSpawned w f).workers v = k.workers v :=
  (Function.update_of_ne other ..).trans (k.pop_other other)

theorem leaveSpawned_frames (g : ℕ) : (k.leaveSpawned w f).frames g =
    if g = f then { k.frames f with callParent := none, detached := false }
    else k.frames g := by
  have left : (k.leaveSpawned w f).frames g =
      if g = f then { (k.pop w f).frames f with detached := false }
      else (k.pop w f).frames g :=
    Function.update_apply ..
  rw [left, pop_frames, pop_frames, if_pos rfl]
  split <;> rfl

end Stacks

theorem stacks_leaveDetached : (leaveDetached s w f).stacks =
    s.stacks.leaveDetached w f := by
  rw [leaveDetached, stacks_modifyFrame
      ({ · with detached := false }) rfl,
    stacks_modifyWorker (fun v => { v with
      tail := v.tail - 1 }) rfl]
  rfl

def Stacks.resetException (k : Stacks) (w : ℕ) : Stacks :=
  k.modifyWorker w fun v => { v with exc := v.head }

theorem stacks_resetExceptionPointer :
    (resetExceptionPointer s w).stacks = s.stacks.resetException w :=
  stacks_modifyWorker (fun v => { v with exc := v.head }) rfl

theorem stacks_cilkExceptionHandler {stolen : Bool}
    (handled : cilkExceptionHandler s w c = (t, stolen)) :
    t.stacks = s.stacks.resetException w := by
  simp only [cilkExceptionHandler] at handled
  split at handled
  · split at handled <;> cases handled
    · rw [stacks_closureSetStatus, stacks_resetExceptionPointer]
    · rw [stacks_resetExceptionPointer]
  · cases handled
    rw [stacks_resetExceptionPointer]

/-- The shadow stack is emptied. -/
def Stacks.restart (k : Stacks) (w : ℕ) (frame : Option ℕ) : Stacks :=
  k.modifyWorker w fun v => {
    shadowStack := v.shadowStack
    head := shadowStackInit
    tail := shadowStackInit
    exc := shadowStackInit
    currentStackFrame := frame }

theorem stacks_setupForExecution : (setupForExecution s w c).stacks =
    s.stacks.restart w (s.closures c).frame := by
  obtain ⟨started, isStarted⟩ : ∃ started, started = closureSetStatus
    (s.modifyFrameOf (s.closures c).frame ({ · with worker := some w })) c
      .running := ⟨_, rfl⟩
  have same : started.stacks = s.stacks := by
    rw [isStarted, stacks_closureSetStatus]
    exact stacks_modifyFrameOf_same (fun _ => rfl) _
  have frame : (started.closures c).frame = (s.closures c).frame :=
    congrFun (congrArg Stacks.frameOf same) c
  rw [setupForExecution, ← isStarted, stacks_resetExceptionPointer, frame,
    stacks_modifyWorker (fun v => { v with
      head := shadowStackInit
      tail := shadowStackInit
      currentStackFrame := (s.closures c).frame }) rfl, same]
  simp [Stacks.resetException, Stacks.restart, Stacks.modifyWorker]

/-- The flag `CILK_FRAME_UNSYNCHED` of the frame of a closure. -/
def Stacks.setUnsynched (k : Stacks) (c : ℕ) (unsynched : Bool) : Stacks :=
  k.modifyFrameOf (k.frameOf c) ({ · with unsynched := unsynched })

namespace Stacks

variable (k : Stacks) (unsynched : Bool)

@[simp] theorem setUnsynched_frameOf :
    (k.setUnsynched c unsynched).frameOf = k.frameOf := by
  rw [setUnsynched]
  cases k.frameOf c <;> rfl

@[simp] theorem setUnsynched_entered :
    (k.setUnsynched c unsynched).entered = k.entered := by
  rw [setUnsynched]
  cases k.frameOf c <;> rfl

@[simp] theorem setUnsynched_workers :
    (k.setUnsynched c unsynched).workers = k.workers := by
  rw [setUnsynched]
  cases k.frameOf c <;> rfl

theorem setUnsynched_frames (g : ℕ) :
    (k.setUnsynched c unsynched).frames g = { k.frames g with
      unsynched := if k.frameOf c = some g then unsynched
        else (k.frames g).unsynched } := by
  rw [setUnsynched]
  cases isFrame : k.frameOf c with
  | none => rfl
  | some f =>
      rw [modifyFrameOf, modifyFrame_frames]
      simp only [Option.some.injEq]
      by_cases same : g = f
      · rw [if_pos same, if_pos same.symm, same]
      · rw [if_neg same, if_neg (Ne.symm same)]

end Stacks

theorem stacks_setupForSync : (setupForSync s w c).stacks =
    s.stacks.setUnsynched c false := by
  obtain ⟨moved, isMoved⟩ : ∃ moved, moved =
      if (s.closures c).simulatedStolen then s
      else
        (s.modifyWorker w
          ({ · with fiberToFree := (s.closures c).fiber })).modifyClosure c
            fun c => { c with fiber := c.fiberChild, fiberChild := none } :=
    ⟨_, rfl⟩
  have same : moved.stacks = s.stacks := by
    rw [isMoved]
    split
    · rfl
    · rw [stacks_modifyClosure rfl, stacks_modifyWorker_same rfl]
  have frame : (moved.closures c).frame = (s.closures c).frame :=
    congrFun (congrArg Stacks.frameOf same) c
  rw [setupForSync, ← isMoved, stacks_modifyClosure rfl, frame,
    stacks_modifyFrameOf ({ · with unsynched := false })
      (fun _ => rfl), same]
  rfl

theorem stacks_cilkSync [Monoid M] {ready : Bool}
    (synced : cilkSync s w c = (t, ready)) :
    t.stacks = if ready then s.stacks.setUnsynched c false else s.stacks := by
  simp only [cilkSync] at synced
  split at synced
  · cases synced
    rw [stacks_modifyClosure rfl, closureSuspend, stacks_dequeXtractBottom,
      stacks_modifyFrameOf_same fun _ => rfl, stacks_closureSetStatus,
      stacks_modifyWorker_same rfl, stacks_modifyClosure rfl,
      stacks_modifyWorker_same rfl, stacks_freeFiber]
    rfl
  · cases synced
    rw [stacks_modifyWorker_same rfl, stacks_modifyClosure rfl,
      stacks_setupForSync, stacks_freeFiber]
    rfl

/-- The closure has no frame any more. -/
def Stacks.forget (k : Stacks) (c : ℕ) : Stacks :=
  { k with frameOf := Function.update k.frameOf c none }

theorem stacks_cilkSetReturn {caller : ℕ} :
    (cilkSetReturn s w c caller).stacks =
      (s.stacks.forget c).resetException w := by
  obtain ⟨forgotten, isForgotten⟩ : ∃ forgotten, forgotten =
      (dequeXtractBottom s w).modifyClosure c ({ · with frame := none }) :=
    ⟨_, rfl⟩
  have same : forgotten.stacks = s.stacks.forget c := by
    rw [isForgotten]
    apply Stacks.ext
    case frameOf =>
      funext d
      simp only [State.stacks, State.modifyClosure_apply, Stacks.forget,
        Function.update_apply]
      split <;> rfl
    all_goals rfl
  have returned (u : State M) : (closureDestroy (setupCallParentResumption
      (closureRemoveCallee u caller) w caller) .cilkSetReturn c).stacks =
        u.stacks.resetException w := by
    have destroyed (u : State M) :
        (closureDestroy u .cilkSetReturn c).stacks = u.stacks :=
      stacks_closureSetStatus .postInvalid
    rw [destroyed, setupCallParentResumption, stacks_resetExceptionPointer,
      stacks_modifyFrameOf_same fun _ => rfl, stacks_closureSetStatus,
      closureRemoveCallee, stacks_modifyClosure rfl]
  rw [cilkSetReturn, stacks_dequeAddBottom, ← isForgotten, returned,
    stacks_modifyClosure rfl, same]

@[simp] theorem stacks_returnFiber (parent child : ℕ) :
    (returnFiber s parent child).stacks = s.stacks := by
  rw [returnFiber, stacks_modifyClosure rfl]
  split
  · cases (s.closures child).fiber <;> rfl
  · exact stacks_modifyClosure rfl

@[simp] theorem stacks_closureRemoveChild (parent child : ℕ) :
    (closureRemoveChild s parent child).stacks = s.stacks := by
  have unlinked (u : State M) : (unlinkChild u child).stacks = u.stacks := by
    simp only [unlinkChild]
    rw [stacks_modifyClosure rfl]
    cases (u.closures child).leftSib <;> cases (u.closures child).rightSib
    · rfl
    · exact stacks_modifyClosure rfl
    · exact stacks_modifyClosure rfl
    · exact (stacks_modifyClosure rfl).trans (stacks_modifyClosure rfl)
  rw [closureRemoveChild, unlinked]
  split
  · exact stacks_modifyClosure rfl
  · rfl

@[simp] theorem stacks_resumeMaps [Monoid M] (parent : ℕ) :
    (resumeMaps s w parent).stacks = s.stacks := by
  simp only [resumeMaps]
  split
  · rw [stacks_modifyWorker_same rfl, stacks_modifyClosure rfl,
      stacks_modifyClosure rfl]
  · rw [stacks_modifyWorker_same rfl, stacks_modifyClosure rfl]

theorem stacks_childReturned (parent child : ℕ) :
    (childReturned s w parent child).stacks = s.stacks := by
  have destroyed (u : State M) :
      (closureDestroy u .closureReturn child).stacks = u.stacks :=
    stacks_closureSetStatus .postInvalid
  rw [childReturned, stacks_modifyClosure rfl, destroyed,
    stacks_closureRemoveChild, stacks_returnFiber,
    stacks_modifyWorker_same rfl, stacks_storeLeftRmap]

theorem stacks_readyParent (parent : ℕ) : (readyParent s parent).stacks =
    s.stacks.setUnsynched parent true := by
  rw [readyParent, closureMakeReady, stacks_closureSetStatus,
    stacks_modifyFrameOf ({ · with unsynched := true })
      fun _ => rfl]
  rfl

end Operations

end Multicilk.Scheduler
