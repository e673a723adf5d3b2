import Multicilk.Scheduler.Extraction
import Multicilk.Scheduler.Operations
import Multicilk.Scheduler.Stacklet

/-!
# The closure tree and the deques

Where a closure is and what state it is in does not depend on frames, fibers and
reducer maps.  Below is what every operation does to the rest.
-/

namespace Multicilk.Scheduler

/-- The fields of a closure that link it to others, and what state it is in. -/
@[ext] structure Node where
  status : ClosureStatus := .preInvalid
  hasCilkCallee : Bool := false
  simulatedStolen : Bool := false
  joinCounter : ℕ := 0
  callee : Option ℕ := none
  callParent : Option ℕ := none
  spawnParent : Option ℕ := none
  leftSib : Option ℕ := none
  rightSib : Option ℕ := none
  rightMostChild : Option ℕ := none

def Closure.node {M : Type*} (c : Closure M) : Node where
  status := c.status
  hasCilkCallee := c.hasCilkCallee
  simulatedStolen := c.simulatedStolen
  joinCounter := c.joinCounter
  callee := c.callee
  callParent := c.callParent
  spawnParent := c.spawnParent
  leftSib := c.leftSib
  rightSib := c.rightSib
  rightMostChild := c.rightMostChild

@[ext] structure Core where
  nodes : ℕ → Node
  created : ℕ
  deques : ℕ → List ℕ

def State.core {M : Type*} (s : State M) : Core where
  nodes := fun c => (s.closures c).node
  created := s.created
  deques := s.deques

/-- The closure has been created and not been destroyed. -/
def Node.Live (node : Node) : Prop :=
  node.status ≠ .preInvalid ∧ node.status ≠ .postInvalid

variable {M : Type*} {s t : State M} {w c d : ℕ}

section Unchanged

theorem core_modifyClosure {change : Closure M → Closure M}
    (same : (change (s.closures c)).node = (s.closures c).node) :
    (s.modifyClosure c change).core = s.core := by
  apply Core.ext
  case nodes =>
    funext d
    by_cases isChanged : d = c
    · subst isChanged
      simpa [State.core, State.modifyClosure_apply] using same
    · simp [State.core, State.modifyClosure_apply, isChanged]
  all_goals rfl

@[simp] theorem core_modifyFrame (change : StackFrame → StackFrame) (f : ℕ) :
    (s.modifyFrame f change).core = s.core := rfl

@[simp] theorem core_modifyFrameOf (change : StackFrame → StackFrame)
    (frame : Option ℕ) : (s.modifyFrameOf frame change).core = s.core := by
  cases frame <;> rfl

@[simp] theorem core_modifyWorker (change : Worker M → Worker M) :
    (s.modifyWorker w change).core = s.core := rfl

@[simp] theorem core_enterFrame : (enterFrame s w).core = s.core := rfl

@[simp] theorem core_detach (sf : ℕ) : (detach s w sf).core = s.core := by
  unfold detach
  cases (s.frames sf).callParent <;> rfl

@[simp] theorem core_spawn (t : ℕ) : (spawn s w t).core = s.core := by
  simp [spawn]

@[simp] theorem core_popFrame (sf : ℕ) : (popFrame s w sf).core = s.core := rfl

@[simp] theorem core_leaveDetached (sf : ℕ) :
    (leaveDetached s w sf).core = s.core := rfl

@[simp] theorem core_resetExceptionPointer :
    (resetExceptionPointer s w).core = s.core := rfl

@[simp] theorem core_freeFiber : (freeFiber s w).core = s.core := by
  unfold freeFiber
  cases (s.workers w).fiberToFree <;> rfl

@[simp] theorem core_longjmpToUserCode (t : ℕ) :
    (longjmpToUserCode s w t).core = s.core := by
  unfold longjmpToUserCode
  split
  · rfl
  · split <;> simp

@[simp] theorem core_setupForSync (t : ℕ) :
    (setupForSync s w t).core = s.core := by
  rw [setupForSync, core_modifyClosure rfl, core_modifyFrameOf]
  split
  · rfl
  · rw [core_modifyClosure rfl, core_modifyWorker]

@[simp] theorem core_reducerIteration [Monoid M] (parent child : ℕ) :
    (reducerIteration s w parent child).core = s.core := by
  simp only [reducerIteration, core_modifyWorker, storeLeftRmap]
  split <;> rw [core_modifyClosure rfl, core_modifyClosure rfl]

@[simp] theorem core_resumeMaps [Monoid M] (parent : ℕ) :
    (resumeMaps s w parent).core = s.core := by
  simp only [resumeMaps]
  split
  · rw [core_modifyWorker, core_modifyClosure rfl, core_modifyClosure rfl]
  · rw [core_modifyWorker, core_modifyClosure rfl]

@[simp] theorem core_storeLeftRmap (parent child : ℕ) (map : Option M) :
    (storeLeftRmap s parent child map).core = s.core := by
  unfold storeLeftRmap
  split <;> rw [core_modifyClosure rfl]

@[simp] theorem core_returnFiber (parent child : ℕ) :
    (returnFiber s parent child).core = s.core := by
  rw [returnFiber, core_modifyClosure rfl]
  split
  · cases (s.closures child).fiber <;> rfl
  · rw [core_modifyClosure rfl]

end Unchanged

def Node.hasChildren (node : Node) : Bool :=
  node.hasCilkCallee || node.joinCounter != 0

def Core.modify (core : Core) (c : ℕ) (change : Node → Node) : Core :=
  { core with nodes := Function.update core.nodes c (change (core.nodes c)) }

def Core.setStatus (core : Core) (c : ℕ) (status : ClosureStatus) : Core :=
  core.modify c ({ · with status := status })

def Core.setDeque (core : Core) (w : ℕ) (deque : List ℕ) : Core :=
  { core with deques := Function.update core.deques w deque }

section Changed

theorem Core.modify_apply (core : Core) (change : Node → Node) :
    (core.modify c change).nodes d =
      if d = c then change (core.nodes c) else core.nodes d :=
  Function.update_apply ..

theorem Core.setStatus_nodes (core : Core) (status : ClosureStatus) :
    (core.setStatus c status).nodes d = { core.nodes d with
      status := if d = c then status else (core.nodes d).status } := by
  rw [Core.setStatus, Core.modify_apply]
  split
  · subst d
    rfl
  · rfl

theorem Core.setStatus_self (core : Core) (c : ℕ) :
    core.setStatus c (core.nodes c).status = core := by
  apply Core.ext
  case nodes => exact Function.update_eq_self c core.nodes
  all_goals rfl

theorem Core.setDeque_self (core : Core) (w : ℕ) :
    core.setDeque w (core.deques w) = core := by
  apply Core.ext
  case deques => exact Function.update_eq_self w core.deques
  all_goals rfl

/-- A change of a closure that says nothing about the rest changes the node
alone. -/
theorem core_modifyClosure_node {change : Closure M → Closure M}
    (nodeChange : Node → Node)
    (acts : (change (s.closures c)).node = nodeChange (s.closures c).node) :
    (s.modifyClosure c change).core = s.core.modify c nodeChange := by
  apply Core.ext
  case nodes =>
    funext d
    simp only [State.core, State.modifyClosure_apply, Core.modify,
      Function.update_apply]
    split
    · exact acts
    · rfl
  all_goals rfl

theorem core_closureSetStatus (status : ClosureStatus) :
    (closureSetStatus s c status).core = s.core.setStatus c status :=
  core_modifyClosure_node _ rfl

theorem core_dequeXtractBottom : (dequeXtractBottom s w).core =
    s.core.setDeque w (s.core.deques w).dropLast := rfl

theorem core_dequeXtractTop : (dequeXtractTop s w).core =
    s.core.setDeque w (s.core.deques w).tail := rfl

theorem core_dequeAddBottom : (dequeAddBottom s c w).core =
    s.core.setDeque w (s.core.deques w ++ [c]) := rfl

theorem core_setupForExecution (t : ℕ) :
    (setupForExecution s w t).core = s.core.setStatus t .running := by
  simp [setupForExecution, core_closureSetStatus]

theorem cilkExceptionHandler_cases {stolen : Bool}
    (handled : cilkExceptionHandler s w c = (t, stolen)) :
    (s.workers w).head ≤ (s.workers w).tail ∧ stolen = false ∧
      t.core = s.core ∨
    (s.workers w).tail < (s.workers w).head ∧ stolen = true ∧
      t.core = if (s.closures c).status = .running then
        s.core.setStatus c .returning else s.core := by
  obtain ⟨reset, isReset⟩ : ∃ reset, reset = resetExceptionPointer s w :=
    ⟨_, rfl⟩
  have sameCore : reset.core = s.core := isReset ▸ rfl
  have sameClosures : reset.closures = s.closures := isReset ▸ rfl
  have sameHead : (reset.workers w).head = (s.workers w).head := by
    simp [isReset, resetExceptionPointer]
  have sameTail : (reset.workers w).tail = (s.workers w).tail := by
    simp [isReset, resetExceptionPointer]
  simp only [cilkExceptionHandler, ← isReset, sameHead, sameTail,
    sameClosures] at handled
  split at handled
  case isTrue past =>
    refine .inr ⟨past, ?_⟩
    split at handled
    case isTrue running =>
      cases handled
      rw [if_pos running, core_closureSetStatus, sameCore]
      exact ⟨rfl, rfl⟩
    case isFalse notRunning =>
      cases handled
      rw [if_neg notRunning]
      exact ⟨rfl, sameCore⟩
  case isFalse notPast =>
    cases handled
    exact .inl ⟨not_lt.mp notPast, rfl, sameCore⟩

theorem freeFiber_closures : (freeFiber s w).closures = s.closures := by
  unfold freeFiber
  cases (s.workers w).fiberToFree <;> rfl

theorem cilkSync_cases [Monoid M] {ready : Bool}
    (real : (s.core.nodes c).simulatedStolen = false)
    (synced : cilkSync s w c = (t, ready)) :
    (s.closures c).hasChildren = false ∧ ready = true ∧ t.core = s.core ∨
    (s.closures c).hasChildren = true ∧ ready = false ∧
      t.core = (s.core.setStatus c .suspended).setDeque w
        (s.deques w).dropLast := by
  simp only [cilkSync, freeFiber_closures] at synced
  split at synced
  case isTrue has =>
    cases synced
    refine .inr ⟨has, rfl, ?_⟩
    rw [core_modifyClosure rfl, closureSuspend, core_dequeXtractBottom,
      core_modifyFrameOf, core_closureSetStatus, core_modifyWorker,
      core_modifyClosure rfl, core_modifyWorker, core_freeFiber]
    rfl
  case isFalse hasNot =>
    cases synced
    refine .inl ⟨by simpa using hasNot, rfl, ?_⟩
    have sameNode : ((setupForSync (freeFiber s w) w c).core).nodes c =
        s.core.nodes c := by
      rw [core_setupForSync, core_freeFiber]
    have kept : ({ (setupForSync (freeFiber s w) w c).closures c with
        childRmap := none, simulatedStolen := false }).node =
          ((setupForSync (freeFiber s w) w c).closures c).node := by
      apply Node.ext
      case simulatedStolen =>
        exact (congrArg Node.simulatedStolen sameNode |>.trans real).symm
      all_goals rfl
    rw [core_modifyWorker, core_modifyClosure kept, core_setupForSync,
      core_freeFiber]

end Changed

section Returns

/-- A called frame has returned to its caller. -/
def Core.setReturn (core : Core) (w t callParent : ℕ) : Core :=
  { core with
    nodes := fun c =>
      if c = callParent then { core.nodes c with
        status := .running, hasCilkCallee := false, callee := none }
      else if c = t then { core.nodes c with status := .postInvalid }
      else core.nodes c
    deques := Function.update core.deques w
      ((core.deques w).dropLast ++ [callParent]) }

theorem core_closureDestroy (destroyer : Destroyer) :
    (closureDestroy s destroyer c).core = s.core.setStatus c .postInvalid :=
  core_closureSetStatus .postInvalid

theorem core_setupCallParentResumption :
    (setupCallParentResumption s w c).core = s.core.setStatus c .running := by
  simp [setupCallParentResumption, core_closureSetStatus]

theorem core_closureRemoveCallee : (closureRemoveCallee s c).core =
    s.core.modify c ({ · with hasCilkCallee := false, callee := none }) :=
  core_modifyClosure_node _ rfl

theorem core_cilkSetReturn {callParent : ℕ} (different : c ≠ callParent) :
    (cilkSetReturn s w c callParent).core =
      s.core.setReturn w c callParent := by
  rw [cilkSetReturn, core_dequeAddBottom, core_closureDestroy,
    core_setupCallParentResumption, core_closureRemoveCallee,
    core_modifyClosure rfl, core_modifyClosure rfl, core_dequeXtractBottom]
  apply Core.ext
  case nodes =>
    funext d
    simp only [Core.setDeque, Core.setStatus, Core.modify, Core.setReturn,
      Function.update_apply]
    grind
  case created => rfl
  case deques =>
    simp [Core.setDeque, Core.setStatus, Core.modify, Core.setReturn]

/-- The siblings of a closure are linked to each other. -/
def Core.unlinkChild (core : Core) (child : ℕ) : Core :=
  { core with
    nodes := fun c => { core.nodes c with
      leftSib :=
        if c = child then none
        else if (core.nodes child).rightSib = some c then
          (core.nodes child).leftSib
        else (core.nodes c).leftSib
      rightSib :=
        if c = child then none
        else if (core.nodes child).leftSib = some c then
          (core.nodes child).rightSib
        else (core.nodes c).rightSib } }

theorem core_unlinkChild (child : ℕ) :
    (unlinkChild s child).core = s.core.unlinkChild child := by
  have setLeft (t : State M) (d : ℕ) (sib : Option ℕ) :
      (t.modifyClosure d ({ · with leftSib := sib })).core =
        t.core.modify d ({ · with leftSib := sib }) :=
    core_modifyClosure_node _ rfl
  have setRight (t : State M) (d : ℕ) (sib : Option ℕ) :
      (t.modifyClosure d ({ · with rightSib := sib })).core =
        t.core.modify d ({ · with rightSib := sib }) :=
    core_modifyClosure_node _ rfl
  have clear (t : State M) :
      (t.modifyClosure child ({ · with leftSib := none, rightSib := none
        })).core = t.core.modify child
          ({ · with leftSib := none, rightSib := none }) :=
    core_modifyClosure_node _ rfl
  have left : (s.core.nodes child).leftSib = (s.closures child).leftSib := rfl
  have right : (s.core.nodes child).rightSib = (s.closures child).rightSib :=
    rfl
  apply Core.ext
  case nodes =>
    funext c
    cases isLeft : (s.closures child).leftSib <;>
      cases isRight : (s.closures child).rightSib
    all_goals
      rw [isLeft] at left
      rw [isRight] at right
      simp only [unlinkChild, isLeft, isRight, clear, setLeft, setRight,
        Core.modify_apply, Core.unlinkChild, left, right]
      apply Node.ext <;> grind
  all_goals
    unfold unlinkChild
    cases (s.closures child).leftSib <;>
      cases (s.closures child).rightSib <;> rfl

/-- A spawned child has returned to its parent. -/
def Core.removeChild (core : Core) (parent child : ℕ) : Core :=
  { core with
    nodes := fun c => { (core.unlinkChild child).nodes c with
      status := if c = child then .postInvalid else (core.nodes c).status
      joinCounter :=
        if c = parent then (core.nodes c).joinCounter - 1
        else (core.nodes c).joinCounter
      rightMostChild :=
        if c = parent ∧ (core.nodes c).rightMostChild = some child then
          (core.nodes child).leftSib
        else (core.nodes c).rightMostChild } }

theorem core_removeChild (parent child : ℕ) :
    ((closureDestroy (closureRemoveChild s parent child) .closureReturn
      child).modifyClosure parent
        fun c => { c with joinCounter := c.joinCounter - 1 }).core =
      s.core.removeChild parent child := by
  rw [core_modifyClosure_node
    (fun node => { node with joinCounter := node.joinCounter - 1 }) rfl,
    core_closureDestroy, closureRemoveChild, core_unlinkChild]
  have rightMost : (s.core.nodes parent).rightMostChild =
      (s.closures parent).rightMostChild := rfl
  have leftSib : (s.core.nodes child).leftSib = (s.closures child).leftSib :=
    rfl
  split
  case isTrue found =>
    rw [core_modifyClosure_node
      ({ · with rightMostChild := (s.closures child).leftSib }) rfl]
    apply Core.ext
    case nodes =>
      funext c
      simp only [Core.setStatus, Core.modify_apply, Core.unlinkChild,
        Core.removeChild]
      apply Node.ext <;> grind
    all_goals rfl
  case isFalse notFound =>
    apply Core.ext
    case nodes =>
      funext c
      simp only [Core.setStatus, Core.modify_apply, Core.unlinkChild,
        Core.removeChild]
      apply Node.ext <;> grind
    all_goals rfl

theorem finishReturn_cases [Monoid M] {parent child : ℕ} {res : Option ℕ}
    (real : (s.core.nodes parent).simulatedStolen = false)
    (different : child ≠ parent)
    (finished : finishReturn s w parent child = (t, res)) :
    (((s.core.removeChild parent child).nodes parent).hasChildren = false ∧
      (s.core.nodes parent).status = .suspended ∧ res = some parent ∧
      t.core = (s.core.removeChild parent child).setStatus parent .ready) ∨
    (¬ (((s.core.removeChild parent child).nodes parent).hasChildren = false ∧
        (s.core.nodes parent).status = .suspended) ∧ res = none ∧
      t.core = s.core.removeChild parent child) := by
  obtain ⟨removed, isRemoved⟩ : ∃ removed, removed =
      (closureDestroy (closureRemoveChild (returnFiber ((storeLeftRmap s parent
        child (s.workers w).reducerMap).modifyWorker w
          ({ · with reducerMap := none })) parent child) parent child)
        .closureReturn child).modifyClosure parent
          fun c => { c with joinCounter := c.joinCounter - 1 } := ⟨_, rfl⟩
  have removedCore : removed.core = s.core.removeChild parent child := by
    rw [isRemoved, core_removeChild, core_returnFiber, core_modifyWorker,
      core_storeLeftRmap]
  have nodeOf : (removed.closures parent).node =
      (s.core.removeChild parent child).nodes parent := by
    rw [← removedCore]
    rfl
  have sameReal : (removed.closures parent).simulatedStolen = false :=
    (congrArg Node.simulatedStolen nodeOf).trans real
  have sameStatus : (removed.closures parent).status =
      (s.core.nodes parent).status :=
    (congrArg Node.status nodeOf).trans (if_neg different.symm)
  have sameHas : (removed.closures parent).hasChildren =
      ((s.core.removeChild parent child).nodes parent).hasChildren :=
    congrArg Node.hasChildren nodeOf
  simp only [finishReturn, ← isRemoved, sameReal, Bool.false_eq_true,
    if_false, provablyGoodStealMaybe, sameStatus, sameHas] at finished
  by_cases resumes :
      ((s.core.removeChild parent child).nodes parent).hasChildren = false ∧
        (s.core.nodes parent).status = .suspended
  · rw [if_pos resumes] at finished
    cases finished
    refine .inl ⟨resumes.1, resumes.2, rfl, ?_⟩
    rw [core_resumeMaps, closureMakeReady, core_closureSetStatus,
      core_setupForSync, core_modifyWorker, removedCore]
  · rw [if_neg resumes] at finished
    cases finished
    exact .inr ⟨resumes, rfl, removedCore⟩

end Returns

section Steals

/-- A spawned child of the closure is made. -/
def Core.addChild (core : Core) (parent : ℕ) : Core :=
  { core with
    nodes := fun c =>
      if c = core.created then {
        status := .running, spawnParent := some parent
        leftSib := (core.nodes parent).rightMostChild }
      else if c = parent then { core.nodes parent with
        rightMostChild := some core.created
        joinCounter := (core.nodes parent).joinCounter + 1 }
      else if (core.nodes parent).rightMostChild = some c then
        { core.nodes c with rightSib := some core.created }
      else core.nodes c
    created := core.created + 1 }

/-- A running callee of the closure is made, and the closure is suspended. -/
def Core.addTempCallee (core : Core) (cl : ℕ) : Core :=
  { core with
    nodes := fun c =>
      if c = core.created then
        { status := .running, callParent := some cl }
      else if c = cl then { core.nodes cl with
        status := .suspended, hasCilkCallee := true }
      else core.nodes c
    created := core.created + 1 }

theorem core_promoteSpawnChild {victim parent : ℕ}
    (allocated : parent < s.created) (siblings : SiblingsAllocated s parent) :
    (promoteSpawnChild s victim parent).core = (s.core.addChild parent).setDeque
      victim (s.core.deques victim ++ [s.core.created]) := by
  rw [promoteSpawnChild_eq allocated siblings]
  apply Core.ext
  case nodes =>
    funext c
    simp only [State.core, Core.addChild, Core.setDeque]
    grind [Closure.node]
  all_goals rfl

theorem core_closureCreate : (closureCreate s).core = { s.core with
    nodes := Function.update s.core.nodes s.core.created {}
    created := s.core.created + 1 } := by
  apply Core.ext
  case nodes =>
    funext c
    simp only [State.core, closureCreate, Function.update_apply]
    split <;> rfl
  all_goals rfl

@[simp] theorem core_setStolen (frame : ℕ) :
    (setStolen s frame).core = s.core := rfl

@[simp] theorem core_recordOrigRsp (parent frame : ℕ) :
    (recordOrigRsp s parent frame).core = s.core :=
  core_modifyClosure rfl

@[simp] theorem core_takeFiber (fiber : Option ℕ) :
    (takeFiber s fiber).core = s.core := by
  cases fiber <;> rfl

theorem promoteSpawnParent_cases {victim cl : ℕ} {parent : ℕ}
    {res : Option ℕ} (allocated : cl < s.created)
    (promoted : promoteSpawnParent s victim cl = (t, parent, res)) :
    parent = cl ∧ res = none ∧ t.core = s.core ∨
    parent = s.core.created ∧ res = some s.core.created ∧
      t.core = (s.core.addTempCallee cl).setDeque victim
        (s.core.deques victim).dropLast := by
  simp only [promoteSpawnParent] at promoted
  split at promoted
  case isTrue found =>
    cases promoted
    exact .inl ⟨rfl, rfl, rfl⟩
  case isFalse notFound =>
    split at promoted
    case isTrue trivialFrame =>
      cases promoted
      refine .inl ⟨rfl, rfl, ?_⟩
      rw [core_setStolen, core_modifyClosure rfl]
    case isFalse longer =>
      cases promoted
      refine .inr ⟨rfl, rfl, ?_⟩
      rw [closureSuspendVictim, core_dequeXtractBottom, core_closureSetStatus,
        closureAddTempCallee,
        core_modifyClosure_node ({ · with hasCilkCallee := true }) rfl,
        core_modifyClosure_node ({ · with callParent := some cl }) rfl,
        core_closureSetStatus, core_setStolen, core_modifyClosure rfl,
        core_closureCreate]
      have created : s.created = s.core.created := rfl
      have different : cl ≠ s.core.created := Nat.ne_of_lt allocated
      apply Core.ext
      case nodes =>
        funext c
        simp only [Core.setDeque, Core.setStatus, Core.modify_apply,
          Core.addTempCallee, Function.update_apply, created]
        grind
      all_goals rfl

theorem extractTopSpawningClosure_cases {victim cl res : ℕ}
    {fiber : Option ℕ} (allocated : cl < s.created)
    (siblings : SiblingsAllocated s cl)
    (extracted : extractTopSpawningClosure s victim cl fiber = (t, res)) :
    res = cl ∧ t.core = (s.core.addChild cl).setDeque victim
      (s.core.deques victim ++ [s.core.created]).tail ∨
    res = s.core.created ∧
      t.core = ((s.core.addTempCallee cl).addChild s.core.created).setDeque
        victim ((s.core.deques victim).dropLast ++ [s.core.created + 1]) := by
  obtain ⟨⟨promoted, parent, found⟩, isPromoted⟩ : ∃ result,
    promoteSpawnParent s victim cl = result := ⟨_, rfl⟩
  obtain ⟨recorded, isRecorded⟩ : ∃ recorded, recorded =
    recordOrigRsp promoted parent (frameToSteal s victim) := ⟨_, rfl⟩
  have recordedCore : recorded.core = promoted.core := by
    rw [isRecorded, core_recordOrigRsp]
  have parentOf : (recorded.closures parent).rightMostChild =
      (promoted.core.nodes parent).rightMostChild := by
    rw [← recordedCore]
    rfl
  have createdOf : recorded.created = promoted.core.created := by
    rw [← recordedCore]
    rfl
  simp only [extractTopSpawningClosure, promoteChild, isPromoted,
    ← isRecorded] at extracted
  rcases promoteSpawnParent_cases allocated isPromoted with
    ⟨rfl, rfl, core⟩ | ⟨rfl, rfl, core⟩
  · rw [core] at parentOf createdOf
    have allocatedThere : parent < recorded.created :=
      createdOf.symm ▸ allocated
    have siblingsThere : SiblingsAllocated recorded parent := by
      intro sibling youngest
      rw [createdOf]
      exact siblings sibling (parentOf.symm.trans youngest)
    have child := @core_promoteSpawnChild _ _ victim _ allocatedThere
      siblingsThere
    rw [recordedCore, core] at child
    cases extracted
    refine .inl ⟨rfl, ?_⟩
    rw [core_modifyClosure rfl, core_modifyClosure rfl, core_takeFiber,
      core_dequeXtractTop, child]
    simp [Core.setDeque, Core.addChild]
  · rw [core] at parentOf createdOf
    have noneOf : (recorded.closures s.core.created).rightMostChild = none := by
      rw [parentOf]
      simp [Core.setDeque, Core.addTempCallee]
    have allocatedThere : s.core.created < recorded.created := by
      rw [createdOf]
      exact Nat.lt_succ_self _
    have siblingsThere : SiblingsAllocated recorded s.core.created := by
      intro sibling youngest
      cases noneOf.symm.trans youngest
    have child := @core_promoteSpawnChild _ _ victim _ allocatedThere
      siblingsThere
    rw [recordedCore, core] at child
    cases extracted
    refine .inr ⟨rfl, ?_⟩
    rw [core_modifyClosure rfl, core_modifyClosure rfl, core_takeFiber,
      child]
    simp [Core.setDeque, Core.addChild, Core.addTempCallee]

theorem closureStealTop_some {victim fiber cl res : ℕ}
    (stolen : closureStealTop s victim fiber = some (t, cl, res)) :
    dequePeekTop s victim = some cl ∧ (s.core.nodes cl).status = .running ∧
      doDekkerOn s victim = true ∧
      extractTopSpawningClosure (incrementExceptionPointer s victim) victim cl
        (some fiber) = (t, res) := by
  rw [closureStealTop] at stolen
  obtain ⟨top, found, taken⟩ := Option.bind_eq_some_iff.mp stolen
  split at taken
  case isFalse gone => cases taken
  case isTrue can =>
    cases taken
    exact ⟨found, can.1, can.2, rfl⟩

theorem closureStealTop_cases {victim fiber cl res : ℕ}
    (stolen : closureStealTop s victim fiber = some (t, cl, res))
    (allocated : cl < s.created) (siblings : SiblingsAllocated s cl) :
    res = cl ∧ t.core = (s.core.addChild cl).setDeque victim
      (s.core.deques victim ++ [s.core.created]).tail ∨
    res = s.core.created ∧
      t.core = ((s.core.addTempCallee cl).addChild s.core.created).setDeque
        victim ((s.core.deques victim).dropLast ++ [s.core.created + 1]) :=
  @extractTopSpawningClosure_cases _ (incrementExceptionPointer s victim) t
    victim cl res (some fiber) allocated siblings
    (closureStealTop_some stolen).2.2.2

/-- What the rest of the promotion makes of the tree: suspended closures between
the caller and the stolen closure, which is ready from now on. -/
structure Core.Chained (core made : Core) (cl res : ℕ)
    (closures : List ℕ) : Prop where
  nodup : closures.Nodup
  fresh : ∀ c ∈ closures, core.created ≤ c ∧ c < made.created
  created : core.created ≤ made.created
  count : made.created = core.created + closures.length
  deques : made.deques = core.deques
  linked : (res :: (closures ++ [cl])).IsChain fun callee caller =>
    (made.nodes callee).callParent = some caller ∧
      (made.nodes caller).callee = some callee
  between : ∀ c ∈ closures, ∃ callParent callee, made.nodes c =
    { status := .suspended, hasCilkCallee := true, callParent, callee }
  older : ∃ callee, made.nodes cl =
    { core.nodes cl with callee, hasCilkCallee := true }
  younger : ∃ callParent, made.nodes res =
    { core.nodes res with status := .ready, callParent := some callParent }
  kept : ∀ c, c ∉ closures → c ≠ cl → c ≠ res → made.nodes c = core.nodes c

theorem core_readyParent (parent : ℕ) :
    (readyParent s parent).core = s.core.setStatus parent .ready := by
  rw [readyParent, closureMakeReady, core_closureSetStatus, core_modifyFrameOf]

/-- The links of the promoted closures do not depend on their frames. -/
theorem StackletPromoted.chained {cl res oldest : ℕ} {promoted : State M}
    {path closures : List ℕ}
    (chain : StackletPromoted s promoted cl res oldest path closures)
    (stolenAllocated : res < s.created) (different : res ≠ cl) :
    s.core.Chained (readyParent promoted res).core cl res closures := by
  have nodeOf (c : ℕ) : (readyParent promoted res).core.nodes c =
      if c = res then { promoted.core.nodes c with status := .ready }
      else promoted.core.nodes c := by
    rw [core_readyParent, Core.setStatus, Core.modify_apply]
    split
    · subst c
      rfl
    · rfl
  have notBetween : res ∉ closures := fun member =>
    absurd stolenAllocated (not_lt.mpr (chain.fresh res member).1)
  have createdOf : (readyParent promoted res).core.created =
      promoted.created := by
    rw [core_readyParent]
    rfl
  constructor
  case nodup => exact chain.nodup
  case fresh =>
    rw [createdOf]
    exact chain.fresh
  case created =>
    rw [createdOf, chain.created]
    exact Nat.le_add_right _ _
  case count =>
    rw [createdOf, chain.created, chain.frameOf.length_eq]
    rfl
  case deques =>
    rw [core_readyParent]
    exact chain.rest.deques
  case linked =>
    refine chain.linked.imp fun callee caller links => ?_
    rw [nodeOf, nodeOf]
    constructor
    · split <;> exact links.1
    · split <;> exact links.2.1
  case between =>
    intro c member
    obtain ⟨frame, callParent, callee, made⟩ := chain.made c member
    refine ⟨callParent, callee, ?_⟩
    rw [nodeOf, if_neg (fun isRes : c = res => notBetween (isRes ▸ member))]
    exact congrArg Closure.node made
  case older =>
    obtain ⟨callee, made⟩ := chain.older
    refine ⟨callee, ?_⟩
    rw [nodeOf, if_neg different.symm]
    exact congrArg Closure.node made
  case younger =>
    obtain ⟨callParent, made⟩ := chain.younger
    refine ⟨callParent, ?_⟩
    rw [nodeOf, if_pos rfl]
    exact congrArg (fun c : Closure M => { c.node with status := .ready })
      made
  case kept =>
    intro c notIn notOlder notYounger
    rw [nodeOf, if_neg notYounger]
    exact congrArg Closure.node (chain.kept c notIn notOlder notYounger)

theorem finishPromote_cases {fuel cl res : ℕ}
    (finished : finishPromote s fuel res (cl ≠ res) = some t)
    (caller : cl ≠ res → (s.core.nodes res).callParent = some cl)
    (allocated : cl < s.created) (stolenAllocated : res < s.created) :
    cl = res ∧ t.core = s.core.setStatus res .ready ∨
    cl ≠ res ∧ ∃ closures, s.core.Chained t.core cl res closures := by
  rw [finishPromote] at finished
  by_cases same : cl = res
  · simp only [same, ne_eq, not_true_eq_false, decide_false, Bool.false_eq_true,
      if_false, Option.map_some, Option.some.injEq] at finished
    subst finished
    exact .inl ⟨same, core_readyParent res⟩
  · simp only [same, ne_eq, not_false_eq_true, decide_true, if_true]
      at finished
    obtain ⟨promoted, made, rfl⟩ := Option.map_eq_some_iff.mp finished
    obtain ⟨youngest, oldest, next, path, closures, -, -, -, -, -, chain⟩ :=
      setupClosuresInStacklet_path made (caller same) allocated stolenAllocated
        (Ne.symm same)
    exact .inr ⟨same, closures, chain.chained stolenAllocated (Ne.symm same)⟩

end Steals

end Multicilk.Scheduler
