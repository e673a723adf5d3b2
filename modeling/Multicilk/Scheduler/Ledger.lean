import Multicilk.Scheduler.Frames.Stacks

/-!
# The reducer maps and the destroyed closures

Below is what every operation does to the maps that closures hold, and which
closures it destroys.
-/

namespace Multicilk.Scheduler

/-- The places for reducer maps in a closure. -/
@[ext] structure Maps (M : Type*) where
  child : Option M := none
  right : Option M := none
  user : Option M := none

@[ext] structure Ledger (M : Type*) where
  maps : ℕ → Maps M
  destroyed : List (Destruction M)

variable {M : Type*} {s t : State M} {w v c d f : ℕ}

def Closure.maps (c : Closure M) : Maps M where
  child := c.childRmap
  right := c.rightRmap
  user := c.userRmap

def State.ledger (s : State M) : Ledger M where
  maps := fun c => (s.closures c).maps
  destroyed := s.destroyed

def Ledger.modify (ledger : Ledger M) (c : ℕ) (change : Maps M → Maps M) :
    Ledger M :=
  { ledger with maps := Function.update ledger.maps c (change (ledger.maps c)) }

theorem Ledger.modify_maps (ledger : Ledger M) (change : Maps M → Maps M) :
    (ledger.modify c change).maps d =
      if d = c then change (ledger.maps c) else ledger.maps d :=
  Function.update_apply ..

section Unchanged

theorem ledger_modifyClosure_maps {change : Closure M → Closure M}
    (mapsChange : Maps M → Maps M)
    (acts : (change (s.closures c)).maps = mapsChange (s.closures c).maps) :
    (s.modifyClosure c change).ledger = s.ledger.modify c mapsChange := by
  apply Ledger.ext
  case maps =>
    funext d
    rw [Ledger.modify_maps]
    simp only [State.ledger, State.modifyClosure_apply]
    split
    · exact acts
    · rfl
  case destroyed => rfl

theorem ledger_modifyClosure {change : Closure M → Closure M}
    (same : (change (s.closures c)).maps = (s.closures c).maps) :
    (s.modifyClosure c change).ledger = s.ledger := by
  rw [ledger_modifyClosure_maps id same]
  apply Ledger.ext
  case maps => exact Function.update_eq_self c s.ledger.maps
  case destroyed => rfl

@[simp] theorem ledger_modifyFrameOf (change : StackFrame → StackFrame)
    (frame : Option ℕ) : (s.modifyFrameOf frame change).ledger = s.ledger := by
  cases frame <;> rfl

@[simp] theorem ledger_modifyWorker (change : Worker M → Worker M) :
    (s.modifyWorker w change).ledger = s.ledger := rfl

@[simp] theorem ledger_closureSetStatus (status : ClosureStatus) :
    (closureSetStatus s c status).ledger = s.ledger :=
  ledger_modifyClosure rfl

@[simp] theorem ledger_spawn (t : ℕ) : (spawn s w t).ledger = s.ledger := by
  have entered (u : State M) : (enterFrame u w).ledger = u.ledger := rfl
  have detached (u : State M) (sf : ℕ) : (detach u w sf).ledger = u.ledger := by
    unfold detach
    cases (u.frames sf).callParent <;> rfl
  rw [spawn, detached, entered, ledger_modifyFrameOf]

@[simp] theorem ledger_freeFiber : (freeFiber s w).ledger = s.ledger := by
  unfold freeFiber
  cases (s.workers w).fiberToFree <;> rfl

@[simp] theorem ledger_longjmpToUserCode (t : ℕ) :
    (longjmpToUserCode s w t).ledger = s.ledger := by
  unfold longjmpToUserCode
  split
  · rfl
  · split
    · rfl
    · exact ledger_modifyFrameOf ..

@[simp] theorem ledger_setupForExecution (t : ℕ) :
    (setupForExecution s w t).ledger = s.ledger := by
  simp [setupForExecution, resetExceptionPointer]

theorem ledger_cilkExceptionHandler {stolen : Bool}
    (handled : cilkExceptionHandler s w c = (t, stolen)) :
    t.ledger = s.ledger := by
  simp only [cilkExceptionHandler] at handled
  split at handled
  · split at handled <;> cases handled
    · exact ledger_closureSetStatus _
    · rfl
  · cases handled
    rfl

@[simp] theorem ledger_setupForSync (t : ℕ) :
    (setupForSync s w t).ledger = s.ledger := by
  rw [setupForSync, ledger_modifyClosure rfl, ledger_modifyFrameOf]
  split
  · rfl
  · rw [ledger_modifyClosure rfl, ledger_modifyWorker]

@[simp] theorem ledger_returnFiber (parent child : ℕ) :
    (returnFiber s parent child).ledger = s.ledger := by
  rw [returnFiber, ledger_modifyClosure rfl]
  split
  · cases (s.closures child).fiber <;> rfl
  · exact ledger_modifyClosure rfl

@[simp] theorem ledger_closureRemoveChild (parent child : ℕ) :
    (closureRemoveChild s parent child).ledger = s.ledger := by
  have unlinked (u : State M) : (unlinkChild u child).ledger = u.ledger := by
    simp only [unlinkChild]
    rw [ledger_modifyClosure rfl]
    cases (u.closures child).leftSib <;> cases (u.closures child).rightSib
    · rfl
    · exact ledger_modifyClosure rfl
    · exact ledger_modifyClosure rfl
    · exact (ledger_modifyClosure rfl).trans (ledger_modifyClosure rfl)
  rw [closureRemoveChild, unlinked]
  split
  · exact ledger_modifyClosure rfl
  · rfl

end Unchanged

section Changed

theorem ledger_closureDestroy (destroyer : Destroyer) :
    (closureDestroy s destroyer c).ledger = { s.ledger with
      destroyed := ⟨c, destroyer, s.closures c⟩ :: s.ledger.destroyed } := by
  have sameLedger : (closureSetStatus s c .postInvalid).ledger = s.ledger :=
    ledger_closureSetStatus .postInvalid
  have sameMaps := congrArg Ledger.maps sameLedger
  apply Ledger.ext
  case maps => exact sameMaps
  case destroyed => rfl

theorem core_closureRemoveChild_self {parent child : ℕ}
    (different : child ≠ parent) :
    (closureRemoveChild s parent child).core.nodes child =
      { s.core.nodes child with leftSib := none, rightSib := none } := by
  rw [closureRemoveChild, core_unlinkChild]
  simp only [Core.unlinkChild, if_pos]
  split
  · simp [State.core, State.modifyClosure_apply, different]
  · rfl

theorem ledger_setUser (map : Option M) :
    (s.modifyClosure c ({ · with userRmap := map })).ledger =
      s.ledger.modify c ({ · with user := map }) :=
  ledger_modifyClosure_maps _ rfl

theorem ledger_setChild (map : Option M) :
    (s.modifyClosure c ({ · with childRmap := map })).ledger =
      s.ledger.modify c ({ · with child := map }) :=
  ledger_modifyClosure_maps _ rfl

theorem ledger_setRight (map : Option M) :
    (s.modifyClosure c ({ · with rightRmap := map })).ledger =
      s.ledger.modify c ({ · with right := map }) :=
  ledger_modifyClosure_maps _ rfl

variable [Monoid M]

/-- A sync that succeeds takes the maps of the children, and one that fails
leaves the map of the frame. -/
theorem ledger_cilkSync {ready : Bool} (synced : cilkSync s w c = (t, ready)) :
    ∃ map, t.ledger = s.ledger.modify c fun maps =>
      if ready then { maps with child := none }
      else { maps with user := map } := by
  simp only [cilkSync] at synced
  split at synced
  · cases synced
    have extracted (u : State M) : (dequeXtractBottom u w).ledger = u.ledger :=
      rfl
    refine ⟨?map, ?left⟩
    case left =>
      rw [ledger_setUser, closureSuspend, extracted, ledger_modifyFrameOf,
        ledger_closureSetStatus, ledger_modifyWorker, ledger_modifyClosure rfl,
        ledger_modifyWorker, ledger_freeFiber]
      rfl
  · cases synced
    refine ⟨none, ?_⟩
    rw [ledger_modifyWorker, ledger_modifyClosure_maps
      (fun maps => { maps with child := none }) rfl, ledger_setupForSync,
      ledger_freeFiber]
    rfl

omit [Monoid M] in
theorem ledger_storeLeftRmap (parent child : ℕ) (map : Option M) :
    (storeLeftRmap s parent child map).ledger =
      match (s.closures child).leftSib with
      | some sibling => s.ledger.modify sibling ({ · with right := map })
      | none => s.ledger.modify parent ({ · with child := map }) := by
  unfold storeLeftRmap
  cases (s.closures child).leftSib with
  | some sibling => exact ledger_setRight map
  | none => exact ledger_setChild map

theorem ledger_reducerIteration (parent child : ℕ) :
    (reducerIteration s w parent child).ledger =
      (storeLeftRmap (s.modifyClosure child ({ · with rightRmap := none }))
        parent child none).ledger := rfl

theorem ledger_resumeMaps {parent : ℕ}
    (real : (s.core.nodes parent).simulatedStolen = false) :
    (resumeMaps s w parent).ledger = s.ledger.modify parent
      ({ · with child := none, user := none }) := by
  have isReal : ((s.modifyClosure parent ({ · with
      childRmap := none, userRmap := none })).closures
        parent).simulatedStolen = false := by
    rw [State.modifyClosure_apply, if_pos rfl]
    exact real
  simp only [resumeMaps, isReal, Bool.false_eq_true, if_false,
    ledger_modifyWorker]
  exact ledger_modifyClosure_maps _ rfl

omit [Monoid M] in
/-- The caller and the frame of the worker are changed before the callee is
destroyed. -/
theorem ledger_cilkSetReturn {caller : ℕ} (different : c ≠ caller) :
    ∃ contents : Closure M,
      contents.node = s.core.nodes c ∧ contents.maps = s.ledger.maps c ∧
      (cilkSetReturn s w c caller).ledger = { s.ledger with
        destroyed := ⟨c, .cilkSetReturn, contents⟩ :: s.ledger.destroyed } := by
  obtain ⟨left, isLeft⟩ : ∃ left, left = setupCallParentResumption
      (closureRemoveCallee (((dequeXtractBottom s w).modifyClosure c
        ({ · with frame := none })).modifyClosure c
          ({ · with fiber := none })) caller) w caller := ⟨_, rfl⟩
  have sameLedger : left.ledger = s.ledger := by
    rw [isLeft, setupCallParentResumption, resetExceptionPointer,
      ledger_modifyWorker, ledger_modifyFrameOf, ledger_closureSetStatus,
      closureRemoveCallee, ledger_modifyClosure rfl, ledger_modifyClosure rfl,
      ledger_modifyClosure rfl]
    rfl
  have sameNode : left.core.nodes c = s.core.nodes c := by
    rw [isLeft, core_setupCallParentResumption, core_closureRemoveCallee,
      core_modifyClosure rfl, core_modifyClosure rfl, core_dequeXtractBottom]
    simp [Core.setStatus, Core.modify_apply, different, Core.setDeque]
  refine ⟨left.closures c, sameNode,
    congrArg (fun ledger : Ledger M => ledger.maps c) sameLedger, ?_⟩
  rw [cilkSetReturn, ← isLeft, ← sameLedger]
  exact ledger_closureDestroy ..

omit [Monoid M] in
/-- The child has no siblings any more when it is destroyed. -/
theorem ledger_childReturned {parent child : ℕ} (different : child ≠ parent) :
    ∃ contents : Closure M, contents.node =
        { s.core.nodes child with leftSib := none, rightSib := none } ∧
      contents.maps =
        (storeLeftRmap s parent child
          (s.workers w).reducerMap).ledger.maps child ∧
      (childReturned s w parent child).ledger =
        { (storeLeftRmap s parent child (s.workers w).reducerMap).ledger with
          destroyed := ⟨child, .closureReturn, contents⟩ ::
            s.ledger.destroyed } := by
  obtain ⟨left, isLeft⟩ : ∃ left, left = closureRemoveChild (returnFiber
      ((storeLeftRmap s parent child (s.workers w).reducerMap).modifyWorker w
        ({ · with reducerMap := none })) parent child) parent child :=
    ⟨_, rfl⟩
  have sameLedger : left.ledger = (storeLeftRmap s parent child
      (s.workers w).reducerMap).ledger := by
    rw [isLeft, ledger_closureRemoveChild, ledger_returnFiber,
      ledger_modifyWorker]
  have sameNode : left.core.nodes child =
      { s.core.nodes child with leftSib := none, rightSib := none } := by
    rw [isLeft, core_closureRemoveChild_self different, core_returnFiber,
      core_modifyWorker, core_storeLeftRmap]
  have sameLog : (storeLeftRmap s parent child
      (s.workers w).reducerMap).ledger.destroyed = s.ledger.destroyed := by
    rw [ledger_storeLeftRmap]
    split <;> rfl
  refine ⟨left.closures child, sameNode,
    congrArg (fun ledger : Ledger M => ledger.maps child) sameLedger, ?_⟩
  rw [childReturned, ← isLeft, ledger_modifyClosure rfl, ledger_closureDestroy,
    sameLedger, sameLog]

/-- The maps are taken from the parent when it is resumed. -/
theorem ledger_finishReturn {removed : State M} {parent child : ℕ}
    {res : Option ℕ} (real : (s.core.nodes parent).simulatedStolen = false)
    (isRemoved : removed = childReturned s w parent child)
    (finished : finishReturn s w parent child = (t, res)) :
    res = none ∧ t.ledger = removed.ledger ∨
      res = some parent ∧ t.ledger = removed.ledger.modify parent
        ({ · with child := none, user := none }) := by
  rcases finishReturn_eq real isRemoved finished with
    ⟨-, rfl, rfl⟩ | ⟨-, -, rfl, rfl⟩
  · exact .inl ⟨rfl, rfl⟩
  · refine .inr ⟨rfl, ?_⟩
    rw [ledger_resumeMaps, closureMakeReady, ledger_closureSetStatus,
      ledger_setupForSync, ledger_modifyWorker]
    rw [closureMakeReady, core_closureSetStatus, Core.setStatus_nodes,
      core_setupForSync, core_modifyWorker, isRemoved, core_childReturned]
    exact real

section Promotion

variable {victim cl res fuel : ℕ} {fiber : Option ℕ}

omit [Monoid M]

/-- New closures have no maps. -/
theorem ledger_extractedItself :
    (extractedItself s victim cl fiber).ledger = { s.ledger with
      maps := Function.update s.ledger.maps s.created {} } := by
  apply Ledger.ext
  case maps =>
    funext c
    simp only [State.ledger, extractedItself, Function.update_apply]
    split
    · rfl
    · split
      case isTrue same => rw [same]; rfl
      case isFalse => split <;> rfl
  case destroyed => rfl

theorem ledger_extractedCallee :
    (extractedCallee s victim cl fiber).ledger = { s.ledger with
      maps := Function.update (Function.update s.ledger.maps s.created {})
        (s.created + 1) {} } := by
  apply Ledger.ext
  case maps =>
    funext c
    simp only [State.ledger, extractedCallee, Function.update_apply]
    split
    · rfl
    · split
      · rfl
      · split
        case isTrue same => rw [same]; rfl
        case isFalse => rfl
  case destroyed => rfl

theorem ledger_readyParent (parent : ℕ) :
    (readyParent s parent).ledger = s.ledger := by
  rw [readyParent, closureMakeReady, ledger_closureSetStatus,
    ledger_modifyFrameOf]

theorem StackletPromoted.ledger {oldest : ℕ} {path closures : List ℕ}
    (chain : StackletPromoted s t cl res oldest path closures) :
    t.ledger = { s.ledger with
      maps := fun c => if c ∈ closures then {} else s.ledger.maps c } := by
  apply Ledger.ext
  case maps =>
    funext c
    simp only [State.ledger]
    by_cases isBetween : c ∈ closures
    · obtain ⟨_, _, _, made⟩ := chain.made c isBetween
      rw [if_pos isBetween, made]
      rfl
    rw [if_neg isBetween]
    by_cases isCl : c = cl
    · obtain ⟨_, older⟩ := chain.older
      rw [isCl, older]
      rfl
    by_cases isRes : c = res
    · obtain ⟨_, younger⟩ := chain.younger
      rw [isRes, younger]
      rfl
    · rw [chain.kept c isBetween isCl isRes]
  case destroyed => exact chain.rest.destroyed

/-- A promotion stores no map. -/
theorem ledger_finishPromote
    (finished : finishPromote s fuel res (cl ≠ res) = some t)
    (caller : cl ≠ res → (s.closures res).callParent = some cl)
    (allocated : cl < s.created) (stolenAllocated : res < s.created) :
    t.destroyed = s.destroyed ∧ ∀ c,
      t.ledger.maps c = s.ledger.maps c ∨ t.ledger.maps c = {} := by
  have destroyed (u v : State M) (same : u.ledger.destroyed =
    v.ledger.destroyed) : u.destroyed = v.destroyed := same
  rw [finishPromote] at finished
  by_cases same : cl = res
  · simp only [same, ne_eq, not_true_eq_false, decide_false, Bool.false_eq_true,
      if_false, Option.map_some, Option.some.injEq] at finished
    subst finished
    have ledger := ledger_readyParent (s := s) res
    exact ⟨destroyed _ _ (by rw [ledger]), fun c => .inl (by rw [ledger])⟩
  · rw [if_pos (decide_eq_true same)] at finished
    obtain ⟨promoted, made, rfl⟩ := Option.map_eq_some_iff.mp finished
    obtain ⟨_, _, _, _, closures, -, -, -, -, -, chain⟩ :=
      setupClosuresInStacklet_path made (caller same) allocated
        stolenAllocated (Ne.symm same)
    have ledger := (ledger_readyParent (s := promoted) res).trans chain.ledger
    refine ⟨destroyed _ _ (by rw [ledger]), fun c => ?_⟩
    rw [ledger]
    by_cases isBetween : c ∈ closures
    · exact .inr (if_pos isBetween)
    · exact .inl (if_neg isBetween)

end Promotion

end Changed

end Multicilk.Scheduler
