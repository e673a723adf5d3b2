import Multicilk.Scheduler.Promotion

/-!
# What the extraction of the top closure does

The thief gets either the closure at the top or a new closure for the spawning
frame.  Both cases are given as one update of the state.
-/

namespace Multicilk.Scheduler

variable {M : Type*} {s : State M} {victim cl parent child fiber : ℕ}

/-- The right-most child of the closure is an older closure. -/
def SiblingsAllocated (s : State M) (parent : ℕ) : Prop :=
  ∀ sibling, (s.closures parent).rightMostChild = some sibling →
    sibling < s.created ∧ sibling ≠ parent

theorem closureAddChild_closures (different : child ≠ parent)
    (siblings : ∀ sibling,
      (s.closures parent).rightMostChild = some sibling →
      sibling ≠ child ∧ sibling ≠ parent) (c : ℕ) :
    (closureAddChild s parent child).closures c =
      if c = child then
        { s.closures c with leftSib := (s.closures parent).rightMostChild }
      else if c = parent then
        { s.closures c with rightMostChild := some child }
      else if (s.closures parent).rightMostChild = some c then
        { s.closures c with rightSib := some child }
      else s.closures c := by
  cases youngest : (s.closures parent).rightMostChild with
  | none =>
      simp only [closureAddChild, doubleLinkChildren, youngest,
        State.modifyClosure_apply]
      grind
  | some sibling =>
      obtain ⟨notChild, notParent⟩ := siblings sibling youngest
      simp only [closureAddChild, doubleLinkChildren, youngest,
        State.modifyClosure_apply]
      grind

theorem closureAddChild_rest (s : State M) (parent child : ℕ) :
    closureAddChild s parent child =
      { s with closures := (closureAddChild s parent child).closures } := by
  unfold closureAddChild doubleLinkChildren
  cases (s.closures parent).rightMostChild <;> rfl

theorem promoteSpawnChild_eq (allocated : parent < s.created)
    (siblings : SiblingsAllocated s parent) :
    promoteSpawnChild s victim parent = { s with
      closures := fun c =>
        if c = s.created then {
          status := .running, spawnParent := some parent
          leftSib := (s.closures parent).rightMostChild }
        else if c = parent then { s.closures parent with
          rightMostChild := some s.created
          joinCounter := (s.closures parent).joinCounter + 1 }
        else if (s.closures parent).rightMostChild = some c then
          { s.closures c with rightSib := some s.created }
        else s.closures c
      created := s.created + 1
      workers := Function.update s.workers victim
        { s.workers victim with head := (s.workers victim).head + 1 }
      deques := Function.update s.deques victim
        (s.deques victim ++ [s.created]) } := by
  obtain ⟨unlinked, isUnlinked⟩ : ∃ unlinked, unlinked =
      (closureCreate s).modifyClosure s.created
        ({ · with spawnParent := some parent, status := .running }) :=
    ⟨_, rfl⟩
  have unlinkedOf (c : ℕ) : unlinked.closures c =
      if c = s.created then
        { status := .running, spawnParent := some parent }
      else s.closures c := by
    simp only [isUnlinked, State.modifyClosure_apply, closureCreate,
      Function.update_apply]
    grind
  have sameParent : unlinked.closures parent = s.closures parent := by
    rw [unlinkedOf, if_neg (Nat.ne_of_lt allocated)]
  have linked : ∀ c, (closureAddChild unlinked parent s.created).closures c =
      _ :=
    closureAddChild_closures (Nat.ne_of_gt allocated) fun sibling found =>
      have ⟨old, notParent⟩ := siblings sibling (sameParent ▸ found)
      ⟨Nat.ne_of_lt old, notParent⟩
  rw [promoteSpawnChild, ← isUnlinked, closureAddChild_rest]
  apply State.ext
  case closures =>
    funext c
    simp only [dequeAddBottom, State.modifyClosure_apply, State.modifyWorker,
      linked, unlinkedOf, if_neg (Nat.ne_of_lt allocated)]
    grind
  all_goals
    rw [isUnlinked]
    rfl

/-- The top closure is that of the spawning frame. -/
def SpawnsItself (s : State M) (victim cl : ℕ) : Prop :=
  (s.closures cl).frame = some (frameToSteal s victim) ∧
      (s.frames (frameToSteal s victim)).stolen = true ∨
    (s.closures cl).frame = none ∧
      (s.frames (frameToSteal s victim)).detached = true

/-- The top closure is that of an older frame, or of no frame yet. -/
def SpawnsInCallee (s : State M) (victim cl : ℕ) : Prop :=
  (s.closures cl).frame ≠ some (frameToSteal s victim) ∧
    (s.frames (frameToSteal s victim)).detached = false

theorem promoteSpawnParent_itself (spawns : SpawnsItself s victim cl) :
    promoteSpawnParent s victim cl = (setStolen (s.modifyClosure cl
      ({ · with frame := some (frameToSteal s victim) }))
        (frameToSteal s victim), cl, none) := by
  rcases spawns with ⟨found, stolen⟩ | ⟨noFrame, detached⟩
  · rw [promoteSpawnParent, if_pos found]
    have sameClosures : Function.update s.closures cl { s.closures cl with
        frame := some (frameToSteal s victim) } = s.closures := by
      rw [← found]
      exact Function.update_eq_self cl s.closures
    have sameFrames : Function.update s.frames (frameToSteal s victim)
        { s.frames (frameToSteal s victim) with stolen := true } =
          s.frames := by
      rw [← stolen]
      exact Function.update_eq_self (frameToSteal s victim) s.frames
    simp only [setStolen, State.modifyFrame, State.modifyClosure,
      sameClosures, sameFrames]
  · simp [promoteSpawnParent, noFrame, trivialStacklet, detached]

/-- What is the same in both cases. -/
def extracted (s : State M) (victim : ℕ) (fiber : Option ℕ) : State M :=
  { s with
    pool := (takeFiber s fiber).pool
    taken := (takeFiber s fiber).taken
    frames := (setStolen s (frameToSteal s victim)).frames
    workers := Function.update s.workers victim { s.workers victim with
      head := (s.workers victim).head + 1
      exc := (s.workers victim).exc + 1 } }

/-- The closure at the top is stolen itself. -/
def extractedItself (s : State M) (victim cl : ℕ) (fiber : Option ℕ) :
    State M :=
  { extracted s victim fiber with
    closures := fun c =>
      if c = s.created then {
        status := .running, spawnParent := some cl
        fiber := (s.closures cl).fiber
        leftSib := (s.closures cl).rightMostChild }
      else if c = cl then { s.closures cl with
        frame := some (frameToSteal s victim), fiber
        origRsp := (s.closures cl).origRsp.or
          (s.frames (frameToSteal s victim)).sp
        rightMostChild := some s.created
        joinCounter := (s.closures cl).joinCounter + 1 }
      else if (s.closures cl).rightMostChild = some c then
        { s.closures c with rightSib := some s.created }
      else s.closures c
    created := s.created + 1
    deques := Function.update s.deques victim
      (s.deques victim ++ [s.created]).tail }

/-- A new closure is stolen, for a callee of the closure at the top. -/
def extractedCallee (s : State M) (victim cl : ℕ) (fiber : Option ℕ) :
    State M :=
  { extracted s victim fiber with
    closures := fun c =>
      if c = s.created + 1 then {
        status := .running, spawnParent := some s.created
        fiber := (s.closures cl).fiber }
      else if c = s.created then {
        status := .running
        frame := some (frameToSteal s victim), fiber
        origRsp := (s.frames (frameToSteal s victim)).sp
        callParent := some cl
        rightMostChild := some (s.created + 1)
        joinCounter := 1 }
      else if c = cl then { s.closures cl with
        status := .suspended, hasCilkCallee := true }
      else s.closures c
    created := s.created + 2
    deques := Function.update s.deques victim
      ((s.deques victim).dropLast ++ [s.created + 1]) }

theorem frameToSteal_increment : frameToSteal
    (incrementExceptionPointer s victim) victim = frameToSteal s victim := by
  simp [frameToSteal, incrementExceptionPointer]

theorem takeFiber_rest (s : State M) (fiber : Option ℕ) :
    takeFiber s fiber = { s with
      pool := (takeFiber s fiber).pool, taken := (takeFiber s fiber).taken } := by
  cases fiber <;> rfl

theorem takeFiber_congr {t : State M} (pool : t.pool = s.pool)
    (taken : t.taken = s.taken) (fiber : Option ℕ) :
    (takeFiber t fiber).pool = (takeFiber s fiber).pool ∧
      (takeFiber t fiber).taken = (takeFiber s fiber).taken := by
  cases fiber <;> simp [takeFiber, cilkFiberAllocateFromPool, pool, taken]

theorem extractTop_itself (spawns : SpawnsItself s victim cl)
    (allocated : cl < s.created) (siblings : SiblingsAllocated s cl)
    (fiber : Option ℕ) :
    extractTopSpawningClosure (incrementExceptionPointer s victim) victim cl
      fiber = (extractedItself s victim cl fiber, cl) := by
  obtain ⟨raised, isRaised⟩ : ∃ raised, raised =
      incrementExceptionPointer s victim := ⟨_, rfl⟩
  have sameFrame : frameToSteal raised victim = frameToSteal s victim :=
    isRaised ▸ frameToSteal_increment
  have raisedSpawns : SpawnsItself raised victim cl := by
    rw [SpawnsItself, sameFrame, isRaised]
    exact spawns
  obtain ⟨recorded, isRecorded⟩ : ∃ recorded, recorded =
      recordOrigRsp (setStolen (raised.modifyClosure cl
        ({ · with frame := some (frameToSteal s victim) }))
          (frameToSteal s victim)) cl (frameToSteal s victim) :=
    ⟨_, rfl⟩
  have recordedOf (c : ℕ) : recorded.closures c =
      if c = cl then { s.closures cl with
        frame := some (frameToSteal s victim)
        origRsp := (s.closures cl).origRsp.or
          (s.frames (frameToSteal s victim)).sp }
      else s.closures c := by
    simp only [isRecorded, isRaised, incrementExceptionPointer,
      State.modifyWorker, recordOrigRsp, setStolen, State.modifyFrame,
      State.modifyClosure, Function.update_apply]
    grind
  have created : recorded.created = s.created := by
    rw [isRecorded, isRaised]
    rfl
  have promoted : promoteSpawnChild recorded victim cl = _ :=
    promoteSpawnChild_eq (created ▸ allocated) (by
      intro sibling found
      rw [recordedOf, if_pos rfl] at found
      rw [created]
      exact siblings sibling found)
  have different : cl ≠ s.created := Nat.ne_of_lt allocated
  have sameClosures : raised.closures = s.closures := isRaised ▸ rfl
  rw [← isRaised, extractTopSpawningClosure, promoteChild,
    promoteSpawnParent_itself raisedSpawns, sameFrame]
  simp only [← isRecorded, promoted, created, sameClosures]
  rw [takeFiber_rest]
  apply Prod.ext
  · apply State.ext
    case closures =>
      funext c
      simp only [State.modifyClosure_apply, dequeXtractTop, recordedOf,
        extractedItself]
      grind
    case pool =>
      exact (takeFiber_congr (by rw [isRecorded, isRaised]; rfl)
        (by rw [isRecorded, isRaised]; rfl) fiber).1
    case taken =>
      exact (takeFiber_congr (by rw [isRecorded, isRaised]; rfl)
        (by rw [isRecorded, isRaised]; rfl) fiber).2
    all_goals
      simp [isRecorded, isRaised, incrementExceptionPointer,
        State.modifyWorker, recordOrigRsp, setStolen, State.modifyFrame,
        State.modifyClosure, dequeXtractTop, extractedItself, extracted]
  · rfl

theorem extractTop_callee (spawns : SpawnsInCallee s victim cl)
    (allocated : cl < s.created) (fiber : Option ℕ) :
    extractTopSpawningClosure (incrementExceptionPointer s victim) victim cl
      fiber = (extractedCallee s victim cl fiber, s.created) := by
  have different : cl ≠ s.created := Nat.ne_of_lt allocated
  obtain ⟨raised, isRaised⟩ : ∃ raised, raised =
      incrementExceptionPointer s victim := ⟨_, rfl⟩
  have sameFrame : frameToSteal raised victim = frameToSteal s victim :=
    isRaised ▸ frameToSteal_increment
  have noFrame : (raised.closures cl).frame ≠ some (frameToSteal s victim) :=
    isRaised ▸ spawns.1
  have attached : (raised.frames (frameToSteal s victim)).detached = false :=
    isRaised ▸ spawns.2
  have sameCreated : raised.created = s.created := isRaised ▸ rfl
  obtain ⟨parented, isParented⟩ : ∃ parented, parented =
      (promoteSpawnParent raised victim cl).1 := ⟨_, rfl⟩
  have parent : promoteSpawnParent raised victim cl =
      (parented, s.created, some s.created) := by
    rw [isParented, promoteSpawnParent, sameFrame]
    simp [noFrame, trivialStacklet, attached, sameCreated]
  obtain ⟨recorded, isRecorded⟩ : ∃ recorded, recorded =
      recordOrigRsp parented s.created (frameToSteal s victim) := ⟨_, rfl⟩
  have recordedOf (c : ℕ) : recorded.closures c =
      if c = s.created then {
        status := .running, frame := some (frameToSteal s victim)
        origRsp := (s.frames (frameToSteal s victim)).sp
        callParent := some cl }
      else if c = cl then { s.closures cl with
        status := .suspended, hasCilkCallee := true }
      else s.closures c := by
    simp only [isRecorded, isParented, promoteSpawnParent, sameFrame,
      if_neg noFrame, trivialStacklet, attached, sameCreated, recordOrigRsp,
      closureSuspendVictim, dequeXtractBottom, closureAddTempCallee,
      closureSetStatus, setStolen, State.modifyFrame, State.modifyClosure,
      closureCreate, Function.update_apply]
    simp only [isRaised, incrementExceptionPointer, State.modifyWorker]
    grind
  have rest : recorded = { extracted s victim fiber with
      closures := recorded.closures
      created := s.created + 1
      workers := raised.workers
      deques := Function.update s.deques victim (s.deques victim).dropLast
      pool := s.pool
      taken := s.taken } := by
    simp only [isRecorded, isParented, promoteSpawnParent, sameFrame,
      if_neg noFrame, trivialStacklet, attached, recordOrigRsp,
      closureSuspendVictim, dequeXtractBottom, closureAddTempCallee,
      closureSetStatus, setStolen, State.modifyFrame, State.modifyClosure,
      closureCreate, extracted]
    simp [isRaised, incrementExceptionPointer, State.modifyWorker, spawns.2]
  have created : recorded.created = s.created + 1 := by rw [rest]
  have promoted : promoteSpawnChild recorded victim s.created = _ :=
    promoteSpawnChild_eq (by omega) (by
      intro sibling found
      rw [recordedOf, if_pos rfl] at found
      cases found)
  have sameClosures : raised.closures = s.closures := isRaised ▸ rfl
  rw [← isRaised, extractTopSpawningClosure, promoteChild, parent, sameFrame]
  simp only [← isRecorded, promoted, created, sameClosures]
  rw [takeFiber_rest]
  apply Prod.ext
  · apply State.ext
    case closures =>
      funext c
      simp only [State.modifyClosure_apply, recordedOf, extractedCallee]
      grind
    case pool =>
      exact (takeFiber_congr (by rw [rest]) (by rw [rest]) fiber).1
    case taken =>
      exact (takeFiber_congr (by rw [rest]) (by rw [rest]) fiber).2
    all_goals
      rw [rest]
      simp [isRaised, incrementExceptionPointer, State.modifyWorker,
        State.modifyClosure, extractedCallee, extracted]
  · rfl

section Ready

variable (s : State M) (parent : ℕ)

theorem readyParent_closures (c : ℕ) : (readyParent s parent).closures c =
    if c = parent then { s.closures parent with status := .ready }
    else s.closures c := by
  cases found : (s.closures parent).frame <;>
    simp [readyParent, found, closureMakeReady, closureSetStatus,
      State.modifyClosure_apply, State.modifyFrameOf, State.modifyFrame]

/-- The closures differ in their status only. -/
theorem readyParent_same (c : ℕ) : (readyParent s parent).closures c =
    { s.closures c with
      status := ((readyParent s parent).closures c).status } := by
  rw [readyParent_closures]
  split
  · subst c
    rfl
  · rfl

theorem readyParent_frames {frame : ℕ}
    (found : (s.closures parent).frame = some frame) (f : ℕ) :
    (readyParent s parent).frames f =
      if f = frame then { s.frames f with unsynched := true }
      else s.frames f := by
  simp only [readyParent, found, closureMakeReady, closureSetStatus,
    State.modifyClosure, State.modifyFrameOf, State.modifyFrame,
    Function.update_apply]
  grind

/-- Only the frame and the status are changed. -/
theorem readyParent_rest : readyParent s parent = { s with
    closures := (readyParent s parent).closures
    frames := (readyParent s parent).frames } := by
  cases found : (s.closures parent).frame <;>
    simp [readyParent, found, closureMakeReady, closureSetStatus,
      State.modifyClosure, State.modifyFrameOf, State.modifyFrame]

end Ready

section Top

variable (top : dequePeekTop s victim = some cl)
  (running : (s.closures cl).status = .running)
  (dekker : (s.workers victim).head < (s.workers victim).tail)
  (allocated : cl < s.created)

include top running dekker allocated

theorem closureStealTop_itself (spawns : SpawnsItself s victim cl)
    (siblings : SiblingsAllocated s cl) :
    closureStealTop s victim fiber =
      some (extractedItself s victim cl (some fiber), cl, cl) := by
  simp [closureStealTop, top, running, doDekkerOn, dekker,
    extractTop_itself spawns allocated siblings]

theorem closureStealTop_callee (spawns : SpawnsInCallee s victim cl) :
    closureStealTop s victim fiber =
      some (extractedCallee s victim cl (some fiber), cl, s.created) := by
  simp [closureStealTop, top, running, doDekkerOn, dekker,
    extractTop_callee spawns allocated]

end Top

end Multicilk.Scheduler
