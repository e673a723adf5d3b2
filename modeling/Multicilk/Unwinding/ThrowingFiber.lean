import Multicilk.Unwinding.Personality

/-!
# The fiber of a throwing continuation

A parked fiber waits for the handler of its frame.  As long as every frame that
parks one stays until its handler has run, each of them is given back once.
-/

namespace Multicilk.Unwinding

open Scheduler TransitionSystem ExnMachine

section Definitions

variable {M : Type*}

/-- Where a closure with a parked fiber is.  It waits for its children, or it
has none, and a worker is about to resume it or runs landing pads of its
frame. -/
inductive Resting (m : Machine M) (c : ℕ) : Prop where
  | suspended :
      (m.sched.core.nodes c).status = .suspended →
      (m.sched.core.nodes c).hasCilkCallee = false →
      Resting m c
  | ready {w : ℕ} :
      m.pc w = .holding c →
      (m.sched.core.nodes c).status = .ready →
      (m.sched.core.nodes c).hasChildren = false →
      Resting m c
  | executing {w : ℕ} :
      m.pc w = .executing c →
      (m.sched.core.nodes c).hasChildren = false →
      (m.sched.workers w).tail ≤ (m.sched.workers w).head →
      Resting m c
  | landing {w : ℕ} :
      m.pc w = .user →
      m.sched.core.deques w = [c] →
      (m.sched.core.nodes c).hasChildren = false →
      (m.sched.workers w).tail ≤ (m.sched.workers w).head →
      Resting m c

/-- The compiled code leaves its frame, or lets it be stolen. -/
def departs : Scheduler.Action → Bool
  | .spawn _ | .leaveSpawned _ | .setReturn _ | .exit _ => true
  | _ => false

/-- No frame is left, or spawns again, while a fiber is parked in its
closure. -/
def Released (m : ExnMachine M) : Action → Prop
  | .scheduler action => departs action = true →
      ∀ w, action.worker = some w → ∀ t ∈ dequePeekBottom m.sched w,
        (m.exns t).savedThrowingFiber = none
  | .leave w => ∀ t ∈ dequePeekBottom m.sched w,
      (m.exns t).savedThrowingFiber = none
  | _ => True

structure Kept (m : ExnMachine M) : Prop where
  placed : Placed m.sched.core m.pc
  waits : m.sched.core.Waits
  resting : ∀ c, (m.exns c).savedThrowingFiber ≠ none → Resting m.toMachine c
  overwritten : m.overwritten = []
  counted : ∀ c fiber, m.parked.count (c, fiber) =
    m.freed.count (c, fiber) +
      if (m.exns c).savedThrowingFiber = some fiber then 1 else 0

end Definitions

section Places

variable {M : Type*} {m m' : Machine M} {action : Scheduler.Action}
  {w c : ℕ}

theorem Resting.carried (resting : Resting m c)
    (placed : Placed m.sched.core m.pc)
    (carries : c ∈ m.sched.core.carried m.pc w) :
    (m.sched.core.nodes c).hasChildren = false ∧
      (m.pc w = .holding c ∧ (m.sched.core.nodes c).status = .ready ∨
        m.pc w = .executing c ∧
          (m.sched.workers w).tail ≤ (m.sched.workers w).head ∨
        m.pc w = .user ∧ m.sched.core.deques w = [c] ∧
          (m.sched.workers w).tail ≤ (m.sched.workers w).head) := by
  cases resting with
  | suspended status => exact absurd carries (placed.not_carried status)
  | @ready v holds status childless =>
      obtain rfl := placed.apart v w c
        (by simp [Core.carried, holds, Pc.closures]) carries
      exact ⟨childless, .inl ⟨holds, status⟩⟩
  | @executing v executes childless empty =>
      obtain rfl := placed.apart v w c
        (by simp [Core.carried, executes, Pc.closures]) carries
      exact ⟨childless, .inr (.inl ⟨executes, empty⟩)⟩
  | @landing v isUser isDeque childless empty =>
      obtain rfl := placed.apart v w c (by simp [Core.carried, isDeque]) carries
      exact ⟨childless, .inr (.inr ⟨isUser, isDeque, empty⟩)⟩

/-- A change that leaves the closure in the same place. -/
theorem Resting.congr (resting : Resting m c)
    (core : m'.sched.core = m.sched.core) (pc : m'.pc = m.pc)
    (workers : ∀ w, ∃ fiberToFree, m'.sched.workers w =
      { m.sched.workers w with fiberToFree }) : Resting m' c := by
  cases resting with
  | suspended status noCallee =>
      exact .suspended (core ▸ status) (core ▸ noCallee)
  | ready holds status childless =>
      exact .ready (pc ▸ holds) (core ▸ status) (core ▸ childless)
  | @executing w executes childless empty =>
      obtain ⟨fiber, worker⟩ := workers w
      exact .executing (pc ▸ executes) (core ▸ childless)
        (by rw [worker]; exact empty)
  | @landing w isUser isDeque childless empty =>
      obtain ⟨fiber, worker⟩ := workers w
      exact .landing (pc ▸ isUser) (core ▸ isDeque) (core ▸ childless)
        (by rw [worker]; exact empty)

variable [Monoid M]

/-- A thief finds something on the shadow stack. -/
theorem robbed {v : ℕ} (taken : Scheduler.Step m (.steal w v) m') :
    (m.sched.workers v).head < (m.sched.workers v).tail ∧
      m.sched.core.deques v ≠ [] := by
  cases taken with
  | steal isThief other pooled top unlocked stolen =>
      have ahead := (closureStealTop_some stolen).2.2.1
      refine ⟨of_decide_eq_true ahead, fun none => ?_⟩
      have isNone : m.sched.deques v = [] := none
      simp [dequePeekTop, isNone] at top

/-- A suspended closure that becomes ready is held by the worker that has
returned to it. -/
theorem resumed (placed : Placed m.sched.core m.pc)
    (taken : Scheduler.Step m (.finishReturn w) m')
    (suspended : (m.sched.core.nodes c).status = .suspended)
    (ready : (m'.sched.core.nodes c).status = .ready) :
    m'.pc w = .holding c ∧ (m'.sched.core.nodes c).hasChildren = false := by
  cases taken with
  | @finishReturn _ child parent s res isReturning isParent unlocked unlocked'
      left right finished =>
      have different : child ≠ parent :=
        Nat.ne_of_gt (placed.kin.parent child parent isParent)
      have notChild : c ≠ child := by
        rintro rfl
        exact @Placed.not_carried _ _ w c placed suspended
          (by simp [Core.carried, isReturning, Pc.closures])
      have kept : ((m.sched.core.removeChild parent child).nodes c).status =
          .suspended := (if_neg notChild).trans suspended
      rcases finishReturn_cases (placed.kin.real parent) different finished with
        ⟨childless, -, rfl, core⟩ | ⟨-, -, core⟩
      · have isParent : c = parent := by
          by_contra other
          have status : (s.core.nodes c).status = .suspended := by
            rw [core, Core.setStatus_nodes, if_neg other]
            exact kept
          exact absurd (status.symm.trans ready) (by simp)
        subst isParent
        refine ⟨Function.update_self .., ?_⟩
        have node : (s.core.nodes c).hasChildren =
            ((m.sched.core.removeChild c child).nodes c).hasChildren := by
          rw [core, Core.setStatus_nodes]
          rfl
        exact node.trans childless
      · have status : (s.core.nodes c).status = .suspended := by
          rw [core]
          exact kept
        exact absurd (status.symm.trans ready) (by simp)

/-- A closure stays where it is while its worker does something else. -/
theorem Resting.elsewhere (resting : Resting m c)
    (placed : Placed m.sched.core m.pc) (taken : Scheduler.Step m action m')
    (away : ∀ w, action.worker = some w →
      c ∉ m.sched.core.carried m.pc w) : Resting m' c := by
  have moved := taken.coreMove placed
  have kept {v : ℕ} (carries : c ∈ m.sched.core.carried m.pc v)
      (childless : (m.sched.core.nodes c).hasChildren = false)
      (whole : m.sched.core.deques v = [] ∨
        (m.sched.workers v).tail ≤ (m.sched.workers v).head) :
      m'.pc v = m.pc v ∧ m'.sched.workers v = m.sched.workers v ∧
        m'.sched.deques v = m.sched.deques v ∧
        (m'.sched.core.nodes c).status = (m.sched.core.nodes c).status ∧
        (m'.sched.core.nodes c).hasChildren = false := by
    have other : action.worker ≠ some v := fun acts => away v acts carries
    have notVictim (w : ℕ) : action ≠ .steal w v := by
      rintro rfl
      obtain ⟨ahead, some⟩ := robbed taken
      rcases whole with none | empty
      · exact some none
      · omega
    obtain ⟨samePc, sameWorker, sameDeque⟩ :=
      taken.elsewhere placed other notVictim
    exact ⟨samePc, sameWorker, sameDeque,
      moved.carried_status placed carries other notVictim,
      moved.carried_childless placed carries notVictim childless⟩
  cases resting with
  | suspended status noCallee =>
      obtain ⟨stillNoCallee, stays | ⟨ready, w, rfl⟩⟩ :=
        moved.suspended placed status noCallee
      · exact .suspended stays stillNoCallee
      · obtain ⟨holds, childless⟩ := resumed placed taken status ready
        exact .ready holds ready childless
  | @ready v holds status childless =>
      have posture := placed.posture v
      rw [holds] at posture
      obtain ⟨pc, -, -, same, still⟩ :=
        kept (by simp [Core.carried, holds, Pc.closures]) childless
          (.inl posture.1)
      exact .ready (pc.trans holds) (same.trans status) still
  | @executing v executes childless empty =>
      obtain ⟨pc, worker, -, -, still⟩ :=
        kept (by simp [Core.carried, executes, Pc.closures]) childless
          (.inr empty)
      exact .executing (pc.trans executes) still (worker ▸ empty)
  | @landing v isUser isDeque childless empty =>
      obtain ⟨pc, worker, deque, -, still⟩ :=
        kept (by simp [Core.carried, isDeque]) childless (.inr empty)
      exact .landing (pc.trans isUser) (deque.trans isDeque) still
        (worker ▸ empty)

/-- What a worker does with a closure in which a fiber is parked. -/
theorem Resting.acting (resting : Resting m c)
    (placed : Placed m.sched.core m.pc) (taken : Scheduler.Step m action m')
    (acts : action.worker = some w) (stays : departs action = false)
    (carries : c ∈ m.sched.core.carried m.pc w) : Resting m' c := by
  obtain ⟨childless, place⟩ := resting.carried placed carries
  rcases place with ⟨holds, ready⟩ | ⟨executes, empty⟩ | ⟨isUser, isDeque, empty⟩
  · rcases taken.of_holding acts holds with ⟨-, rfl⟩ | ⟨-, returning⟩
    · refine .executing (Function.update_self ..) ?_
        (workers_setupForExecution c).le
      exact (core_setupForExecution c).symm ▸
        (congrArg Node.hasChildren (Core.setStatus_nodes ..)).trans childless
    · have status : (m.sched.core.nodes c).status = .returning := returning
      rw [ready] at status
      cases status
  · obtain ⟨-, rfl⟩ := taken.of_executing acts executes
    have posture := placed.posture w
    rw [executes] at posture
    obtain ⟨sameTail, sameHead⟩ := @workers_longjmpToUserCode _ w
      (dequeAddBottom m.sched c w) c
    have core := @core_longjmpToUserCode _ (dequeAddBottom m.sched c w) w c
    refine .landing (Function.update_self ..) ?_ ?_
      (sameTail.trans_le (empty.trans sameHead.ge))
    · exact core.symm ▸ (Function.update_self ..).trans
        (congrArg (· ++ [c]) posture.1)
    · exact core.symm ▸ childless
  · cases taken with
    | @call v | @update v | @leaveCalled v =>
        cases acts
        exact .landing (Function.update_self ..) isDeque childless
          (by simpa [Machine.goto, enterFrame, popFrame, State.modifyWorker,
            State.modifyFrame] using empty)
    | @sync v sf t s ready isUser' current unsynched bottom unlocked synced =>
        cases acts
        have isHere : m.sched.deques w = [c] := isDeque
        rw [dequePeekBottom, isHere] at bottom
        cases bottom
        rcases cilkSync_cases (placed.kin.real c) synced with
          ⟨-, rfl, core⟩ | ⟨children, -⟩
        · obtain ⟨tail, head⟩ := workers_cilkSync_self synced
          exact .landing (Function.update_self ..) (core.symm ▸ isDeque)
            (core.symm ▸ childless) (tail.trans_le (empty.trans head.ge))
        · exact absurd (children.symm.trans childless) (by simp)
    | _ => simp_all [Action.worker, departs]

end Places

section Changes

variable {M : Type*} {m m' : ExnMachine M} {w t : ℕ}

/-- A change that has nothing to do with parked fibers. -/
theorem Kept.congr (kept : Kept m) (core : m'.sched.core = m.sched.core)
    (pc : m'.pc = m.pc)
    (workers : ∀ w, ∃ fiberToFree, m'.sched.workers w =
      { m.sched.workers w with fiberToFree })
    (saved : ∀ c, (m'.exns c).savedThrowingFiber =
      (m.exns c).savedThrowingFiber)
    (logs : m'.parked = m.parked ∧ m'.freed = m.freed ∧
      m'.overwritten = m.overwritten) : Kept m' := by
  obtain ⟨parked, freed, overwritten⟩ := logs
  constructor
  case placed =>
    rw [core, pc]
    exact kept.placed
  case waits =>
    rw [core]
    exact kept.waits
  case resting =>
    intro c some
    rw [saved] at some
    exact (kept.resting c some).congr core pc workers
  case overwritten => exact overwritten.trans kept.overwritten
  case counted =>
    intro c fiber
    rw [parked, freed, saved]
    exact kept.counted c fiber

theorem Kept.switch (kept : Kept m) (mode : Mode) : Kept (m.switch w mode) :=
  kept.congr rfl rfl (fun _ => ⟨_, rfl⟩) (fun _ => rfl) ⟨rfl, rfl, rfl⟩

/-- The fields of a closure change that are not about the parked fiber. -/
theorem Kept.modifyExns {change : ClosureExns → ClosureExns} (kept : Kept m)
    (saved : (change (m.exns t)).savedThrowingFiber =
      (m.exns t).savedThrowingFiber) : Kept (m.modifyExns t change) := by
  refine kept.congr rfl rfl (fun _ => ⟨_, rfl⟩) ?_ ⟨rfl, rfl, rfl⟩
  intro c
  simp only [ExnMachine.modifyExns, Function.update_apply]
  split
  case isTrue same => exact same ▸ saved
  case isFalse => rfl

@[simp] theorem saved_takeChildExn (exns : ClosureExns) :
    exns.takeChildExn.savedThrowingFiber = exns.savedThrowingFiber := by
  unfold ClosureExns.takeChildExn
  cases exns.childExn <;> rfl

theorem Kept.park {fiber : Option ℕ} (kept : Kept m)
    (unsaved : (m.exns t).savedThrowingFiber = none)
    (suspended : (m.sched.core.nodes t).status = .suspended)
    (noCallee : (m.sched.core.nodes t).hasCilkCallee = false) :
    Kept (m.park t fiber) := by
  have self : (m.park t fiber).exns t =
      { m.exns t with savedThrowingFiber := fiber } := Function.update_self ..
  have other (c : ℕ) (notT : c ≠ t) : (m.park t fiber).exns c = m.exns c :=
    Function.update_of_ne notT ..
  constructor
  case placed => exact kept.placed
  case waits => exact kept.waits
  case resting =>
    intro c saved
    by_cases isT : c = t
    · subst isT
      exact .suspended suspended noCallee
    · rw [other c isT] at saved
      exact kept.resting c saved
  case overwritten =>
    have nothing : (m.park t fiber).overwritten = m.overwritten := by
      simp [ExnMachine.park, unsaved]
    exact nothing.trans kept.overwritten
  case counted =>
    intro c f
    have counted := kept.counted c f
    have parked : (m.park t fiber).parked.count (c, f) =
        (if t = c ∧ fiber = some f then 1 else 0) +
          m.parked.count (c, f) := by
      cases fiber with
      | none => simp [ExnMachine.park]
      | some g =>
          simp [ExnMachine.park, List.count_cons, Nat.add_comm]
    have freed : (m.park t fiber).freed = m.freed := rfl
    rw [parked, freed, counted]
    by_cases isT : c = t
    · subst isT
      rw [self, unsaved]
      simp [Nat.add_comm]
    · rw [other c isT, if_neg (fun same => isT same.1.symm), Nat.zero_add]

theorem Kept.saveContext {sf exn : ℕ} (kept : Kept m) :
    Kept (m.saveContext t sf exn) := by
  refine @Kept.congr _ (m.modifyExns t ({ · with
      parentRsp := (m.sched.closures t).origRsp
      userExn := some exn
      context := some exn })) _ (kept.modifyExns rfl) ?_ rfl
    (fun _ => ⟨_, rfl⟩) (fun _ => rfl) ⟨rfl, rfl, rfl⟩
  simp only [ExnMachine.saveContext]
  rw [core_modifyClosure rfl, core_modifyFrame]
  rfl

theorem Kept.deallocateSaved (kept : Kept m) : Kept (m.deallocateSaved t) := by
  rw [ExnMachine.deallocateSaved]
  split
  case h_1 => exact kept
  case h_2 fiber isFiber =>
    obtain ⟨freed, isFreed⟩ : ∃ freed : ExnMachine M, freed =
        { m.modifyExns t ({ · with savedThrowingFiber := none }) with
          sched := cilkFiberDeallocateToPool m.sched fiber
          freed := (t, fiber) :: m.freed } := ⟨_, rfl⟩
    rw [← isFreed]
    have self : (freed.exns t).savedThrowingFiber = none := by
      rw [isFreed]
      simp [ExnMachine.modifyExns]
    have other (c : ℕ) (notT : c ≠ t) : freed.exns c = m.exns c := by
      rw [isFreed]
      exact Function.update_of_ne notT ..
    constructor
    case placed => exact isFreed ▸ kept.placed
    case waits => exact isFreed ▸ kept.waits
    case resting =>
      intro c saved
      have notT : c ≠ t := by
        rintro rfl
        exact saved self
      rw [other c notT] at saved
      refine (kept.resting c saved).congr ?_ ?_ ?_
      · exact isFreed ▸ rfl
      · exact isFreed ▸ rfl
      · exact isFreed ▸ fun w => ⟨_, rfl⟩
    case overwritten => exact isFreed ▸ kept.overwritten
    case counted =>
      intro c f
      have counted := kept.counted c f
      have parked : freed.parked = m.parked := isFreed ▸ rfl
      have given : freed.freed = (t, fiber) :: m.freed := isFreed ▸ rfl
      rw [parked, given, counted, List.count_cons]
      by_cases isT : c = t
      · subst isT
        rw [self, isFiber]
        simp
      · rw [other c isT]
        simp [Ne.symm isT]

/-- The handler gives back what has been parked. -/
theorem Kept.cleanupFiber {sf : ℕ} (kept : Kept m) :
    Kept (m.cleanupFiber t sf) := by
  rw [ExnMachine.cleanupFiber]
  split
  case h_1 => exact kept
  case h_2 rsp isRsp =>
    have cleared := @Kept.modifyExns _ _ t ({ · with parentRsp := none }) kept
      rfl
    apply Kept.deallocateSaved
    exact cleared.congr rfl rfl (fun _ => ⟨_, rfl⟩) (fun _ => rfl)
      ⟨rfl, rfl, rfl⟩

theorem Kept.storeLeftExn {parent child : ℕ} {exn : Option ℕ}
    (kept : Kept m) : Kept (m.storeLeftExn parent child exn) := by
  unfold ExnMachine.storeLeftExn
  split <;> exact kept.modifyExns rfl

theorem Kept.exceptionIteration {parent child : ℕ} (kept : Kept m) :
    Kept (m.exceptionIteration parent child) := by
  have cleared := @Kept.modifyExns _ _ child ({ · with rightExn := none }) kept
    rfl
  rw [ExnMachine.exceptionIteration]
  exact cleared.storeLeftExn.modifyExns rfl

theorem Kept.resumeExns {parent : ℕ} (kept : Kept m) :
    Kept (m.resumeExns w parent) := by
  unfold ExnMachine.resumeExns
  split
  · exact kept.modifyExns (saved_takeChildExn _)
  · exact kept

theorem storeLeftExn_toMachine {parent child : ℕ} (exn : Option ℕ) :
    (m.storeLeftExn parent child exn).toMachine = m.toMachine := by
  unfold ExnMachine.storeLeftExn
  split <;> rfl

theorem depositExn_toMachine {parent child : ℕ} :
    (m.depositExn w parent child).toMachine = m.toMachine := by
  unfold ExnMachine.depositExn
  split
  · exact storeLeftExn_toMachine _
  · rfl

theorem Kept.depositExn {parent child : ℕ} (kept : Kept m) :
    Kept (m.depositExn w parent child) := by
  unfold ExnMachine.depositExn
  split
  · exact kept.storeLeftExn.switch .ordinary
  · exact kept

/-- What is said of the bottom closure is said of all that a worker in compiled
code has. -/
theorem Kept.of_bottom {c : ℕ} (kept : Kept m) (isUser : m.pc w = .user)
    (unsaved : ∀ t ∈ dequePeekBottom m.sched w,
      (m.exns t).savedThrowingFiber = none)
    (carries : c ∈ m.sched.core.carried m.pc w) :
    (m.exns c).savedThrowingFiber = none := by
  have posture := kept.placed.posture w
  rw [isUser] at posture
  obtain ⟨t, isDeque, -⟩ := posture
  have carried : m.sched.core.carried m.pc w = [t] := by
    rw [Core.carried, isDeque, isUser]
    rfl
  have isHere : m.sched.deques w = [t] := isDeque
  rw [carried, List.mem_singleton] at carries
  apply unsaved
  rw [carries, dequePeekBottom, isHere]
  rfl

end Changes

section Runs

variable {M : Type*} [Monoid M] {m m' start : ExnMachine M} {base : Machine M}
  {action : Action} {w t : ℕ}

/-- A worker that leaves its frame has no parked fiber. -/
theorem Kept.advance {step : Scheduler.Action} {mode : ℕ → Mode}
    (kept : Kept m) (taken : Scheduler.Step m.toMachine step base)
    (unsaved : departs step = true → ∀ w, step.worker = some w →
      ∀ t ∈ dequePeekBottom m.sched w,
        (m.exns t).savedThrowingFiber = none) :
    Kept { m with toMachine := base, mode := mode } := by
  constructor
  case placed => exact step_placed kept.placed taken
  case waits =>
    exact (taken.coreMove kept.placed).waits kept.placed kept.waits
  case resting =>
    intro c saved
    have resting := kept.resting c saved
    by_cases mine : ∃ w, step.worker = some w ∧
        c ∈ m.sched.core.carried m.pc w
    · obtain ⟨w, acts, carries⟩ := mine
      refine resting.acting kept.placed taken acts ?_ carries
      by_contra leaves
      have departs : departs step = true := by simpa using leaves
      have isUser : m.pc w = .user := by
        cases taken <;> cases acts <;> first | assumption | cases departs
      exact saved (kept.of_bottom isUser (unsaved departs w acts) carries)
    · apply resting.elsewhere kept.placed taken
      intro w acts carries
      exact mine ⟨w, acts, carries⟩
  case overwritten => exact kept.overwritten
  case counted => exact kept.counted

/-- A sync parks a fiber while children are outstanding. -/
theorem Kept.cilkSync {mode : Mode} (kept : Kept m)
    (bottom : dequePeekBottom m.sched w = some t)
    (taken : Scheduler.Step m.toMachine (.sync w) base) :
    Kept (m.cilkSync base w t mode) := by
  have synced (mode : Mode) : Kept (m.scheduled base w mode) :=
    kept.advance taken (by simp [departs])
  rw [ExnMachine.cilkSync]
  split
  case isFalse childless =>
    exact (synced mode).modifyExns (saved_takeChildExn _)
  case isTrue children =>
    split
    case isTrue => exact synced .ordinary
    case isFalse throwing =>
      have has : t ∈ m.sched.core.carried m.pc w := mem_carried_of_bottom bottom
      have unsaved : (m.exns t).savedThrowingFiber = none := by
        by_contra saved
        have childless := ((kept.resting t saved).carried kept.placed has).1
        exact absurd (children.symm.trans childless) (by simp)
      have before := kept.placed.posture w
      cases taken with
      | @sync _ sf _ s ready isUser current unsynched alsoBottom unlocked
          isSynced =>
          cases bottom.symm.trans alsoBottom
          rw [isUser] at before
          obtain ⟨-, running⟩ := peekBottom_user before bottom
          have noCallee : (m.sched.core.nodes t).hasCilkCallee = false := by
            by_contra hasCallee
            have suspended := kept.waits t (by simpa using hasCallee)
            rw [running] at suspended
            cases suspended
          rcases cilkSync_cases (kept.placed.kin.real t) isSynced with
            ⟨childless, -⟩ | ⟨-, rfl, core⟩
          · rw [children] at childless
            cases childless
          · have node : s.core.nodes t =
                { m.sched.core.nodes t with status := .suspended } := by
              rw [core, Core.setDeque, Core.setStatus_nodes, if_pos rfl]
            apply Kept.park
            case kept =>
              refine @Kept.congr _ _ _ (synced .ordinary) rfl rfl ?_
                (fun _ => rfl) ⟨rfl, rfl, rfl⟩
              intro v
              by_cases isW : v = w
              · subst isW
                exact ⟨none, Function.update_self ..⟩
              · exact ⟨_, Function.update_of_ne isW ..⟩
            case unsaved => exact unsaved
            case suspended => exact congrArg Node.status node
            case noCallee =>
              exact (congrArg Node.hasCilkCallee node).trans noCallee

theorem Kept.step (kept : Kept m) (released : Released m action)
    (taken : Step m action m') : Kept m' := by
  cases taken with
  | plain isPlain ordinary taken => exact kept.advance taken released
  | @sync w t base ordinary bottom taken =>
      have saves := @Kept.modifyExns _ _ t ({ · with context := none }) kept
        rfl
      exact saves.cilkSync bottom taken
  | @checkException w t isUser checking bottom unlocked =>
      rw [checkExceptionRaise]
      split
      · have cleared := @Kept.modifyExns _ _ t
          ({ · with userExn := none, pending := false }) kept rfl
        split
        · exact cleared.switch (.unwinding _)
        · exact cleared.switch .ordinary
      · exact kept.switch .ordinary
  | throw | personality | cleanup => exact kept.switch _
  | @personalitySync w t sf exn base isUser unwinding current bottom taken =>
      exact kept.saveContext.cilkSync bottom taken
  | @reraise w t exn other isUser synced =>
      exact (@Kept.modifyExns _ _ t
        ({ · with userExn := none, pending := false }) kept rfl).switch _
  | handler isUser synced settled current bottom =>
      exact kept.cleanupFiber.switch .ordinary
  | @leave w exn step base synced settled leaves taken =>
      apply kept.advance taken
      intro departs v acts
      rcases leaves with rfl | rfl | rfl <;> cases acts <;> exact released
  | leaveLast synced settled taken =>
      apply kept.advance taken
      intro departs v acts
      cases acts
      exact released
  | @exceptionHandler w t base bottom taken =>
      have handled (mode : Mode) : Kept (m.scheduled base w mode) :=
        kept.advance taken (by simp [departs])
      rw [ExnMachine.exceptionHandler]
      split
      · exact (handled .ordinary).modifyExns rfl
      · exact handled (m.mode w)
  | execute ordinary isExecuting taken =>
      exact kept.advance taken (by simp [departs])
  | returnValue ordinary taken =>
      exact kept.advance taken (by simp [departs])
  | reduceExceptions => exact kept.exceptionIteration
  | @reducerIteration w child parent base returns isParent reduced taken =>
      rw [← @depositExn_toMachine _ m w parent child] at taken
      exact kept.depositExn.advance taken (by simp [departs])
  | @finishReturn w child parent base returns isParent reduced taken =>
      rw [← @depositExn_toMachine _ m w parent child] at taken
      have deposited : Kept
          { m.depositExn w parent child with toMachine := base } :=
        kept.depositExn.advance taken (by simp [departs])
      exact deposited.resumeExns

omit [Monoid M] in
theorem initial_kept (initial : Initial start) : Kept start := by
  constructor
  case placed => exact initial_placed initial.base
  case waits =>
    intro c hasCallee
    obtain ⟨sf, fiber, -, root, -⟩ := initial.base.root
    by_cases isRoot : c = start.sched.rootClosure
    · simp [State.core, isRoot, root, Closure.node] at hasCallee
    · simp [State.core, initial.base.unused c isRoot, Closure.node]
        at hasCallee
  case resting =>
    intro c saved
    simp [initial.exns] at saved
  case overwritten => exact initial.overwritten
  case counted => simp [initial.parked, initial.freed, initial.exns]

end Runs

section TwoWorkers

def throwingStart : ExnMachine (FreeMonoid ℕ) :=
  { regionStart with
    exns := fun _ => {}
    mode := fun _ => .ordinary
    parked := []
    freed := []
    overwritten := [] }

def ReachedByTwo (m : ExnMachine (FreeMonoid ℕ)) : Prop :=
  ReachableBy Released Step throwingStart m ∧ ∀ w, 2 ≤ w → m.pc w = .thief

variable {m m' : ExnMachine (FreeMonoid ℕ)} {action : Action} {w c : ℕ}
  {first second : Pc}

theorem ReachedByTwo.snoc (reached : ReachedByTwo m) (isTwo : w < 2)
    (taken : Step m action m') (released : Released m action)
    (others : ∀ v, v ≠ w → m'.pc v = m.pc v) : ReachedByTwo m' :=
  ⟨reached.1.snoc taken released,
    fun v isOther => (others v (by omega)).trans (reached.2 v isOther)⟩

theorem ReachedByTwo.unlocked (reached : ReachedByTwo m)
    (isFirst : m.pc 0 = first) (isSecond : m.pc 1 = second)
    (notFirst : ∀ cl, first ≠ .promoting cl c)
    (notSecond : ∀ cl, second ≠ .promoting cl c) : m.Unlocked c := by
  intro w cl promotes
  match w with
  | 0 => exact notFirst cl (isFirst.symm.trans promotes)
  | 1 => exact notSecond cl (isSecond.symm.trans promotes)
  | w + 2 =>
      rw [reached.2 (w + 2) (by omega)] at promotes
      cases promotes

/-- A frame spawns, and its continuation is stolen and throws.  The first worker
returns from the child, and resumes the frame in the personality function. -/
structure Landed (m : ExnMachine (FreeMonoid ℕ)) : Prop where
  pc : m.pc 0 = .user ∧ m.pc 1 = .runtime
  mode : m.mode 0 = .synced 7
  bottom : dequePeekBottom m.sched 0 = some 1
  current : (m.sched.workers 0).currentStackFrame = some 1
  frame : (m.sched.frames 1).unsynched = false ∧
    (m.sched.frames 1).last = false ∧ (m.sched.frames 1).detached = false ∧
    (m.sched.frames 1).stolen = true
  caller : (m.sched.closures 1).callParent = some 0
  exn : (m.exns 1).userExn = some 7
  saved : (m.exns 1).savedThrowingFiber = some 1
  rsp : (m.exns 1).parentRsp = some 0
  logs : m.parked = [(1, 1)] ∧ m.freed = []

theorem landed : ∃ m, ReachedByTwo m ∧ Landed m := by
  have away (m : ExnMachine (FreeMonoid ℕ)) (w : ℕ) (pc : Pc) (s : State _)
      (v : ℕ) (other : v ≠ w) : (m.toMachine.goto w pc s).pc v = m.pc v :=
    Function.update_of_ne other ..
  have stays {P : Prop} (leaves : false = true) : P := by cases leaves
  have holding : ReachedByTwo throwingStart :=
    ⟨.refl, fun w isOther => if_neg (by omega)⟩
  have executing := holding.snoc (by decide)
    (@Step.plain _ _ _ _ _ rfl (fun _ _ => rfl)
      (@Scheduler.Step.setupForExecution _ _ _ 0 0 rfl
        (@ReachedByTwo.unlocked _ _ (.holding 0) .thief holding rfl rfl
          (by simp) (by simp)) rfl))
    stays (away _ 0 _ _)
  have atRoot := executing.snoc (by decide)
    (@Step.execute _ _ _ 0 0 _ rfl rfl
      (@Scheduler.Step.execute _ _ _ 0 0 rfl))
    stays (away _ 0 _ _)
  have called := atRoot.snoc (by decide)
    (@Step.plain _ _ _ _ _ rfl (fun _ acts => by cases acts; rfl)
      (@Scheduler.Step.call _ _ _ 0 rfl))
    stays (away _ 0 _ _)
  have spawned := called.snoc (by decide)
    (@Step.plain _ _ _ _ _ rfl (fun _ acts => by cases acts; rfl)
      (@Scheduler.Step.spawn _ _ _ 0 0 1 rfl rfl rfl))
    (fun _ _ _ _ _ => rfl) (away _ 0 _ _)
  have stolen := spawned.snoc (by decide)
    (@Step.plain _ _ _ _ _ rfl (fun _ acts => by cases acts; rfl)
      (@Scheduler.Step.steal _ _ _ 1 0 1 0 1 _ rfl (by decide) (by decide) rfl
        (@ReachedByTwo.unlocked _ _ .user .thief spawned rfl rfl (by simp)
          (by simp)) rfl))
    stays (away _ 1 _ _)
  have promoted := stolen.snoc (by decide)
    (@Step.plain _ _ _ _ _ rfl (fun _ acts => by cases acts; rfl)
      (@Scheduler.Step.finishPromote _ _ _ 1 0 1 2 _ rfl rfl))
    stays (away _ 1 _ _)
  have continuing := promoted.snoc (by decide)
    (@Step.plain _ _ _ _ _ rfl (fun _ acts => by cases acts; rfl)
      (@Scheduler.Step.setupForExecution _ _ _ 1 1 rfl
        (@ReachedByTwo.unlocked _ _ .user (.holding 1) promoted rfl rfl
          (by simp) (by simp)) rfl))
    stays (away _ 1 _ _)
  have continued := continuing.snoc (by decide)
    (@Step.execute _ _ _ 1 1 _ rfl rfl
      (@Scheduler.Step.execute _ _ _ 1 1 rfl))
    stays (away _ 1 _ _)
  have thrown := @ReachedByTwo.snoc _ _ _ 1 continued (by decide)
    (@Step.throw _ _ _ 1 7 rfl rfl) trivial fun _ _ => rfl
  have parked := thrown.snoc (by decide)
    (@Step.personalitySync _ _ _ 1 1 1 7 _ rfl rfl rfl rfl
      (@Scheduler.Step.sync _ _ _ 1 1 1 _ _ rfl rfl rfl rfl
        (fun w cl => @ReachedByTwo.unlocked _ _ .user .user thrown rfl rfl
          (by simp) (by simp) w cl) rfl))
    trivial (away _ 1 _ _)
  have popped := parked.snoc (by decide)
    (@Step.plain _ _ _ _ _ rfl (fun _ acts => by cases acts; rfl)
      (@Scheduler.Step.leaveSpawned _ _ _ 0 2 _ rfl rfl rfl rfl rfl rfl))
    (fun _ _ acts _ bottom => by cases acts; cases bottom; rfl) (away _ 0 _ _)
  have handled := popped.snoc (by decide)
    (@Step.exceptionHandler _ _ _ 0 2 _ rfl
      (@Scheduler.Step.exceptionHandler _ _ _ 0 2 _ _ rfl rfl
        (@ReachedByTwo.unlocked _ _ .popped .runtime popped rfl rfl (by simp)
          (by simp)) rfl))
    stays (away _ 0 _ _)
  have freed := handled.snoc (by decide)
    (@Step.plain _ _ _ _ _ rfl (fun _ acts => by cases acts; rfl)
      (@Scheduler.Step.freeFiber _ _ _ 0 rfl))
    stays (away _ 0 _ _)
  have returning := freed.snoc (by decide)
    (@Step.plain _ _ _ _ _ rfl (fun _ acts => by cases acts; rfl)
      (@Scheduler.Step.xtractBottom _ _ _ 0 2 rfl rfl))
    stays (away _ 0 _ _)
  have reducing := returning.snoc (by decide)
    (@Step.returnValue _ _ _ 0 _ rfl
      (@Scheduler.Step.returnValue _ _ _ 0 2 rfl
        (@ReachedByTwo.unlocked _ _ (.holding 2) .runtime returning rfl rfl
          (by simp) (by simp)) rfl))
    stays (away _ 0 _ _)
  have free (c : ℕ) := @ReachedByTwo.unlocked _ c (.returning 2) .runtime
    reducing rfl rfl (by simp) (by simp)
  have resumed := reducing.snoc (by decide)
    (@Step.finishReturn _ _ _ 0 2 1 _ rfl rfl (.inr ⟨rfl, rfl, rfl⟩)
      (@Scheduler.Step.finishReturn _ _ _ 0 2 1 _ _ rfl rfl (free 1) (free 2)
        rfl rfl rfl))
    stays (away _ 0 _ _)
  have again := resumed.snoc (by decide)
    (@Step.plain _ _ _ _ _ rfl (fun _ acts => by cases acts; rfl)
      (@Scheduler.Step.setupForExecution _ _ _ 0 1 rfl
        (@ReachedByTwo.unlocked _ _ (.holding 1) .runtime resumed rfl rfl
          (by simp) (by simp)) rfl))
    stays (away _ 0 _ _)
  have landed := again.snoc (by decide)
    (@Step.execute _ _ _ 0 1 _ rfl rfl
      (@Scheduler.Step.execute _ _ _ 0 1 rfl))
    stays (away _ 0 _ _)
  refine ⟨_, landed, ?_⟩
  constructor
  case pc | logs => exact ⟨rfl, rfl⟩
  case frame => exact ⟨rfl, rfl, rfl, rfl⟩
  all_goals rfl

theorem Landed.settled (landed : Landed m) : m.Settled 0 7 := by
  intro t bottom other isOther
  cases landed.bottom.symm.trans bottom
  rw [landed.exn] at isOther
  exact (Option.some.inj isOther).symm

end TwoWorkers

end Multicilk.Unwinding
