import Multicilk.Scheduler.Offspring
import Multicilk.Scheduler.Frames.PromoteSteps

/-!
# Every step keeps the account of the frames

Before the region is over, every frame belongs to a closure, to a worker, or to a
thief that has not promoted it yet.
-/

namespace Multicilk.Scheduler

open Machine

/-- The closure has no outstanding children, and is not on the fiber of one
that has returned. -/
def State.Settled {M : Type*} (s : State M) (c : ℕ) : Prop :=
  (s.core.nodes c).joinCounter = 0 ∧ s.fibers.fiberChild c = none

/-- The thief of a closure holds its lock, so that its children stay. -/
def Core.Expecting (core : Core) (pc : ℕ → Pc) : Prop :=
  ∀ w cl res, pc w = .promoting cl res → (core.nodes res).joinCounter ≠ 0

/-- A closure that is with a worker has a fiber. -/
def State.Aboard {M : Type*} (s : State M) : Prop :=
  ∀ c, (s.core.nodes c).Active → s.fibers.fiber c ≠ none

variable {M : Type*} {s t : State M} {core : Core} {k : Stacks} {pc : ℕ → Pc}
  {young : ℕ → List ℕ} {settled : ℕ → Prop} {c f root w : ℕ}

theorem State.settled_congr
    (counter : (t.core.nodes c).joinCounter = (s.core.nodes c).joinCounter)
    (child : t.fibers.fiberChild c = s.fibers.fiberChild c) :
    s.Settled c ↔ t.Settled c := by
  rw [State.Settled, State.Settled, counter, child]

namespace Accounted

theorem of_state (accounted : Accounted core k pc root settled young)
    (sameCore : t.core = core) (sameStacks : t.stacks = k)
    (keeps : ∀ c, (core.nodes c).Live → (settled c ↔ t.Settled c)) :
    Accounted t.core t.stacks pc root t.Settled young := by
  rw [sameCore, sameStacks]
  exact accounted.mono keeps

/-- Only the frames are changed. -/
theorem of_frames (accounted : Accounted s.core k pc root s.Settled young)
    (sameCore : t.core = s.core) (sameStacks : t.stacks = k)
    (sameFibers : t.fibers = s.fibers) :
    Accounted t.core t.stacks pc root t.Settled young := by
  apply accounted.of_state sameCore sameStacks
  intro c _
  rw [State.Settled, State.Settled, sameCore, sameFibers]

variable (accounted : Accounted s.core s.stacks pc root s.Settled young)

include accounted

/-- Nothing is changed that has to do with frames or children. -/
theorem resting {p : Pc} {rest : List ℕ}
    (notPromoting : ∀ cl res, pc w ≠ .promoting cl res)
    (placed : Placed t.core (Function.update pc w p))
    (sameCore : t.core = s.core) (sameStacks : t.stacks = s.stacks)
    (keeps : ∀ c, s.Settled c ↔ t.Settled c)
    (remains : List.Sublist rest (young w))
    (standing : s.stacks.Standing s.core w rest p) :
    Accounted t.core t.stacks (Function.update pc w p) root t.Settled
      (Function.update young w rest) := by
  rw [sameCore] at placed
  exact (accounted.still notPromoting placed remains standing).of_state sameCore
    sameStacks fun c _ => keeps c

theorem leaveSpawned_step (isUser : pc w = .user)
    (current : (s.workers w).currentStackFrame = some f)
    (isSynched : (s.frames f).unsynched = false)
    (detached : (s.frames f).detached = true)
    (isState : t = leaveDetached (popFrame s w f) w f)
    (placed : Placed t.core (Function.update pc w
      (if exceptionRaised t w then .popped else .user))) :
    ∃ young', Accounted t.core t.stacks (Function.update pc w
      (if exceptionRaised t w then .popped else .user)) root t.Settled
        young' := by
  have core : t.core = s.core := by
    rw [isState, core_leaveDetached, core_popFrame]
  have sameStacks : t.stacks = s.stacks.leaveSpawned w f := by
    rw [isState, stacks_leaveDetached, stacks_popFrame]
    rfl
  have worker := congrFun (congrArg Stacks.workers sameStacks) w
  rw [Stacks.leaveSpawned_self] at worker
  have tail : (t.workers w).tail = (s.stacks.workers w).tail - 1 :=
    congrArg Stack.tail worker
  have exc : (t.workers w).exc = (s.stacks.workers w).exc :=
    congrArg Stack.exc worker
  have goes : (if exceptionRaised t w then Pc.popped else .user) = .popped ∨
      (if exceptionRaised t w then Pc.popped else .user) = .user ∧
        (s.stacks.workers w).exc ≤ (s.stacks.workers w).tail - 1 := by
    split
    case isTrue => exact .inl rfl
    case isFalse notRaised =>
      rw [exceptionRaised, decide_eq_true_eq, not_lt, tail, exc] at notRaised
      exact .inr ⟨rfl, notRaised⟩
  rw [core] at placed
  obtain ⟨rest, left⟩ := accounted.leaveSpawned isUser current isSynched
    detached goes placed
  refine ⟨_, left.of_frames core sameStacks ?_⟩
  rw [isState, fibers_leaveDetached, fibers_popFrame]

theorem setReturn_step {c caller : ℕ} (isUser : pc w = .user)
    (current : (s.workers w).currentStackFrame = some f)
    (stolen : (s.frames f).stolen = true)
    (bottom : dequePeekBottom s w = some c)
    (isCaller : (s.closures c).callParent = some caller)
    (isState : t = cilkSetReturn (popFrame s w f) w c caller)
    (placed : Placed t.core (Function.update pc w .user)) :
    ∃ young', Accounted t.core t.stacks (Function.update pc w .user) root
      t.Settled young' := by
  have posture := accounted.placed.posture w
  rw [isUser] at posture
  have isDeque := (peekBottom_user posture bottom).1
  have has : c ∈ s.core.carried pc w := by simp [Core.carried, isDeque]
  have different : c ≠ caller := by
    rintro rfl
    have active := accounted.placed.active has
    exact active.not_suspended
      (accounted.placed.caller c c active.live isCaller).1
  have core : t.core = s.core.setReturn w c caller := by
    rw [isState, core_cilkSetReturn different, core_popFrame]
  have sameStacks : t.stacks =
      ((s.stacks.pop w f).forget c).resetException w := by
    rw [isState, stacks_cilkSetReturn, stacks_popFrame]
  rw [core] at placed
  refine ⟨_, (accounted.setReturn isUser current stolen isDeque isCaller
    placed).of_state core sameStacks fun d _ => State.settled_congr ?_ ?_⟩
  · rw [core]
    simp only [Core.setReturn]
    split
    · rfl
    · split <;> rfl
  · rw [isState, fibers_cilkSetReturn, fibers_popFrame]
    rfl

theorem exceptionHandler_step {c : ℕ} {stolen : Bool}
    (isPopped : pc w = .popped) (bottom : dequePeekBottom s w = some c)
    (handled : cilkExceptionHandler s w c = (t, stolen))
    (placed : Placed t.core
      (Function.update pc w (if stolen then .runtime else .user))) :
    ∃ young', Accounted t.core t.stacks
      (Function.update pc w (if stolen then .runtime else .user)) root
      t.Settled young' := by
  have posture := accounted.placed.posture w
  rw [isPopped] at posture
  obtain ⟨isDeque, running⟩ := peekBottom_user posture bottom
  have isRunning : (s.closures c).status = .running := running
  have goes : (s.stacks.workers w).head ≤ (s.stacks.workers w).tail ∧
        stolen = false ∧ t.core = s.core ∨
      (s.stacks.workers w).tail < (s.stacks.workers w).head ∧
        stolen = true ∧ t.core = s.core.setStatus c .returning := by
    rcases cilkExceptionHandler_cases handled with
      inside | ⟨past, isStolen, core⟩
    · exact .inl inside
    · rw [if_pos isRunning] at core
      exact .inr ⟨past, isStolen, core⟩
  refine ⟨_, (accounted.exceptionHandler isPopped isDeque goes
    placed).of_state rfl (stacks_cilkExceptionHandler handled)
      fun d _ => State.settled_congr ?_ ?_⟩
  · rcases goes with ⟨-, -, core⟩ | ⟨-, -, core⟩
    · rw [core]
    · rw [core, Core.setStatus_nodes]
  · rw [fibers_cilkExceptionHandler handled]

theorem xtractBottom_step {c : ℕ} (isLooking : pc w = .looking)
    (bottom : dequePeekBottom s w = some c)
    (placed : Placed (dequeXtractBottom s w).core
      (Function.update pc w (.holding c))) :
    ∃ young', Accounted (dequeXtractBottom s w).core s.stacks
      (Function.update pc w (.holding c)) root s.Settled young' := by
  have posture := accounted.placed.posture w
  rw [isLooking] at posture
  obtain ⟨isDeque, returning⟩ := peekBottom_looking posture bottom
  have has : c ∈ s.core.carried pc w := by simp [Core.carried, isDeque]
  have sameStatus := s.core.setStatus_self c
  rw [core_dequeXtractBottom] at placed ⊢
  rw [← sameStatus] at placed ⊢
  refine ⟨_, accounted.restatus has (by
    rw [isLooking]
    exact fun _ _ => Pc.noConfusion) placed (fun _ _ => rfl) rfl rfl rfl ?_ ?_
    (List.Sublist.refl _) trivial⟩
  · exact accounted.framed.ready c
  · exact accounted.framed.returning c

theorem setupForExecution_step {c : ℕ} (isHolding : pc w = .holding c)
    (isReady : (s.closures c).status = .ready)
    (isState : t = Scheduler.setupForExecution s w c)
    (placed : Placed t.core (Function.update pc w (.executing c))) :
    ∃ young', Accounted t.core t.stacks (Function.update pc w (.executing c))
      root t.Settled young' := by
  have core : t.core = s.core.setStatus c .running := by
    rw [isState, core_setupForExecution]
  rw [core] at placed
  refine ⟨_, (accounted.setupForExecution isHolding isReady placed).of_state
    core ?_ fun d _ => State.settled_congr ?_ ?_⟩
  · rw [isState, stacks_setupForExecution]
    rfl
  · rw [core, Core.setStatus_nodes]
  · rw [isState, fibers_setupForExecution]

theorem execute_step {c : ℕ} (isExecuting : pc w = .executing c)
    (isState : t = longjmpToUserCode (dequeAddBottom s c w) w c)
    (placed : Placed t.core (Function.update pc w .user)) :
    ∃ young', Accounted t.core t.stacks (Function.update pc w .user) root
      t.Settled young' := by
  have core : t.core = s.core.setDeque w (s.core.deques w ++ [c]) := by
    rw [isState, core_longjmpToUserCode, core_dequeAddBottom]
  rw [core] at placed
  refine ⟨_, (accounted.execute isExecuting placed).of_state core ?_
    fun d _ => State.settled_congr ?_ ?_⟩
  · rw [isState, stacks_longjmpToUserCode, stacks_dequeAddBottom]
  · rw [core]
    rfl
  · rw [isState, fibers_longjmpToUserCode]
    rfl

section Promotion

variable {victim cl res : ℕ}

/-- Which of the two ways to steal it is, and which frames the thief takes. -/
theorem stealTop {fiber : ℕ}
    (stolen : closureStealTop s victim fiber = some (t, cl, res)) :
    ∃ below rest, s.stacks.Divided victim (frameToSteal s victim)
        (s.stacks.frameOf cl) (young victim) below rest ∧
      (res = cl ∧ t = extractedItself s victim cl (some fiber) ∧
          (s.stacks.frameOf cl = none ∨
            s.stacks.frameOf cl = some (frameToSteal s victim)) ∨
        res = s.created ∧ t = extractedCallee s victim cl (some fiber) ∧
          s.stacks.frameOf cl ≠ some (frameToSteal s victim) ∧
          s.stacks.Pending (frameToSteal s victim) rest
            (s.stacks.frameOf cl)) := by
  obtain ⟨top, running, dekker, extracted⟩ := closureStealTop_some stolen
  obtain ⟨isDeque, inCode⟩ :=
    (accounted.placed.posture victim).of_running top running
  have has : cl ∈ s.core.carried pc victim := by simp [Core.carried, isDeque]
  have live := (accounted.placed.active has).live
  have allocated : cl < s.created := accounted.placed.allocated live
  have nonempty : (s.stacks.workers victim).head <
      (s.stacks.workers victim).tail := of_decide_eq_true dekker
  obtain ⟨-, strand⟩ := accounted.victimStrand inCode isDeque nonempty
  have noYoung (f : ℕ) (isOwn : s.stacks.frameOf cl = some f) :
      f ∉ young victim := accounted.not_young live isOwn victim
  have isFrame : frameToSteal s victim =
      (s.stacks.workers victim).shadowStack (s.stacks.workers victim).head :=
    rfl
  obtain ⟨below, rest, divided, cases⟩ := strand.divided
    (accounted.stranded.nodup victim) noYoung nonempty isFrame
  refine ⟨below, rest, divided, ?_⟩
  rcases cases with ⟨-, itself⟩ | ⟨notOwn, pending⟩
  · have spawns : SpawnsItself s victim cl := by
      rcases itself with isOwn | ⟨noFrame, detached⟩
      · exact .inl ⟨isOwn, (accounted.framed.stolen cl _ live isOwn).2⟩
      · exact .inr ⟨noFrame, detached⟩
    rw [extractTop_itself spawns allocated
      (accounted.placed.kin.siblingsAllocated cl) (some fiber)] at extracted
    cases extracted
    exact .inl ⟨rfl, rfl, itself.symm.imp_left And.left⟩
  · have attached : (s.frames (frameToSteal s victim)).detached = false := by
      apply pending.attached
      rw [List.dropLast_cons_of_ne_nil pending.remains]
      exact List.mem_cons_self
    rw [extractTop_callee ⟨notOwn, attached⟩ allocated (some fiber)]
      at extracted
    cases extracted
    exact .inr ⟨rfl, rfl, notOwn, pending⟩

theorem steal_step {fiber : ℕ} (isThief : pc w = .thief)
    (stolen : closureStealTop s victim fiber = some (t, cl, res))
    (placed : Placed t.core (Function.update pc w (.promoting cl res))) :
    ∃ young', Accounted t.core t.stacks
      (Function.update pc w (.promoting cl res)) root t.Settled young' := by
  obtain ⟨top, running, dekker, -⟩ := closureStealTop_some stolen
  obtain ⟨isDeque, inCode⟩ :=
    (accounted.placed.posture victim).of_running top running
  have allocated : cl < s.created :=
    accounted.placed.allocated (by simp [Node.Live, running])
  have siblings := accounted.placed.kin.siblingsAllocated cl
  have nonempty : (s.stacks.workers victim).head <
      (s.stacks.workers victim).tail := of_decide_eq_true dekker
  have old (d : ℕ) (live : (s.core.nodes d).Live) :
      d ≠ s.created ∧ d ≠ s.created + 1 := by
    have allocated : d < s.created := accounted.placed.allocated live
    omega
  obtain ⟨below, rest, divided, cases⟩ := accounted.stealTop stolen
  rcases cases with ⟨rfl, isState, itself⟩ | ⟨rfl, isState, notOwn, pending⟩
  · have core : t.core = (s.core.addChild res).setDeque victim
        (s.core.deques victim ++ [s.core.created]).tail := by
      rcases closureStealTop_cases stolen allocated siblings with
        ⟨-, core⟩ | ⟨isNew, -⟩
      · exact core
      · exact absurd isNew allocated.ne
    have sameStacks : t.stacks = s.stacks.steal victim
        (frameToSteal s victim) res s.core.created := by
      rw [isState, stacks_extractedItself]
      rfl
    have counter (d : ℕ) : (t.core.nodes d).joinCounter =
        if d = s.created then 0
        else if d = res then (s.core.nodes d).joinCounter + 1
        else (s.core.nodes d).joinCounter := by
      rw [core]
      simp only [Core.setDeque, Core.addChild,
        show s.core.created = s.created from rfl]
      grind
    have saved (d : ℕ) : t.fibers.fiberChild d =
        if d = s.created then none else s.fibers.fiberChild d := by
      rw [isState, fibers_extractedItself allocated.ne]
      exact Function.update_apply ..
    have stolenFrom := Core.stolenFrom_itself allocated isDeque running
    rw [core] at placed
    exact ⟨_, (accounted.steal isThief inCode isDeque nonempty stolenFrom
      divided (fun _ => itself) (fun different => absurd rfl different)
      (fun d live notCl => State.settled_congr
        (by rw [counter, if_neg (old d live).1, if_neg notCl])
        (by rw [saved, if_neg (old d live).1]))
      ⟨(counter _).trans (if_pos rfl), (saved _).trans (if_pos rfl)⟩
      (fun settled => absurd settled.1 (by
        rw [counter, if_neg allocated.ne, if_pos rfl]
        exact Nat.succ_ne_zero _))
      placed).of_state core sameStacks fun _ _ => Iff.rfl⟩
  · have core : t.core = ((s.core.addTempCallee cl).addChild
        s.core.created).setDeque victim
          ((s.core.deques victim).dropLast ++ [s.core.created + 1]) := by
      rcases closureStealTop_cases stolen allocated siblings with
        ⟨isOld, -⟩ | ⟨-, core⟩
      · exact absurd isOld.symm allocated.ne
      · exact core
    have sameStacks : t.stacks = s.stacks.steal victim
        (frameToSteal s victim) s.created (s.core.created + 1) := by
      rw [isState, stacks_extractedCallee]
      rfl
    have counter (d : ℕ) : (t.core.nodes d).joinCounter =
        if d = s.created then 1
        else if d = s.created + 1 then 0
        else (s.core.nodes d).joinCounter := by
      rw [core]
      simp only [Core.setDeque, Core.addChild, Core.addTempCallee,
        show s.core.created = s.created from rfl]
      grind
    have saved (d : ℕ) : t.fibers.fiberChild d =
        if d = s.created + 1 then none
        else if d = s.created then none else s.fibers.fiberChild d := by
      rw [isState, fibers_extractedCallee]
      simp only [Fibers.setFiber, Fibers.setFiberChild, Function.update_apply]
      rfl
    have stolenFrom := Core.stolenFrom_callee allocated isDeque
    rw [core] at placed
    exact ⟨_, (accounted.steal isThief inCode isDeque nonempty stolenFrom
      divided (fun same => absurd same allocated.ne)
      (fun _ => ⟨notOwn, pending⟩)
      (fun d live _ => State.settled_congr
        (by rw [counter, if_neg (old d live).1, if_neg (old d live).2])
        (by rw [saved, if_neg (old d live).2, if_neg (old d live).1]))
      ⟨(counter (s.created + 1)).trans (by simp),
        (saved (s.created + 1)).trans (if_pos rfl)⟩
      (fun settled => absurd ((counter s.created).symm.trans settled.1) (by
        simp))
      placed).of_state core sameStacks fun _ _ => Iff.rfl⟩

/-- What has been made, when the stolen frames have been promoted. -/
theorem promoted {fuel : ℕ} (isPromoting : pc w = .promoting cl res)
    (different : cl ≠ res)
    (finished : finishPromote s fuel res (cl ≠ res) = some t) :
    ∃ frame base closures path, s.stacks.frameOf res = some frame ∧
      s.stacks.Pending frame (young w) (s.stacks.frameOf cl) ∧
      s.core.Chained t.core cl res closures ∧
      s.stacks.Promoted t.stacks frame cl base (young w) closures path ∧
      t.fibers = s.fibers.promote cl closures := by
  obtain ⟨caller, clAllocated, allocated⟩ :=
    accounted.placed.promoting isPromoting
  have standing := accounted.stranded.standing w
  rw [isPromoting] at standing
  obtain ⟨frame, isFrame, pending⟩ := standing
  have has : res ∈ s.core.carried pc w := by
    simp [Core.carried, isPromoting, Pc.closures]
  have suspended := (accounted.placed.caller res cl
    (accounted.placed.active has).live (caller different)).1
  have clLive : (s.core.nodes cl).Live := by simp [Node.Live, suspended]
  obtain ⟨base, closures, path, made⟩ :=
    finishPromote_promoted finished different (caller different) clAllocated
      allocated isFrame (pending different)
      (fun f member => (accounted.stranded.fresh w f member).2.notStolen)
      (fun f isOwn => (accounted.framed.stolen cl f clLive isOwn).2)
      (accounted.stranded.nodup w)
  exact ⟨frame, base, closures, path, isFrame, pending different, made⟩

theorem finishPromote_step {fuel : ℕ} (isPromoting : pc w = .promoting cl res)
    (expecting : s.core.Expecting pc)
    (finished : finishPromote s fuel res (cl ≠ res) = some t)
    (placed : Placed t.core (Function.update pc w (.holding res))) :
    ∃ young', Accounted t.core t.stacks (Function.update pc w (.holding res))
      root t.Settled young' := by
  by_cases different : cl ≠ res
  · obtain ⟨frame, base, closures, path, isFrame, pending, chain, promoted,
      fibers⟩ := accounted.promoted isPromoting different finished
    have has : res ∈ s.core.carried pc w := by
      simp [Core.carried, isPromoting, Pc.closures]
    have counter (d : ℕ) (notBetween : d ∉ closures) :
        (t.core.nodes d).joinCounter = (s.core.nodes d).joinCounter := by
      by_cases isCl : d = cl
      · obtain ⟨_, node⟩ := chain.older
        rw [isCl, node]
      by_cases isRes : d = res
      · obtain ⟨_, node⟩ := chain.younger
        rw [isRes, node]
      · rw [chain.kept d notBetween isCl isRes]
    have between (d : ℕ) (member : d ∈ closures) : t.Settled d := by
      obtain ⟨_, _, node⟩ := chain.between d member
      rw [State.Settled, node, fibers]
      exact ⟨rfl, if_pos member⟩
    have keeps (d : ℕ) (live : (s.core.nodes d).Live) :
        s.Settled d ↔ t.Settled d := by
      have notBetween : d ∉ closures := fun member =>
        absurd (accounted.placed.allocated live)
          (not_lt.mpr (chain.fresh d member).1)
      apply State.settled_congr (counter d notBetween)
      rw [fibers]
      exact if_neg notBetween
    have notSettled : ¬ t.Settled res := by
      rw [← keeps res (accounted.placed.active has).live]
      exact fun settled => expecting w cl res isPromoting settled.1
    exact ⟨_, (accounted.mono keeps).promote isPromoting different isFrame
      pending chain promoted between notSettled placed⟩
  · rw [not_not] at different
    subst different
    have standing := accounted.stranded.standing w
    rw [isPromoting] at standing
    obtain ⟨frame, isFrame, -⟩ := standing
    have readied : t = readyParent s cl := by
      simpa [finishPromote] using finished.symm
    have core : t.core = s.core.setStatus cl .ready := by
      rw [readied, core_readyParent]
    rw [core] at placed
    refine ⟨_, (accounted.readied isPromoting isFrame (fun settled =>
      expecting w cl cl isPromoting settled.1) placed).of_state core ?_
        fun d _ => State.settled_congr ?_ ?_⟩
    · rw [readied, stacks_readyParent]
    · rw [core, Core.setStatus_nodes]
    · rw [readied, fibers_readyParent]

end Promotion

section Maps

variable [Monoid M]

theorem sync_step {c : ℕ} {ready : Bool} (isUser : pc w = .user)
    (bottom : dequePeekBottom s w = some c)
    (synced : cilkSync s w c = (t, ready))
    (placed : Placed t.core
      (Function.update pc w (if ready then .user else .runtime))) :
    ∃ young', Accounted t.core t.stacks
      (Function.update pc w (if ready then .user else .runtime)) root
      t.Settled young' := by
  have posture := accounted.placed.posture w
  rw [isUser] at posture
  have isDeque := (peekBottom_user posture bottom).1
  have has : c ∈ s.core.carried pc w := by simp [Core.carried, isDeque]
  have sameStacks := stacks_cilkSync synced
  have fibers := fibers_cilkSync (accounted.placed.kin.real c) synced
  rcases cilkSync_cases (accounted.placed.kin.real c) synced with
    ⟨childless, rfl, core⟩ | ⟨-, rfl, core⟩
  · rw [if_pos rfl] at fibers
    have saved (d : ℕ) : t.fibers.fiberChild d =
        if d = c then none else s.fibers.fiberChild d := by
      rw [fibers, Fibers.sync_fiberChild, Fibers.free_fiberChild]
    have keeps (d : ℕ) (other : d ≠ c) : s.Settled d ↔ t.Settled d := by
      apply State.settled_congr
      · rw [core]
      · rw [saved, if_neg other]
    rw [core] at placed
    have noChild : (s.closures c).joinCounter = 0 := by
      simpa using (Bool.or_eq_false_iff.mp childless).2
    have isSettled : t.Settled c := by
      rw [State.Settled, core]
      exact ⟨noChild, (saved c).trans (if_pos rfl)⟩
    have passed := accounted.syncPassed isUser isDeque isSettled
      (fun d _ other => keeps d other) placed
    exact ⟨_, passed.of_state core sameStacks fun _ _ => Iff.rfl⟩
  · rw [if_neg Bool.false_ne_true] at fibers
    rw [core] at placed
    refine ⟨_, (accounted.restatus has (not_promoting isUser) placed
      (fun _ _ => rfl) rfl rfl rfl ClosureStatus.noConfusion
      ClosureStatus.noConfusion (List.Sublist.refl _) trivial).of_state core
        sameStacks fun d _ => State.settled_congr ?_ ?_⟩
    · rw [core, Core.setDeque, Core.setStatus_nodes]
    · rw [fibers, Fibers.wait_fiberChild, Fibers.free_fiberChild]

theorem reducerIteration_step {parent child : ℕ}
    (isReturning : pc w = .returning child)
    (placed : Placed (reducerIteration s w parent child).core
      (Function.update pc w (.returning child))) :
    ∃ young', Accounted (reducerIteration s w parent child).core
      (reducerIteration s w parent child).stacks
      (Function.update pc w (.returning child)) root
      (reducerIteration s w parent child).Settled young' := by
  refine ⟨_, accounted.resting (by
    rw [isReturning]
    exact fun _ _ => Pc.noConfusion) placed (core_reducerIteration ..)
    (stacks_reducerIteration ..) ?_ (List.Sublist.refl _) trivial⟩
  intro c
  apply State.settled_congr
  · rw [core_reducerIteration]
  · rw [fibers_reducerIteration]

theorem finishReturn_step {parent child : ℕ} {res : Option ℕ}
    {children : ℕ → List ℕ} (offspring : s.core.Offspring root children)
    (aboard : s.Aboard) (isReturning : pc w = .returning child)
    (isParent : (s.closures child).spawnParent = some parent)
    (finished : finishReturn s w parent child = (t, res))
    (placed : Placed t.core (Function.update pc w (nextPc res))) :
    ∃ young', Accounted t.core t.stacks (Function.update pc w (nextPc res))
      root t.Settled young' := by
  have real := accounted.placed.kin.real parent
  have different : child ≠ parent :=
    Nat.ne_of_gt (accounted.placed.kin.parent child parent isParent)
  have has : child ∈ s.core.carried pc w := by
    simp [Core.carried, isReturning, Pc.closures]
  have active := accounted.placed.active has
  have notSettled : ¬ s.Settled parent := fun settled =>
    offspring.siblings.counter_ne_zero
      ((offspring.spawned parent child).mpr ⟨active.live, isParent⟩) settled.1
  obtain ⟨removed, isRemoved⟩ : ∃ removed,
    removed = childReturned s w parent child := ⟨_, rfl⟩
  have removedCore : removed.core = s.core.removeChild parent child := by
    rw [isRemoved, core_childReturned]
  have removedStacks : removed.stacks = s.stacks := by
    rw [isRemoved, stacks_childReturned]
  have saved (c : ℕ) : removed.fibers.fiberChild c =
      if c = parent ∧ (s.closures child).leftSib = none ∧
        (s.closures parent).fiberChild = none then s.fibers.fiber child
      else s.fibers.fiberChild c := by
    have isLeft : (s.core.nodes child).leftSib = (s.closures child).leftSib := rfl
    have isSaved : s.fibers.fiberChild parent = (s.closures parent).fiberChild :=
      rfl
    rw [isRemoved, fibers_childReturned, Fibers.leave_fiberChild]
    simp [Core.leavesFiber, isLeft, isSaved]
  have others (c : ℕ) (other : c ≠ parent) :
      s.Settled c ↔ removed.Settled c := by
    apply State.settled_congr
    · rw [removedCore]
      exact if_neg other
    · rw [saved, if_neg fun both => other both.1]
  -- The parent waits for another child, or it has the fiber of this one.
  have notRemoved : ¬ removed.Settled parent := by
    rintro ⟨noChild, nothing⟩
    rw [removedCore] at noChild
    rw [saved] at nothing
    split at nothing
    case isTrue => exact aboard child active nothing
    case isFalse notFirst =>
      cases isLeft : (s.closures child).leftSib with
      | some sibling =>
          exact offspring.counter_of_left active.live isParent isLeft noChild
      | none => exact notFirst ⟨rfl, isLeft, nothing⟩
  have keeps (c : ℕ) : s.Settled c ↔ removed.Settled c := by
    by_cases isHere : c = parent
    · exact isHere ▸ iff_of_false notSettled notRemoved
    · exact others c isHere
  rcases finishReturn_eq real isRemoved finished with
    ⟨-, rfl, rfl⟩ | ⟨childless, isSuspended, rfl, rfl⟩
  · rw [removedCore] at placed
    exact ⟨_, (accounted.removeChild isReturning placed).of_state removedCore
      removedStacks fun c _ => keeps c⟩
  · have suspended : (s.core.nodes parent).status = .suspended := by
      have status : (removed.core.nodes parent).status = .suspended :=
        isSuspended
      rw [removedCore] at status
      exact (if_neg different.symm).symm.trans status
    have noChildren : (removed.core.nodes parent).hasChildren = false :=
      childless
    rw [removedCore] at noChildren
    obtain ⟨noCallee, noChild⟩ := Bool.or_eq_false_iff.mp noChildren
    rw [bne_eq_false_iff_eq] at noChild
    obtain ⟨readied, isReadied⟩ : ∃ readied, readied =
      closureMakeReady (setupForSync (removed.modifyWorker w
        ({ · with provablyGoodSteal := true })) w parent) parent := ⟨_, rfl⟩
    have core : readied.core =
        (s.core.removeChild parent child).setStatus parent .ready := by
      rw [isReadied, closureMakeReady, core_closureSetStatus,
        core_setupForSync, core_modifyWorker, removedCore]
    have sameStacks : readied.stacks = s.stacks.setUnsynched parent false := by
      rw [isReadied, closureMakeReady, stacks_closureSetStatus,
        stacks_setupForSync, stacks_modifyWorker_same rfl, removedStacks]
    have fibers : (resumeMaps readied w parent).fibers =
        removed.fibers.sync w parent := by
      rw [isReadied]
      exact ((fibers_finishReturn real isRemoved finished).resolve_left
        fun nothing => absurd nothing.1 (Option.some_ne_none parent)).2
    have savedAfter (c : ℕ) : (resumeMaps readied w parent).fibers.fiberChild c =
        if c = parent then none else removed.fibers.fiberChild c := by
      rw [fibers, Fibers.sync_fiberChild]
    have counter (c : ℕ) : ((resumeMaps readied w parent).core.nodes
        c).joinCounter = (removed.core.nodes c).joinCounter := by
      rw [core_resumeMaps, core, Core.setStatus_nodes, removedCore]
    have isSettled : (resumeMaps readied w parent).Settled parent := by
      rw [State.Settled, counter, savedAfter, if_pos rfl, removedCore]
      exact ⟨noChild, rfl⟩
    rw [← isReadied] at placed ⊢
    rw [core_resumeMaps, core] at placed
    refine ⟨_, (accounted.resume isReturning suspended
        (accounted.frameOf_ne_none suspended notSettled) isSettled
        (fun c _ other => (keeps c).trans (State.settled_congr (counter c) ?_))
        noCallee placed).of_state ?_ ?_ fun _ _ => Iff.rfl⟩
    · rw [savedAfter, if_neg other]
    · rw [core_resumeMaps, core]
    · rw [stacks_resumeMaps, sameStacks]

end Maps

end Accounted

section Steps

variable [Monoid M] {m m' : Machine M} {action : Action}

/-- Every step but the last one of the region. -/
theorem Step.accounted {children : ℕ → List ℕ} (taken : Step m action m')
    (accounted : Accounted m.sched.core m.sched.stacks m.pc root
      m.sched.Settled young)
    (offspring : m.sched.core.Offspring root children)
    (expecting : m.sched.core.Expecting m.pc) (aboard : m.sched.Aboard)
    (notExit : ∀ w, action ≠ .exit w) :
    ∃ young', Accounted m'.sched.core m'.sched.stacks m'.pc root
      m'.sched.Settled young' := by
  have placed := step_placed accounted.placed taken
  cases taken with
  | @call w isUser =>
      exact ⟨_, (accounted.call isUser placed).of_frames rfl stacks_enterFrame
        fibers_enterFrame⟩
  | @spawn w t sf isUser bottom current =>
      have core := core_spawn t (s := m.sched) (w := w)
      refine ⟨_, (accounted.spawn isUser current ?_).of_frames core
        (stacks_spawn t current) (fibers_spawn t)⟩
      rw [← core]
      exact placed
  | @update w map isUser =>
      have standing := accounted.stranded.standing w
      rw [isUser] at standing
      exact ⟨_, accounted.resting (Accounted.not_promoting isUser) placed rfl
        (stacks_modifyWorker_same rfl) (fun _ => Iff.rfl) (List.Sublist.refl _)
        standing⟩
  | @leaveCalled w sf isUser current synched notLast attached notStolen =>
      obtain ⟨rest, left⟩ := accounted.leaveCalled isUser current attached
        notStolen placed
      exact ⟨_, left.of_frames rfl stacks_popFrame (fibers_popFrame _)⟩
  | @leaveSpawned w sf s isUser current synched notLast detached isState =>
      exact accounted.leaveSpawned_step isUser current synched detached isState
        placed
  | @setReturn w sf t caller isUser current synched notLast attached stolen
      bottom isCaller =>
      exact accounted.setReturn_step isUser current stolen bottom isCaller rfl
        placed
  | exit => exact absurd rfl (notExit _)
  | @sync w sf t s ready isUser current unsynched bottom unlocked synced =>
      exact accounted.sync_step isUser bottom synced placed
  | @exceptionHandler w t s stolen isPopped bottom unlocked handled =>
      exact accounted.exceptionHandler_step isPopped bottom handled placed
  | @freeFiber w isRuntime =>
      refine ⟨_, accounted.resting ?_ placed core_freeFiber stacks_freeFiber
        (fun c => State.settled_congr ?_ ?_) (List.Sublist.refl _) trivial⟩
      · rw [isRuntime]
        exact fun _ _ => Pc.noConfusion
      · rw [goto, core_freeFiber]
      · rw [goto, fibers_freeFiber, Fibers.free_fiberChild]
  | @xtractNothing w isLooking bottom =>
      refine ⟨_, accounted.still ?_ placed (List.Sublist.refl _) trivial⟩
      rw [isLooking]
      exact fun _ _ => Pc.noConfusion
  | @xtractBottom w t isLooking bottom =>
      exact accounted.xtractBottom_step isLooking bottom placed
  | @steal w victim fiber cl res s isThief other pooled top unlocked stolen =>
      exact accounted.steal_step isThief stolen placed
  | @finishPromote w cl res fuel s isPromoting finished =>
      exact accounted.finishPromote_step isPromoting expecting finished placed
  | @setupForExecution w t isHolding unlocked isReady =>
      exact accounted.setupForExecution_step isHolding isReady rfl placed
  | @execute w t isExecuting =>
      exact accounted.execute_step isExecuting rfl placed
  | @returnValue w t isHolding unlocked isReturning =>
      refine ⟨_, accounted.still ?_ placed (List.Sublist.refl _) trivial⟩
      rw [isHolding]
      exact fun _ _ => Pc.noConfusion
  | @reducerIteration w child parent isReturning =>
      exact accounted.reducerIteration_step isReturning placed
  | @finishReturn w child parent s res isReturning isParent unlocked unlocked'
      left right finished =>
      exact accounted.finishReturn_step offspring aboard isReturning isParent
        finished placed
  | mapFiber => exact ⟨young, accounted⟩
  | unmapFiber => exact ⟨young, accounted⟩

omit [Monoid M] in
/-- A child is only removed when the step says so. -/
theorem CoreMove.counter_ne_zero {made : Core}
    (move : CoreMove core pc action made) (allocated : c < core.created)
    (hasChild : (core.nodes c).joinCounter ≠ 0)
    (keeps : ∀ w child, action = .finishReturn w → child ∈ core.carried pc w →
      (core.nodes child).spawnParent ≠ some c) :
    (made.nodes c).joinCounter ≠ 0 := by
  cases move with
  | still => exact hasChild
  | own =>
      rw [Core.setDeque, Core.setStatus_nodes]
      exact hasChild
  | setReturn =>
      simp only [Core.setReturn]
      split
      · exact hasChild
      · split <;> exact hasChild
  | @removeChild w child parent has isParent =>
      have notParent : c ≠ parent := by
        rintro rfl
        exact keeps w child rfl has isParent
      exact (if_neg notParent).trans_ne hasChild
  | @resume w child parent has isParent =>
      have notParent : c ≠ parent := by
        rintro rfl
        exact keeps w child rfl has isParent
      rw [Core.setStatus_nodes]
      exact (if_neg notParent).trans_ne hasChild
  | @stealItself w v cl deque =>
      simp only [Core.setDeque, Core.addChild, if_neg allocated.ne]
      split
      · exact Nat.succ_ne_zero _
      · split <;> exact hasChild
  | @stealCallee w v cl deque =>
      have notChild : c ≠ core.created + 1 := by omega
      simp only [Core.setDeque, Core.addChild, Core.addTempCallee,
        if_neg notChild, if_neg allocated.ne]
      grind
  | @promote w cl res closures made has isCaller chain =>
      have notBetween : c ∉ closures := fun member =>
        absurd allocated (not_lt.mpr (chain.fresh c member).1)
      by_cases isCl : c = cl
      · obtain ⟨_, node⟩ := chain.older
        rw [isCl, node]
        exact isCl ▸ hasChild
      by_cases isRes : c = res
      · obtain ⟨_, node⟩ := chain.younger
        rw [isRes, node]
        exact isRes ▸ hasChild
      · rw [chain.kept c notBetween isCl isRes]
        exact hasChild

/-- A worker promotes what it has stolen. -/
theorem Step.promoting {v cl res : ℕ} (taken : Step m action m')
    (isPromoting : m'.pc v = .promoting cl res) :
    m.pc v = .promoting cl res ∨ ∃ victim fiber s,
      dequePeekTop m.sched victim = some cl ∧
      closureStealTop m.sched victim fiber = some (s, cl, res) ∧
      m' = m.goto v (.promoting cl res) s := by
  have earlier {w : ℕ} {p : Pc} {s : State M}
      (notHere : p ≠ .promoting cl res)
      (here : (m.goto w p s).pc v = .promoting cl res) :
      m.pc v = .promoting cl res := by
    by_cases isW : v = w
    · subst isW
      exact absurd ((Function.update_self ..).symm.trans here) notHere
    · exact (Function.update_of_ne isW ..).symm.trans here
  cases taken with
  | call | spawn | update | leaveCalled | setReturn | exit | freeFiber
  | xtractNothing | xtractBottom | finishPromote | setupForExecution | execute
  | returnValue | reducerIteration =>
      exact .inl (earlier Pc.noConfusion isPromoting)
  | leaveSpawned =>
      refine .inl (earlier ?_ isPromoting)
      split <;> exact Pc.noConfusion
  | @sync w sf t s ready =>
      refine .inl (earlier ?_ isPromoting)
      cases ready <;> exact Pc.noConfusion
  | @exceptionHandler w t s stolen =>
      refine .inl (earlier ?_ isPromoting)
      cases stolen <;> exact Pc.noConfusion
  | @finishReturn w child parent s res =>
      refine .inl (earlier ?_ isPromoting)
      cases res <;> exact Pc.noConfusion
  | @steal w victim fiber cl' res' s isThief other pooled top unlocked stolen =>
      by_cases isW : v = w
      · subst isW
        have isHere := (Function.update_self ..).symm.trans isPromoting
        cases isHere
        exact .inr ⟨victim, fiber, s, top, stolen, rfl⟩
      · exact .inl ((Function.update_of_ne isW ..).symm.trans isPromoting)
  | mapFiber | unmapFiber => exact .inl isPromoting

theorem Step.expecting (taken : Step m action m')
    (placed : Placed m.sched.core m.pc)
    (expecting : m.sched.core.Expecting m.pc) :
    m'.sched.core.Expecting m'.pc := by
  have move := taken.coreMove placed
  intro v cl res isPromoting
  rcases taken.promoting isPromoting with was | ⟨victim, fiber, s, top, stolen,
    rfl⟩
  · apply move.counter_ne_zero (placed.promoting was).2.2
      (expecting v cl res was)
    rintro w child rfl has isParent
    cases taken with
    | @finishReturn w child' parent s res' isReturning isParent' unlocked =>
        have posture := placed.posture w
        rw [isReturning] at posture
        have isChild : child = child' := by
          simpa [Core.carried, posture.1, isReturning, Pc.closures] using has
        subst isChild
        cases isParent'.symm.trans isParent
        exact unlocked v cl was
  · have running := (closureStealTop_some stolen).2.1
    have allocated : cl < m.sched.created :=
      placed.allocated (by simp [Node.Live, running])
    rw [goto]
    rcases closureStealTop_cases stolen allocated
      (placed.kin.siblingsAllocated cl) with ⟨rfl, core⟩ | ⟨rfl, core⟩ <;>
        simp only [core]
    · have notNew : res ≠ m.sched.core.created := allocated.ne
      simp [Core.setDeque, Core.addChild, notNew]
    · have isOld : m.sched.core.created ≠
          (m.sched.core.addTempCallee cl).created := (Nat.lt_succ_self _).ne
      simp [Core.setDeque, Core.addChild, isOld]

end Steps

end Multicilk.Scheduler
