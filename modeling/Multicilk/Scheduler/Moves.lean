import Multicilk.Scheduler.StatusAndLocation

/-!
# What a step does to the closures

A step of the scheduler leaves the closure tree alone, or it is one of a few
moves.  A worker that is not concerned keeps what it has.
-/

namespace Multicilk.Scheduler

open Machine

variable {M : Type*}

/-- The worker that takes the step. -/
def Action.worker : Action → Option ℕ
  | .call w | .spawn w | .update w | .leaveCalled w | .leaveSpawned w
  | .setReturn w | .exit w | .sync w | .exceptionHandler w | .freeFiber w
  | .xtractBottom w | .steal w _ | .finishPromote w | .setupForExecution w
  | .execute w | .returnValue w | .reducerIteration w | .finishReturn w =>
    some w
  | .mapFiber | .unmapFiber => none

/-- What becomes of the closure tree and of the deques. -/
inductive CoreMove (core : Core) (pc : ℕ → Pc) : Action → Core → Prop where
  | still {action : Action} : CoreMove core pc action core
  /-- A worker changes its deque, and the status of the closure it has. -/
  | own {action : Action} {w t : ℕ} {status : ClosureStatus}
      {deque : List ℕ} :
      action.worker = some w → t ∈ core.carried pc w →
      Node.Live { core.nodes t with status } →
      CoreMove core pc action ((core.setStatus t status).setDeque w deque)
  | setReturn {w t caller : ℕ} :
      t ∈ core.carried pc w → (core.nodes t).callParent = some caller →
      CoreMove core pc (.setReturn w) (core.setReturn w t caller)
  | removeChild {w child parent : ℕ} :
      child ∈ core.carried pc w →
      (core.nodes child).spawnParent = some parent →
      CoreMove core pc (.finishReturn w) (core.removeChild parent child)
  | resume {w child parent : ℕ} :
      child ∈ core.carried pc w →
      (core.nodes child).spawnParent = some parent →
      ((core.removeChild parent child).nodes parent).hasChildren = false →
      (core.nodes parent).status = .suspended →
      CoreMove core pc (.finishReturn w)
        ((core.removeChild parent child).setStatus parent .ready)
  | stealItself {w v cl : ℕ} {deque : List ℕ} :
      cl ∈ core.deques v → (core.nodes cl).status = .running →
      CoreMove core pc (.steal w v) ((core.addChild cl).setDeque v deque)
  | stealCallee {w v cl : ℕ} {deque : List ℕ} :
      cl ∈ core.deques v → (core.nodes cl).status = .running →
      CoreMove core pc (.steal w v)
        (((core.addTempCallee cl).addChild core.created).setDeque v deque)
  | promote {w cl res : ℕ} {closures : List ℕ} {made : Core} :
      res ∈ core.carried pc w → (core.nodes res).callParent = some cl →
      core.Chained made cl res closures →
      CoreMove core pc (.finishPromote w) made

section Moves

variable [Monoid M] {m m' : Machine M} {action : Action} {core made : Core}
  {pc : ℕ → Pc} {w v c t : ℕ}

omit [Monoid M] in
theorem CoreMove.status {status : ClosureStatus}
    (acts : action.worker = some w) (has : t ∈ core.carried pc w)
    (live : Node.Live { core.nodes t with status }) :
    CoreMove core pc action (core.setStatus t status) := by
  have move := @CoreMove.own core pc action w t status (core.deques w) acts has
    live
  rwa [← (core.setStatus t status).setDeque_self w]

omit [Monoid M] in
theorem CoreMove.deque {deque : List ℕ} (placed : Placed core pc)
    (acts : action.worker = some w) (has : t ∈ core.carried pc w) :
    CoreMove core pc action (core.setDeque w deque) := by
  have move := @CoreMove.own core pc action w t (core.nodes t).status deque
    acts has (placed.active has).live
  rwa [core.setStatus_self] at move

omit [Monoid M] in
theorem mem_carried_of_bottom {s : State M}
    (bottom : dequePeekBottom s w = some t) : t ∈ s.core.carried pc w :=
  List.mem_append_left _ (List.mem_of_getLast? bottom)

omit [Monoid M] in
/-- A thief promotes old closures. -/
theorem Placed.promoting {cl res : ℕ} (placed : Placed core pc)
    (isPromoting : pc w = .promoting cl res) :
    (cl ≠ res → (core.nodes res).callParent = some cl) ∧
      cl < core.created ∧ res < core.created := by
  have posture := placed.posture w
  rw [isPromoting] at posture
  obtain ⟨-, running, caller⟩ := posture
  have live : (core.nodes res).Live := by simp [Node.Live, running]
  refine ⟨caller, ?_, placed.allocated live⟩
  by_cases same : cl = res
  · exact same ▸ placed.allocated live
  · exact placed.allocated (by
      simp [Node.Live, (placed.caller res cl live (caller same)).1])

theorem Step.coreMove (placed : Placed m.sched.core m.pc)
    (taken : Step m action m') :
    CoreMove m.sched.core m.pc action m'.sched.core := by
  cases taken with
  | call => exact .still
  | @spawn w t =>
      have same := core_spawn t (s := m.sched) (w := w)
      exact same.symm ▸ .still
  | update | leaveCalled => exact .still
  | @leaveSpawned w sf s isUser current synched notLast detached isState =>
      have same : s.core = m.sched.core := isState ▸ core_leaveDetached sf
      exact same.symm ▸ .still
  | @setReturn w sf t callParent isUser current synched notLast attached
      stolen bottom caller =>
      have has := @mem_carried_of_bottom _ m.pc _ _ _ bottom
      have different : t ≠ callParent := by
        rintro rfl
        have active := placed.active has
        exact active.not_suspended
          (placed.caller t t active.live caller).1
      have move := CoreMove.setReturn has caller
      rwa [← core_popFrame sf, ← core_cilkSetReturn different] at move
  | @exit w sf isUser =>
      have posture := placed.posture w
      rw [isUser] at posture
      obtain ⟨t, isDeque, -⟩ := posture
      have has : t ∈ m.sched.core.carried m.pc w := by
        simp [Core.carried, isDeque]
      exact .deque placed rfl has
  | @sync w sf t s ready isUser current unsynched bottom unlocked synced =>
      have has := @mem_carried_of_bottom _ m.pc _ _ _ bottom
      rcases cilkSync_cases (placed.kin.real t) synced with
        ⟨-, -, same⟩ | ⟨-, -, suspended⟩
      · exact same.symm ▸ .still
      · exact suspended.symm ▸ .own rfl has (by simp [Node.Live])
  | @exceptionHandler w t s stolen isPopped bottom unlocked handled =>
      have has := @mem_carried_of_bottom _ m.pc _ _ _ bottom
      rcases cilkExceptionHandler_cases handled with
        ⟨-, -, same⟩ | ⟨-, -, returning⟩
      · exact same.symm ▸ .still
      · split at returning
        · exact returning.symm ▸ .status rfl has (by simp [Node.Live])
        · exact returning.symm ▸ .still
  | @freeFiber w =>
      have same := core_freeFiber (s := m.sched) (w := w)
      exact same.symm ▸ .still
  | xtractNothing => exact .still
  | @xtractBottom w t isLooking bottom =>
      exact .deque placed rfl (mem_carried_of_bottom bottom)
  | @steal w victim fiber cl res s isThief other pooled top unlocked stolen =>
      have running := (closureStealTop_some stolen).2.1
      have member : cl ∈ m.sched.core.deques victim := List.mem_of_head? top
      have allocated : cl < m.sched.created :=
        placed.allocated (by simp [Node.Live, running])
      rcases closureStealTop_cases stolen allocated
        (placed.kin.siblingsAllocated cl) with ⟨-, core⟩ | ⟨-, core⟩
      · exact core.symm ▸ .stealItself member running
      · exact core.symm ▸ .stealCallee member running
  | @finishPromote w cl res fuel s isPromoting finished =>
      obtain ⟨caller, clAllocated, allocated⟩ := placed.promoting isPromoting
      have has : res ∈ m.sched.core.carried m.pc w := by
        simp [Core.carried, isPromoting, Pc.closures]
      rcases finishPromote_cases finished caller clAllocated allocated with
        ⟨-, core⟩ | ⟨different, closures, chain⟩
      · exact core.symm ▸ .status rfl has (by simp [Node.Live])
      · exact .promote has (caller different) chain
  | @setupForExecution w t isHolding =>
      have has : t ∈ m.sched.core.carried m.pc w := by
        simp [Core.carried, isHolding, Pc.closures]
      exact core_setupForExecution t ▸
        .status rfl has (by simp [Node.Live])
  | @execute w t isExecuting =>
      have has : t ∈ m.sched.core.carried m.pc w := by
        simp [Core.carried, isExecuting, Pc.closures]
      have core := core_longjmpToUserCode t
        (s := dequeAddBottom m.sched t w) (w := w)
      exact core.symm ▸ .deque placed rfl has
  | returnValue => exact .still
  | @reducerIteration w child parent =>
      have same := core_reducerIteration parent child (s := m.sched) (w := w)
      exact same.symm ▸ .still
  | @finishReturn w child parent s res isReturning isParent unlocked unlocked'
      left right finished =>
      have has : child ∈ m.sched.core.carried m.pc w := by
        simp [Core.carried, isReturning, Pc.closures]
      have different : child ≠ parent :=
        Nat.ne_of_gt (placed.kin.parent child parent isParent)
      rcases finishReturn_cases (placed.kin.real parent) different finished with
        ⟨childless, suspended, -, core⟩ | ⟨-, -, core⟩
      · exact core.symm ▸ .resume has isParent childless suspended
      · exact core.symm ▸ .removeChild has isParent
  | mapFiber | unmapFiber => exact .still

end Moves

section Bystanders

variable {core made : Core} {pc : ℕ → Pc} {action : Action} {v c : ℕ}

/-- A closure with a callee waits for it. -/
def Core.Waits (core : Core) : Prop :=
  ∀ c, (core.nodes c).hasCilkCallee = true →
    (core.nodes c).status = .suspended

/-- A closure keeps its status while neither its own worker nor a thief of it
takes a step. -/
theorem CoreMove.carried_status (move : CoreMove core pc action made)
    (placed : Placed core pc) (carries : c ∈ core.carried pc v)
    (other : action.worker ≠ some v) (notVictim : ∀ w, action ≠ .steal w v) :
    (made.nodes c).status = (core.nodes c).status := by
  have active := placed.active carries
  have allocated := placed.allocated active.live
  have notMine {w t : ℕ} (acts : action.worker = some w)
      (has : t ∈ core.carried pc w) : c ≠ t := by
    rintro rfl
    exact other (placed.apart v w c carries has ▸ acts)
  have notSuspended {d : ℕ} (suspended : (core.nodes d).status = .suspended) :
      c ≠ d := by
    rintro rfl
    exact active.not_suspended suspended
  cases move with
  | still => rfl
  | own acts has =>
      exact (congrArg Node.status (Core.setStatus_nodes core _)).trans
        (if_neg (notMine acts has))
  | @setReturn w t caller has isCaller =>
      have suspended :=
        (placed.caller t caller (placed.active has).live isCaller).1
      simp [Core.setReturn, notMine rfl has, notSuspended suspended]
  | removeChild has => exact if_neg (notMine rfl has)
  | @resume w child parent has isParent childless suspended =>
      rw [Core.setStatus_nodes]
      exact (if_neg (notSuspended suspended)).trans
        (if_neg (notMine rfl has))
  | @stealItself w victim cl deque member running =>
      have notTop : c ≠ cl := by
        rintro rfl
        have here : c ∈ core.carried pc victim :=
          List.mem_append_left _ member
        exact notVictim w (placed.apart v victim c carries here ▸ rfl)
      simp only [Core.setDeque, Core.addChild, if_neg (Nat.ne_of_lt allocated),
        if_neg notTop]
      split <;> rfl
  | @stealCallee w victim cl deque member running =>
      have notTop : c ≠ cl := by
        rintro rfl
        have here : c ∈ core.carried pc victim :=
          List.mem_append_left _ member
        exact notVictim w (placed.apart v victim c carries here ▸ rfl)
      have notNew : c ≠ core.created + 1 := by omega
      simp [Core.setDeque, Core.addChild, Core.addTempCallee, notTop, notNew,
        Nat.ne_of_lt allocated]
  | @promote w cl res closures _ has isCaller chain =>
      have suspended :=
        (placed.caller res cl (placed.active has).live isCaller).1
      have notBetween : c ∉ closures := fun member =>
        absurd allocated (not_lt.mpr (chain.fresh c member).1)
      rw [chain.kept c notBetween (notSuspended suspended) (notMine rfl has)]

/-- In the same way a closure without children has none afterwards. -/
theorem CoreMove.carried_childless (move : CoreMove core pc action made)
    (placed : Placed core pc) (carries : c ∈ core.carried pc v)
    (notVictim : ∀ w, action ≠ .steal w v)
    (childless : (core.nodes c).hasChildren = false) :
    (made.nodes c).hasChildren = false := by
  have active := placed.active carries
  have allocated := placed.allocated active.live
  have notTop {w victim cl : ℕ} (steals : action = .steal w victim)
      (member : cl ∈ core.deques victim) : c ≠ cl := by
    rintro rfl
    have here : c ∈ core.carried pc victim := List.mem_append_left _ member
    exact notVictim w (placed.apart v victim c carries here ▸ steals)
  obtain ⟨noCallee, noChild⟩ := Bool.or_eq_false_iff.mp childless
  have removed (child parent : ℕ) :
      ((core.removeChild parent child).nodes c).hasChildren = false := by
    refine Bool.or_eq_false_iff.mpr ⟨noCallee, ?_⟩
    simp only [bne_eq_false_iff_eq] at noChild ⊢
    simp only [Core.removeChild]
    split <;> simp [noChild]
  cases move with
  | still => exact childless
  | own =>
      rw [Core.setDeque, Core.setStatus_nodes]
      exact childless
  | @setReturn w t caller has isCaller =>
      simp only [Core.setReturn]
      split
      · exact noChild
      · split <;> exact childless
  | @removeChild w child parent has => exact removed child parent
  | @resume w child parent has isParent isChildless suspended =>
      rw [Core.setStatus_nodes]
      exact removed child parent
  | @stealItself w victim cl deque member running =>
      simp only [Core.setDeque, Core.addChild, if_neg (Nat.ne_of_lt allocated),
        if_neg (notTop rfl member)]
      split <;> exact childless
  | @stealCallee w victim cl deque member running =>
      have notNew : c ≠ core.created + 1 := by omega
      simpa [Core.setDeque, Core.addChild, Core.addTempCallee, notNew,
        notTop rfl member, Nat.ne_of_lt allocated] using childless
  | @promote w cl res closures _ has isCaller chain =>
      have notBetween : c ∉ closures := fun member =>
        absurd allocated (not_lt.mpr (chain.fresh c member).1)
      have notCaller : c ≠ cl := by
        rintro rfl
        exact active.not_suspended
          (placed.caller res c (placed.active has).live isCaller).1
      by_cases isYounger : c = res
      · obtain ⟨callParent, younger⟩ := chain.younger
        rw [isYounger, younger]
        exact isYounger ▸ childless
      · rw [chain.kept c notBetween notCaller isYounger]
        exact childless

/-- A suspended closure without a callee goes on when its last child returns,
and not before. -/
theorem CoreMove.suspended (move : CoreMove core pc action made)
    (placed : Placed core pc) (isSuspended : (core.nodes c).status = .suspended)
    (noCallee : (core.nodes c).hasCilkCallee = false) :
    (made.nodes c).hasCilkCallee = false ∧
      ((made.nodes c).status = .suspended ∨
        (made.nodes c).status = .ready ∧ ∃ w, action = .finishReturn w) := by
  have live : (core.nodes c).Live := by simp [Node.Live, isSuspended]
  have allocated := placed.allocated live
  have notActive {w t : ℕ} (has : t ∈ core.carried pc w) : c ≠ t := by
    rintro rfl
    exact placed.not_carried isSuspended has
  have notCaller {d p : ℕ} (active : (core.nodes d).Active)
      (isCaller : (core.nodes d).callParent = some p) : c ≠ p := by
    rintro rfl
    have has := (placed.caller d c active.live isCaller).2
    rw [noCallee] at has
    cases has
  cases move with
  | still => exact ⟨noCallee, .inl isSuspended⟩
  | @own _ w t status deque acts has =>
      have node : ((core.setStatus t status).setDeque w deque).nodes c =
          core.nodes c := by
        rw [Core.setDeque, Core.setStatus_nodes, if_neg (notActive has)]
      rw [node]
      exact ⟨noCallee, .inl isSuspended⟩
  | @setReturn w t caller has isCaller =>
      have node : (core.setReturn w t caller).nodes c = core.nodes c := by
        simp [Core.setReturn, notActive has,
          notCaller (placed.active has) isCaller]
      rw [node]
      exact ⟨noCallee, .inl isSuspended⟩
  | removeChild has =>
      exact ⟨noCallee, .inl ((if_neg (notActive has)).trans isSuspended)⟩
  | @resume w child parent has isParent childless suspended =>
      have status : (((core.removeChild parent child).setStatus parent
          .ready).nodes c).status =
            if c = parent then .ready else (core.nodes c).status := by
        rw [Core.setStatus_nodes]
        refine if_congr Iff.rfl rfl ?_
        exact if_neg (notActive has)
      refine ⟨by rw [Core.setStatus_nodes]; exact noCallee, ?_⟩
      rw [status]
      split
      · exact .inr ⟨rfl, w, rfl⟩
      · exact .inl isSuspended
  | @stealItself w victim cl deque member running =>
      have notTop : c ≠ cl := by
        rintro rfl
        rw [isSuspended] at running
        cases running
      simp only [Core.setDeque, Core.addChild, if_neg (Nat.ne_of_lt allocated),
        if_neg notTop]
      split <;> exact ⟨noCallee, .inl isSuspended⟩
  | @stealCallee w victim cl deque member running =>
      have notTop : c ≠ cl := by
        rintro rfl
        rw [isSuspended] at running
        cases running
      have notNew : c ≠ core.created + 1 := by omega
      simp [Core.setDeque, Core.addChild, Core.addTempCallee, notTop, notNew,
        Nat.ne_of_lt allocated, noCallee, isSuspended]
  | @promote w cl res closures _ has isCaller chain =>
      have notBetween : c ∉ closures := fun member =>
        absurd allocated (not_lt.mpr (chain.fresh c member).1)
      rw [chain.kept c notBetween
        (notCaller (placed.active has) isCaller) (notActive has)]
      exact ⟨noCallee, .inl isSuspended⟩

theorem CoreMove.waits (move : CoreMove core pc action made)
    (placed : Placed core pc) (waits : core.Waits) : made.Waits := by
  have working {w t : ℕ} (has : t ∈ core.carried pc w) :
      ¬ (core.nodes t).hasCilkCallee = true := fun hasCallee =>
    (placed.active has).not_suspended (waits t hasCallee)
  have unused (c : ℕ) (later : core.created ≤ c) :=
    placed.kin.unused c later
  cases move with
  | still => exact waits
  | @own _ w t status deque acts has =>
      intro c hasCallee
      have isHere : (core.nodes c).hasCilkCallee = true := by
        simpa [Core.setDeque, Core.setStatus_nodes] using hasCallee
      have notMine : c ≠ t := by
        rintro rfl
        exact working has isHere
      rw [Core.setDeque, Core.setStatus_nodes, if_neg notMine]
      exact waits c isHere
  | @setReturn w t caller has isCaller =>
      intro c hasCallee
      have noCallee := working has
      have waitsHere := waits c
      simp only [Core.setReturn] at hasCallee ⊢
      grind
  | @removeChild w child parent has =>
      intro c hasCallee
      have isHere : (core.nodes c).hasCilkCallee = true := hasCallee
      have notMine : c ≠ child := by
        rintro rfl
        exact working has isHere
      exact (if_neg notMine).trans (waits c isHere)
  | @resume w child parent has isParent childless suspended =>
      intro c hasCallee
      have isHere : (core.nodes c).hasCilkCallee = true := by
        rwa [Core.setStatus_nodes] at hasCallee
      have notMine : c ≠ child := by
        rintro rfl
        exact working has isHere
      have notParent : c ≠ parent := by
        rintro rfl
        have none : (core.nodes c).hasCilkCallee = false :=
          (Bool.or_eq_false_iff.mp childless).1
        rw [none] at isHere
        cases isHere
      rw [Core.setStatus_nodes, if_neg notParent]
      exact (if_neg notMine).trans (waits c isHere)
  | @stealItself w victim cl deque member running =>
      intro c hasCallee
      have waitsHere := waits c
      have topWaits := waits cl
      simp only [Core.setDeque, Core.addChild] at hasCallee ⊢
      grind
  | @stealCallee w victim cl deque member running =>
      intro c hasCallee
      have waitsHere := waits c
      simp only [Core.setDeque, Core.addChild, Core.addTempCallee]
        at hasCallee ⊢
      grind
  | @promote w cl res closures made has isCaller chain =>
      intro c hasCallee
      obtain ⟨callee, older⟩ := chain.older
      obtain ⟨callParent, younger⟩ := chain.younger
      by_cases isBetween : c ∈ closures
      · obtain ⟨_, _, node⟩ := chain.between c isBetween
        rw [node]
      by_cases isOlder : c = cl
      · rw [isOlder, older]
        exact (placed.caller res cl (placed.active has).live isCaller).1
      by_cases isYounger : c = res
      · rw [isYounger, younger] at hasCallee
        exact absurd hasCallee (working has)
      · rw [chain.kept c isBetween isOlder isYounger] at hasCallee ⊢
        exact waits c hasCallee

end Bystanders

section Elsewhere

variable [Monoid M] {m m' : Machine M} {action : Action} {w v : ℕ}
  {s t : State M}

omit [Monoid M] in
theorem workers_modifyFrameOf (frame : Option ℕ)
    (change : StackFrame → StackFrame) :
    (s.modifyFrameOf frame change).workers = s.workers := by
  cases frame <;> rfl

omit [Monoid M] in
theorem workers_detach (sf : ℕ) (other : v ≠ w) :
    (detach s w sf).workers v = s.workers v := by
  unfold detach
  split
  · exact Function.update_of_ne other ..
  · rfl

omit [Monoid M] in
theorem workers_freeFiber (other : v ≠ w) :
    (freeFiber s w).workers v = s.workers v := by
  unfold freeFiber
  split
  · exact Function.update_of_ne other ..
  · rfl

omit [Monoid M] in
theorem workers_setupForSync (c : ℕ) (other : v ≠ w) :
    (setupForSync s w c).workers v = s.workers v := by
  simp only [setupForSync, State.modifyClosure, workers_modifyFrameOf]
  split
  · rfl
  · exact Function.update_of_ne other ..

theorem workers_cilkSync {c : ℕ} {ready : Bool} (other : v ≠ w)
    (synced : cilkSync s w c = (t, ready)) : t.workers v = s.workers v := by
  simp only [cilkSync] at synced
  split at synced
  · cases synced
    simp only [State.modifyClosure, closureSuspend, dequeXtractBottom,
      workers_modifyFrameOf, closureSetStatus]
    rw [State.modifyWorker_other _ other, State.modifyWorker_other _ other,
      workers_freeFiber other]
  · cases synced
    rw [State.modifyWorker_other _ other]
    exact (workers_setupForSync c other).trans (workers_freeFiber other)

/-- A sync that succeeds leaves the shadow stack alone. -/
theorem workers_cilkSync_self {c : ℕ} (synced : cilkSync s w c = (t, true)) :
    (t.workers w).tail = (s.workers w).tail ∧
      (t.workers w).head = (s.workers w).head := by
  have freed : ((freeFiber s w).workers w).tail = (s.workers w).tail ∧
      ((freeFiber s w).workers w).head = (s.workers w).head := by
    unfold freeFiber
    split
    · rw [State.modifyWorker_self]
      exact ⟨rfl, rfl⟩
    · exact ⟨rfl, rfl⟩
  simp only [cilkSync] at synced
  split at synced
  · cases synced
  · cases synced
    rw [State.modifyWorker_self, ← freed.1, ← freed.2]
    simp only [State.modifyClosure, setupForSync, workers_modifyFrameOf]
    split
    · exact ⟨rfl, rfl⟩
    · simp

omit [Monoid M] in
theorem workers_resetExceptionPointer (other : v ≠ w) :
    (resetExceptionPointer s w).workers v = s.workers v :=
  State.modifyWorker_other _ other

omit [Monoid M] in
theorem workers_cilkExceptionHandler {c : ℕ} {stolen : Bool} (other : v ≠ w)
    (handled : cilkExceptionHandler s w c = (t, stolen)) :
    t.workers v = s.workers v := by
  simp only [cilkExceptionHandler] at handled
  split at handled
  · split at handled <;> cases handled <;>
      exact workers_resetExceptionPointer other
  · cases handled
    exact workers_resetExceptionPointer other

omit [Monoid M] in
theorem workers_cilkSetReturn {c caller : ℕ} (other : v ≠ w) :
    (cilkSetReturn s w c caller).workers v = s.workers v := by
  simp only [cilkSetReturn, dequeAddBottom, closureDestroy,
    closureSetStatus, State.modifyClosure, setupCallParentResumption]
  rw [workers_resetExceptionPointer other, workers_modifyFrameOf]
  rfl

omit [Monoid M] in
theorem workers_extractTop {victim cl : ℕ} {fiber : Option ℕ}
    (other : v ≠ victim) :
    (extractTopSpawningClosure s victim cl fiber).1.workers v =
      s.workers v := by
  have parent : (promoteSpawnParent s victim cl).1.workers = s.workers := by
    simp only [promoteSpawnParent]
    split
    · rfl
    · split <;> rfl
  have child (s : State M) (spawnParent : ℕ) :
      (promoteSpawnChild s victim spawnParent).workers v = s.workers v := by
    have added (s : State M) (child : ℕ) :
        (closureAddChild s spawnParent child).workers = s.workers := by
      rw [closureAddChild_rest]
    simp only [promoteSpawnChild, dequeAddBottom, State.modifyClosure,
      State.modifyWorker]
    rw [Function.update_of_ne other, added]
    rfl
  have both : (promoteChild s victim cl).1.workers v = s.workers v := by
    rw [promoteChild]
    exact (child _ _).trans (congrFun parent v)
  simp only [extractTopSpawningClosure]
  split
  all_goals
    simp only [State.modifyClosure, takeFiber, dequeXtractTop]
    cases fiber <;> exact both

omit [Monoid M] in
theorem workers_finishPromote {fuel cl res : ℕ}
    (finished : finishPromote s fuel res (cl ≠ res) = some t)
    (caller : cl ≠ res → (s.core.nodes res).callParent = some cl)
    (allocated : cl < s.created) (stolenAllocated : res < s.created) :
    t.workers = s.workers := by
  have ready (s : State M) : (readyParent s res).workers = s.workers :=
    workers_modifyFrameOf ..
  rw [finishPromote] at finished
  by_cases same : cl = res
  · simp only [same, ne_eq, not_true_eq_false, decide_false, Bool.false_eq_true,
      if_false, Option.map_some, Option.some.injEq] at finished
    exact finished ▸ ready s
  · simp only [same, ne_eq, not_false_eq_true, decide_true, if_true]
      at finished
    obtain ⟨promoted, made, rfl⟩ := Option.map_eq_some_iff.mp finished
    obtain ⟨_, _, _, _, _, -, -, -, -, -, chain⟩ :=
      setupClosuresInStacklet_path made (caller same) allocated stolenAllocated
        (Ne.symm same)
    exact (ready promoted).trans chain.rest.workers

theorem workers_finishReturn {parent child : ℕ} {res : Option ℕ}
    (other : v ≠ w) (finished : finishReturn s w parent child = (t, res)) :
    t.workers v = s.workers v := by
  have stored (map : Option M) :
      (storeLeftRmap s parent child map).workers = s.workers := by
    unfold storeLeftRmap
    split <;> rfl
  have returned (s : State M) :
      (returnFiber s parent child).workers = s.workers := by
    simp only [returnFiber]
    split
    · cases (s.closures child).fiber <;> rfl
    · rfl
  have unlinked (s : State M) :
      (closureRemoveChild s parent child).workers = s.workers := by
    have left (s : State M) : (unlinkChild s child).workers = s.workers := by
      simp only [unlinkChild]
      cases (s.closures child).leftSib <;>
        cases (s.closures child).rightSib <;> rfl
    rw [closureRemoveChild, left]
    split <;> rfl
  have resumed (s : State M) (p : ℕ) :
      (resumeMaps s w p).workers v = s.workers v := by
    simp only [resumeMaps]
    split <;> exact State.modifyWorker_other _ other
  have stolen (s : State M) :
      (if (s.closures parent).simulatedStolen then
        (unconditionalSteal s parent, some parent)
      else provablyGoodStealMaybe s w parent).1.workers v = s.workers v := by
    split
    · rfl
    · simp only [provablyGoodStealMaybe]
      split
      · exact (workers_setupForSync parent other).trans
          (State.modifyWorker_other _ other)
      · rfl
  obtain ⟨removed, isRemoved⟩ : ∃ removed, removed =
      (closureDestroy (closureRemoveChild (returnFiber ((storeLeftRmap s parent
        child (s.workers w).reducerMap).modifyWorker w
          ({ · with reducerMap := none })) parent child) parent child)
        .closureReturn child).modifyClosure parent
          fun c => { c with joinCounter := c.joinCounter - 1 } := ⟨_, rfl⟩
  have same : removed.workers v = s.workers v := by
    rw [isRemoved]
    simp only [State.modifyClosure, closureDestroy, closureSetStatus]
    rw [unlinked, returned, State.modifyWorker_other _ other, stored]
  simp only [finishReturn, ← isRemoved] at finished
  have kept := stolen removed
  split at finished
  case h_1 s' p found =>
    cases finished
    exact ((resumed _ p).trans kept).trans same
  case h_2 s' found =>
    cases finished
    exact kept.trans same

omit [Monoid M] in
theorem CoreMove.deques {core made : Core} {pc : ℕ → Pc}
    (move : CoreMove core pc action made) (other : action.worker ≠ some v)
    (notVictim : ∀ w, action ≠ .steal w v) : made.deques v = core.deques v := by
  have notMine {w : ℕ} (acts : action.worker = some w) : v ≠ w := by
    rintro rfl
    exact other acts
  cases move with
  | still | removeChild | resume => rfl
  | own acts => exact Function.update_of_ne (notMine acts) ..
  | setReturn => exact Function.update_of_ne (notMine rfl) ..
  | @stealItself w victim | @stealCallee w victim =>
      have notV : v ≠ victim := by
        rintro rfl
        exact notVictim w rfl
      exact Function.update_of_ne notV ..
  | promote has isCaller chain => rw [chain.deques]

/-- What a step leaves alone. -/
theorem Step.elsewhere (placed : Placed m.sched.core m.pc)
    (taken : Step m action m') (other : action.worker ≠ some v)
    (notVictim : ∀ w, action ≠ .steal w v) :
    m'.pc v = m.pc v ∧ m'.sched.workers v = m.sched.workers v ∧
      m'.sched.deques v = m.sched.deques v := by
  have notMine {w : ℕ} (acts : action.worker = some w) : v ≠ w := by
    rintro rfl
    exact other acts
  have deques := (taken.coreMove placed).deques other notVictim
  rw [← and_assoc]
  refine ⟨?_, deques⟩
  clear deques
  cases taken with
  | mapFiber | unmapFiber => exact ⟨rfl, rfl⟩
  | call | update | leaveCalled | exit =>
      have away := notMine rfl
      exact ⟨Function.update_of_ne away .., Function.update_of_ne away ..⟩
  | xtractNothing | xtractBottom | returnValue =>
      exact ⟨Function.update_of_ne (notMine rfl) .., rfl⟩
  | @spawn w t sf =>
      have away := notMine rfl
      refine ⟨Function.update_of_ne away .., (workers_detach _ away).trans ?_⟩
      refine (Function.update_of_ne away ..).trans ?_
      exact congrFun (workers_modifyFrameOf _ _) v
  | @leaveSpawned w sf s isUser current synched notLast detached isState =>
      have away := notMine rfl
      subst isState
      refine ⟨Function.update_of_ne away .., ?_⟩
      exact (Function.update_of_ne away ..).trans
        (Function.update_of_ne away ..)
  | setReturn =>
      have away := notMine rfl
      refine ⟨Function.update_of_ne away .., ?_⟩
      exact (workers_cilkSetReturn away).trans (Function.update_of_ne away ..)
  | sync isUser current unsynched bottom unlocked synced =>
      have away := notMine rfl
      exact ⟨Function.update_of_ne away .., workers_cilkSync away synced⟩
  | exceptionHandler isPopped bottom unlocked handled =>
      have away := notMine rfl
      exact ⟨Function.update_of_ne away ..,
        workers_cilkExceptionHandler away handled⟩
  | freeFiber =>
      have away := notMine rfl
      exact ⟨Function.update_of_ne away .., workers_freeFiber away⟩
  | @steal w victim fiber cl res s isThief different pooled top unlocked
      stolen =>
      have notV : v ≠ victim := by
        rintro rfl
        exact notVictim w rfl
      refine ⟨Function.update_of_ne (notMine rfl) .., ?_⟩
      have extracted := (closureStealTop_some stolen).2.2.2
      have workers := @workers_extractTop _ v
        (incrementExceptionPointer m.sched victim) victim cl (some fiber) notV
      rw [extracted] at workers
      exact workers.trans (State.modifyWorker_other _ notV)
  | @finishPromote w cl res fuel s isPromoting finished =>
      obtain ⟨caller, clAllocated, allocated⟩ := placed.promoting isPromoting
      exact ⟨Function.update_of_ne (notMine rfl) .., congrFun
        (workers_finishPromote finished caller clAllocated allocated) v⟩
  | @setupForExecution w t =>
      have away := notMine rfl
      refine ⟨Function.update_of_ne away .., ?_⟩
      refine (workers_resetExceptionPointer away).trans ?_
      refine (State.modifyWorker_other _ away).trans ?_
      exact congrFun (workers_modifyFrameOf _ _) v
  | @execute w t =>
      have away := notMine rfl
      refine ⟨Function.update_of_ne away .., ?_⟩
      simp only [goto, longjmpToUserCode]
      split
      · exact State.modifyWorker_other _ away
      · split
        · rfl
        · exact congrFun (workers_modifyFrameOf _ _) v
  | @reducerIteration w child parent =>
      have away := notMine rfl
      refine ⟨Function.update_of_ne away .., ?_⟩
      refine (Function.update_of_ne away ..).trans ?_
      unfold storeLeftRmap
      split <;> rfl
  | finishReturn isReturning isParent unlocked unlocked' left right finished =>
      have away := notMine rfl
      exact ⟨Function.update_of_ne away .., workers_finishReturn away finished⟩

omit [Monoid M] in
/-- The shadow stack is empty when the execution of a closure begins. -/
theorem workers_setupForExecution (c : ℕ) :
    ((setupForExecution s w c).workers w).tail =
      ((setupForExecution s w c).workers w).head := by
  simp [setupForExecution, resetExceptionPointer, closureSetStatus,
    State.modifyClosure, workers_modifyFrameOf]

omit [Monoid M] in
theorem workers_longjmpToUserCode (c : ℕ) :
    ((longjmpToUserCode s w c).workers w).tail = (s.workers w).tail ∧
      ((longjmpToUserCode s w c).workers w).head = (s.workers w).head := by
  unfold longjmpToUserCode
  split
  · rw [State.modifyWorker_self]
    exact ⟨rfl, rfl⟩
  · split
    · exact ⟨rfl, rfl⟩
    · rw [workers_modifyFrameOf]
      exact ⟨rfl, rfl⟩

/-- What a worker does with the closure it holds. -/
theorem Step.of_holding {c : ℕ} (taken : Step m action m')
    (acts : action.worker = some w) (holds : m.pc w = .holding c) :
    action = .setupForExecution w ∧
        m' = m.goto w (.executing c) (Scheduler.setupForExecution m.sched w c) ∨
      action = .returnValue w ∧
        (m.sched.closures c).status = .returning := by
  cases taken with
  | setupForExecution isHolding unlocked ready =>
      cases acts
      cases holds.symm.trans isHolding
      exact .inl ⟨rfl, rfl⟩
  | returnValue isHolding unlocked returning =>
      cases acts
      cases holds.symm.trans isHolding
      exact .inr ⟨rfl, returning⟩
  | _ => simp_all [Action.worker]

theorem Step.of_executing {c : ℕ} (taken : Step m action m')
    (acts : action.worker = some w) (executes : m.pc w = .executing c) :
    action = .execute w ∧ m' = m.goto w .user
      (longjmpToUserCode (dequeAddBottom m.sched c w) w c) := by
  cases taken with
  | execute isExecuting =>
      cases acts
      cases executes.symm.trans isExecuting
      exact ⟨rfl, rfl⟩
  | _ => simp_all [Action.worker]

end Elsewhere

end Multicilk.Scheduler
