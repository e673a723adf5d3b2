import Multicilk.Scheduler.Fibers.Homes
import Multicilk.Scheduler.Ledger

/-!
# The closures that are destroyed

A closure is destroyed when it has returned, with nothing in it, and only then.
-/

namespace Multicilk.Scheduler

open Machine

variable {M : Type*} {core made : Core} {pc : ℕ → Pc} {action : Action}
  {b b' : Fibers} {home : ℕ → ℕ} {ledger ledger' : Ledger M}
  {children : ℕ → List ℕ}
  {c t p w v first root : ℕ}

/-- The closure has been destroyed by the function that has to do it. -/
def Destruction.ByRole (d : Destruction M) : Prop :=
  match d.destroyer with
  | .closureReturn => d.contents.status = .returning ∧
    d.contents.spawnParent ≠ none ∧ d.contents.callParent = none
  | .cilkSetReturn => d.contents.status = .running ∧
    d.contents.spawnParent = none ∧ d.contents.callParent ≠ none

/-- Nothing was left in the closure. -/
structure Destruction.Proper (d : Destruction M) : Prop where
  clean : d.contents.Clean
  childless : d.contents.hasChildren = false
  byRole : d.ByRole

section Maps

/-- Only a spawned child has a map to its right, only a closure that waits at a
sync has the map of its frame, and one that has a map of its children has the
fiber of the first one too. -/
structure Mapped (core : Core) (b : Fibers) (ledger : Ledger M) : Prop where
  right : ∀ c, (ledger.maps c).right ≠ none →
    (core.nodes c).spawnParent ≠ none
  user : ∀ c, (ledger.maps c).user ≠ none →
    (core.nodes c).status = .suspended ∧
      (core.nodes c).hasCilkCallee = false
  child : ∀ c, (ledger.maps c).child ≠ none → b.fiberChild c ≠ none

theorem Mapped.step (mapped : Mapped core b ledger)
    (move : CoreMove core pc action made) (placed : Placed core pc)
    (right : ∀ c, (ledger'.maps c).right ≠ none →
      (ledger.maps c).right ≠ none ∨ (core.nodes c).spawnParent ≠ none)
    (user : ∀ c, (ledger'.maps c).user ≠ none →
      (ledger.maps c).user ≠ none ∧ (made.nodes c).status ≠ .ready ∨
        (made.nodes c).status = .suspended ∧
          (made.nodes c).hasCilkCallee = false)
    (child : ∀ c, (ledger'.maps c).child ≠ none → b'.fiberChild c ≠ none) :
    Mapped made b' ledger' := by
  constructor
  case right =>
    intro c hasMap
    obtain ⟨p, isParent⟩ := Option.ne_none_iff_exists'.mp
      ((right c hasMap).elim (mapped.right c) id)
    rw [move.spawnParent placed isParent]
    exact Option.some_ne_none p
  case user =>
    intro c hasMap
    rcases user c hasMap with ⟨hadMap, notReady⟩ | waits
    · obtain ⟨suspended, noCallee⟩ := mapped.user c hadMap
      obtain ⟨still, status⟩ := move.suspended placed suspended noCallee
      exact ⟨status.resolve_right fun isReady => notReady isReady.1, still⟩
    · exact waits
  case child => exact child

/-- No map is stored but that of a frame that waits. -/
theorem Mapped.keep (mapped : Mapped core b ledger)
    (move : CoreMove core pc action made) (placed : Placed core pc)
    (notReturn : ∀ w, action ≠ .finishReturn w)
    (right : ∀ c, (ledger'.maps c).right ≠ none →
      (ledger.maps c).right ≠ none)
    (user : ∀ c, (ledger'.maps c).user ≠ none →
      (ledger.maps c).user ≠ none ∨ (made.nodes c).status = .suspended ∧
        (made.nodes c).hasCilkCallee = false)
    (child : ∀ c, (ledger'.maps c).child ≠ none → b'.fiberChild c ≠ none) :
    Mapped made b' ledger' := by
  refine mapped.step move placed (fun c hasMap => .inl (right c hasMap))
    (fun c hasMap => ?_) child
  rcases user c hasMap with hadMap | waits
  · obtain ⟨suspended, noCallee⟩ := mapped.user c hadMap
    obtain ⟨still, status⟩ := move.suspended placed suspended noCallee
    rcases status with stays | ⟨-, w, returns⟩
    · exact .inr ⟨stays, still⟩
    · exact absurd returns (notReturn w)
  · exact .inr waits

end Maps

section Log

/-- Every closure that has been made since the start is alive, or it has been
destroyed once. -/
structure Logged (core : Core) (log : List (Destruction M))
    (first root : ℕ) : Prop where
  once : (log.map Destruction.closure).Nodup
  dead : ∀ d ∈ log, first ≤ d.closure ∧ d.closure < core.created ∧
    ¬ (core.nodes d.closure).Live
  all : ∀ c, first ≤ c → c < core.created →
    (core.nodes c).Live ∨ c ∈ log.map Destruction.closure
  proper : ∀ d ∈ log, d.Proper
  older : ∀ c, c < first → (core.nodes c).Live → c = root
  rootOld : root < first
  rootLive : (core.nodes root).Live
  rootOrphan : (core.nodes root).spawnParent = none ∧
    (core.nodes root).callParent = none

variable {log : List (Destruction M)}

/-- Nothing is destroyed. -/
theorem Logged.keep (logged : Logged core log first root)
    (created : core.created ≤ made.created)
    (live : ∀ c, (made.nodes c).Live ↔
      (core.nodes c).Live ∨ core.created ≤ c ∧ c < made.created)
    (orphan : (made.nodes root).spawnParent = none ∧
      (made.nodes root).callParent = none)
    (firstOld : first ≤ core.created) : Logged made log first root := by
  have old (c : ℕ) (allocated : c < core.created) :
      (made.nodes c).Live ↔ (core.nodes c).Live := by
    rw [live, or_iff_left]
    exact fun isNew => absurd allocated (not_lt.mpr isNew.1)
  constructor
  case once => exact logged.once
  case dead =>
    intro d member
    obtain ⟨isNew, allocated, dead⟩ := logged.dead d member
    refine ⟨isNew, allocated.trans_le created, ?_⟩
    rwa [old d.closure allocated]
  case all =>
    intro c isNew allocated
    by_cases isOld : c < core.created
    · rw [old c isOld]
      exact logged.all c isNew isOld
    · exact .inl ((live c).mpr (.inr ⟨not_lt.mp isOld, allocated⟩))
  case proper => exact logged.proper
  case older =>
    intro c isOld isLive
    rw [old c (isOld.trans_le firstOld)] at isLive
    exact logged.older c isOld isLive
  case rootOld => exact logged.rootOld
  case rootLive => exact (live root).mpr (.inl logged.rootLive)
  case rootOrphan => exact orphan

/-- One closure is destroyed. -/
theorem Logged.destroy {destroyer : Destroyer} {contents : Closure M}
    (logged : Logged core log first root)
    (created : made.created = core.created)
    (others : ∀ c, c ≠ t → ((made.nodes c).Live ↔ (core.nodes c).Live))
    (live : (core.nodes t).Live) (dead : ¬ (made.nodes t).Live)
    (allocated : t < core.created)
    (proper : Destruction.Proper ⟨t, destroyer, contents⟩)
    (notRoot : t ≠ root)
    (orphan : (made.nodes root).spawnParent = none ∧
      (made.nodes root).callParent = none) :
    Logged made (⟨t, destroyer, contents⟩ :: log) first root := by
  have isNew : first ≤ t := by
    by_contra isOld
    exact notRoot (logged.older t (not_le.mp isOld) live)
  constructor
  case once =>
    rw [List.map_cons, List.nodup_cons]
    refine ⟨fun member => ?_, logged.once⟩
    obtain ⟨d, isLogged, same⟩ := List.mem_map.mp member
    have isDead := (logged.dead d isLogged).2.2
    rw [same] at isDead
    exact isDead live
  case dead =>
    rw [List.forall_mem_cons]
    refine ⟨⟨isNew, created.symm ▸ allocated, dead⟩, fun d member => ?_⟩
    obtain ⟨isNew, isOld, isDead⟩ := logged.dead d member
    refine ⟨isNew, created.symm ▸ isOld, ?_⟩
    rw [others]
    · exact isDead
    · intro same
      rw [same] at isDead
      exact isDead live
  case all =>
    intro c isNew isOld
    rw [List.map_cons, List.mem_cons]
    by_cases isT : c = t
    · exact .inr (.inl isT)
    · rw [others c isT]
      exact (logged.all c isNew (created ▸ isOld)).imp_right .inr
  case proper =>
    rw [List.forall_mem_cons]
    exact ⟨proper, logged.proper⟩
  case older =>
    intro c isOld isLive
    have notT : c ≠ t := fun same => absurd isNew (not_le.mpr (same ▸ isOld))
    exact logged.older c isOld ((others c notT).mp isLive)
  case rootOld => exact logged.rootOld
  case rootLive => exact (others root notRoot.symm).mpr logged.rootLive
  case rootOrphan => exact orphan

end Log

section Lives

/-- The steps that destroy no closure. -/
theorem CoreMove.live_iff (move : CoreMove core pc action made)
    (placed : Placed core pc) (notSetReturn : ∀ w, action ≠ .setReturn w)
    (notReturn : ∀ w, action ≠ .finishReturn w) :
    core.created ≤ made.created ∧ ∀ c, (made.nodes c).Live ↔
      (core.nodes c).Live ∨ core.created ≤ c ∧ c < made.created := by
  have runningLive {d : ℕ} (running : (core.nodes d).status = .running) :
      (core.nodes d).Live := by simp [Node.Live, running]
  cases move with
  | still =>
      refine ⟨le_rfl, fun c => (or_iff_left fun new => ?_).symm⟩
      exact absurd new.2 (not_lt.mpr new.1)
  | @own _ w t status deque acts has live =>
      refine ⟨le_rfl, fun c => ?_⟩
      rw [or_iff_left fun new => absurd new.2 (not_lt.mpr new.1),
        Core.setDeque, Core.setStatus_nodes]
      by_cases isT : c = t
      · rw [if_pos isT, isT]
        exact ⟨fun _ => (placed.active has).live, fun _ => live⟩
      · rw [if_neg isT]
  | setReturn => exact absurd rfl (notSetReturn _)
  | removeChild => exact absurd rfl (notReturn _)
  | resume => exact absurd rfl (notReturn _)
  | @stealItself w v cl deque member running =>
      have allocated := placed.allocated (runningLive running)
      refine ⟨Nat.le_succ _, fun c => ?_⟩
      have isNew : core.created ≤ c ∧ c < core.created + 1 ↔
          c = core.created := by omega
      rw [show ((core.addChild cl).setDeque v deque).created =
        core.created + 1 from rfl, isNew]
      exact (Core.addChild_live allocated.ne c).trans or_comm
  | @stealCallee w v cl deque member running =>
      have live := runningLive running
      refine ⟨Nat.le_add_right _ 2, fun c => ?_⟩
      have isNew : core.created ≤ c ∧ c < core.created + 2 ↔
          c = core.created + 1 ∨ c = core.created := by omega
      rw [show (((core.addTempCallee cl).addChild core.created).setDeque v
        deque).created = core.created + 2 from rfl, isNew]
      refine (Core.addChild_live (Nat.lt_succ_self _).ne c).trans ?_
      rw [Core.addTempCallee_live live, or_comm (a := (core.nodes c).Live),
        or_assoc]
      exact Iff.rfl
  | @promote w cl res closures made has isCaller chain =>
      refine ⟨chain.created, fun c => ?_⟩
      rw [chain.live (placed.active has).live, chain.mem_iff, or_comm]

/-- The root of the region keeps having no parent. -/
theorem CoreMove.orphan (move : CoreMove core pc action made)
    (placed : Placed core pc) (live : (core.nodes c).Live)
    (spawnParent : (core.nodes c).spawnParent = none)
    (callParent : (core.nodes c).callParent = none) :
    (made.nodes c).spawnParent = none ∧ (made.nodes c).callParent = none := by
  have allocated := placed.allocated live
  cases move with
  | still => exact ⟨spawnParent, callParent⟩
  | own =>
      rw [Core.setDeque, Core.setStatus_nodes]
      exact ⟨spawnParent, callParent⟩
  | setReturn =>
      simp only [Core.setReturn]
      split
      · exact ⟨spawnParent, callParent⟩
      · split <;> exact ⟨spawnParent, callParent⟩
  | removeChild => exact ⟨spawnParent, callParent⟩
  | resume =>
      rw [Core.setStatus_nodes]
      exact ⟨spawnParent, callParent⟩
  | @stealItself w v cl deque member running =>
      simp only [Core.setDeque, Core.addChild, if_neg allocated.ne]
      split
      case isTrue same => exact same ▸ ⟨spawnParent, callParent⟩
      case isFalse => split <;> exact ⟨spawnParent, callParent⟩
  | @stealCallee w v cl deque member running =>
      have notNew : c ≠ core.created + 1 := by omega
      simp only [Core.setDeque, Core.addChild, Core.addTempCallee,
        if_neg allocated.ne, if_neg notNew]
      grind
  | @promote w cl res closures made has isCaller chain =>
      have notBetween : c ∉ closures := fun member =>
        absurd allocated (not_lt.mpr (chain.fresh c member).1)
      have notRes : c ≠ res := by
        rintro rfl
        rw [callParent] at isCaller
        cases isCaller
      rw [chain.spawnParent notBetween]
      refine ⟨spawnParent, ?_⟩
      by_cases isCl : c = cl
      · obtain ⟨_, node⟩ := chain.older
        rw [isCl] at callParent ⊢
        rw [node, callParent]
      · rw [chain.kept c notBetween isCl notRes, callParent]

end Lives

section Steps

variable [Monoid M] {m m' : Machine M} {young : ℕ → List ℕ}

/-- A sync that has to wait stores the map of its frame. -/
theorem Step.sync_mapped (taken : Step m (.sync w) m')
    (placed : Placed m.sched.core m.pc) (waits : m.sched.core.Waits)
    (mapped : Mapped m.sched.core m.sched.fibers m.sched.ledger) :
    Mapped m'.sched.core m'.sched.fibers m'.sched.ledger ∧
      m'.sched.destroyed = m.sched.destroyed := by
  have move := taken.coreMove placed
  cases taken with
  | @sync w sf t s ready isUser current unsynched bottom unlocked synced =>
      obtain ⟨map, ledger⟩ := ledger_cilkSync synced
      have posture := placed.posture w
      rw [isUser] at posture
      have running := (peekBottom_user posture bottom).2
      have noCallee : (m.sched.core.nodes t).hasCilkCallee = false := by
        by_contra hasCallee
        rw [Bool.not_eq_false] at hasCallee
        rw [waits t hasCallee] at running
        cases running
      refine ⟨mapped.keep move placed (fun _ => Action.noConfusion) ?_ ?_ ?_,
        congrArg Ledger.destroyed ledger⟩
      · intro c hasMap
        have sameRight : (s.ledger.maps c).right =
            (m.sched.ledger.maps c).right := by
          rw [ledger, Ledger.modify_maps]
          split
          case isTrue isT => rw [isT]; split <;> rfl
          case isFalse => rfl
        rwa [← sameRight]
      · intro c hasMap
        have user : (s.ledger.maps c).user = if c = t ∧ ready = false then map
            else (m.sched.ledger.maps c).user := by
          rw [ledger, Ledger.modify_maps]
          by_cases isT : c = t <;> cases ready <;> simp [isT]
        have hasMapHere : (s.ledger.maps c).user ≠ none := hasMap
        rw [user] at hasMapHere
        split at hasMapHere
        case isFalse => exact .inl hasMapHere
        case isTrue waiting =>
          obtain ⟨rfl, rfl⟩ := waiting
          rcases cilkSync_cases (placed.kin.real c) synced with
            ⟨-, isReady, -⟩ | ⟨-, -, core⟩
          · cases isReady
          · refine .inr ?_
            rw [goto, core, Core.setDeque, Core.setStatus_nodes]
            exact ⟨if_pos rfl, noCallee⟩
      · intro c hasMap
        have fibers := fibers_cilkSync (placed.kin.real t) synced
        have hasMapHere : (s.ledger.maps c).child ≠ none := hasMap
        rw [goto, fibers]
        rw [ledger, Ledger.modify_maps] at hasMapHere
        by_cases isT : c = t <;> cases ready
        · simp only [if_pos isT, Bool.false_eq_true, if_false] at hasMapHere ⊢
          rw [Fibers.wait_fiberChild, Fibers.free_fiberChild, isT]
          exact mapped.child t hasMapHere
        · simp [isT] at hasMapHere
        · rw [if_neg isT] at hasMapHere
          rw [if_neg Bool.false_ne_true, Fibers.wait_fiberChild,
            Fibers.free_fiberChild]
          exact mapped.child c hasMapHere
        · rw [if_neg isT] at hasMapHere
          rw [if_pos rfl, Fibers.sync_fiberChild, if_neg isT,
            Fibers.free_fiberChild]
          exact mapped.child c hasMapHere

/-- The other steps destroy nothing and store no map, but for the two that
destroy a closure. -/
theorem Step.mapped (taken : Step m action m')
    (accounted : Accounted m.sched.core m.sched.stacks m.pc root
      m.sched.Settled young)
    (waits : m.sched.core.Waits) (homed : Homed m.sched.core m.sched.fibers home)
    (mapped : Mapped m.sched.core m.sched.fibers m.sched.ledger)
    (notSync : ∀ w, action ≠ .sync w) (notSetReturn : ∀ w, action ≠ .setReturn w)
    (notReturn : ∀ w, action ≠ .finishReturn w) :
    Mapped m'.sched.core m'.sched.fibers m'.sched.ledger ∧
      m'.sched.destroyed = m.sched.destroyed := by
  have placed := accounted.placed
  have move := taken.coreMove placed
  have saved (c : ℕ) (isSaved : m.sched.fibers.fiberChild c ≠ none) :=
    (taken.fiberMove accounted waits).saved placed homed notSync notReturn isSaved
  have same (sameLedger : m'.sched.ledger = m.sched.ledger) :
      Mapped m'.sched.core m'.sched.fibers m'.sched.ledger ∧
        m'.sched.destroyed = m.sched.destroyed := by
    refine ⟨?_, congrArg Ledger.destroyed sameLedger⟩
    rw [sameLedger]
    exact mapped.keep move placed notReturn (fun _ => id) (fun _ => .inl)
      fun c hasMap => saved c (mapped.child c hasMap)
  -- New closures have no maps.
  have fresh (maps : ∀ c, m'.sched.ledger.maps c = m.sched.ledger.maps c ∨
        m'.sched.ledger.maps c = {}) :
      Mapped m'.sched.core m'.sched.fibers m'.sched.ledger := by
    apply mapped.keep move placed notReturn <;> intro c hasMap <;>
      rcases maps c with same | none
    · rwa [same] at hasMap
    · rw [none] at hasMap
      exact absurd rfl hasMap
    · rw [same] at hasMap
      exact .inl hasMap
    · rw [none] at hasMap
      exact absurd rfl hasMap
    · rw [same] at hasMap
      exact saved c (mapped.child c hasMap)
    · rw [none] at hasMap
      exact absurd rfl hasMap
  cases taken with
  | call | update | leaveCalled | exit => exact same rfl
  | @spawn w t => exact same (ledger_spawn t)
  | leaveSpawned isUser current synched notLast detached isState =>
      refine same ?_
      rw [goto, isState]
      rfl
  | setReturn => exact absurd rfl (notSetReturn _)
  | sync => exact absurd rfl (notSync _)
  | exceptionHandler isPopped bottom unlocked handled =>
      exact same (ledger_cilkExceptionHandler handled)
  | freeFiber => exact same ledger_freeFiber
  | xtractNothing | xtractBottom | returnValue => exact same rfl
  | @steal w victim fiber cl res s isThief other pooled top unlocked stolen =>
      obtain ⟨below, rest, -, cases⟩ := accounted.stealTop stolen
      rcases cases with ⟨-, rfl, -⟩ | ⟨-, rfl, -⟩
      · refine ⟨fresh fun c => ?_, rfl⟩
        rw [goto, ledger_extractedItself]
        by_cases isNew : c = m.sched.created
        · subst isNew
          exact .inr (Function.update_self ..)
        · exact .inl (Function.update_of_ne isNew ..)
      · refine ⟨fresh fun c => ?_, rfl⟩
        rw [goto, ledger_extractedCallee]
        by_cases isChild : c = m.sched.created + 1
        · subst isChild
          exact .inr (Function.update_self ..)
        have notChild := Function.update_of_ne isChild ({} : Maps M)
          (Function.update m.sched.ledger.maps m.sched.created {})
        by_cases isNew : c = m.sched.created
        · subst isNew
          exact .inr (notChild.trans (Function.update_self ..))
        · exact .inl (notChild.trans (Function.update_of_ne isNew ..))
  | @finishPromote w cl res fuel s isPromoting finished =>
      obtain ⟨caller, clAllocated, allocated⟩ := placed.promoting isPromoting
      obtain ⟨destroyed, maps⟩ :=
        ledger_finishPromote finished caller clAllocated allocated
      exact ⟨fresh maps, destroyed⟩
  | @setupForExecution w t => exact same (ledger_setupForExecution t)
  | @execute w t => exact same (ledger_longjmpToUserCode t)
  | @reducerIteration w child parent =>
      obtain ⟨made, isMade⟩ : ∃ made, made =
        Scheduler.reducerIteration m.sched w parent child := ⟨_, rfl⟩
      have ledger : ∀ c,
          ((made.ledger.maps c).right ≠ none →
            (m.sched.ledger.maps c).right ≠ none) ∧
          (made.ledger.maps c).user = (m.sched.ledger.maps c).user ∧
          ((made.ledger.maps c).child ≠ none →
            (m.sched.ledger.maps c).child ≠ none) := by
        intro c
        rw [isMade, ledger_reducerIteration, ledger_storeLeftRmap,
          ledger_setRight]
        split <;> simp only [Ledger.modify_maps] <;> grind
      rw [← isMade] at move saved ⊢
      refine ⟨mapped.keep move placed notReturn (fun c => (ledger c).1)
        (fun c hasMap => .inl ?_) (fun c hasMap => saved c
          (mapped.child c ((ledger c).2.2 hasMap))), ?_⟩
      · rw [← (ledger c).2.1]
        exact hasMap
      · have destroyed := congrArg Ledger.destroyed
          (ledger_reducerIteration parent child (s := m.sched) (w := w))
        rw [ledger_storeLeftRmap, ← isMade] at destroyed
        refine destroyed.trans ?_
        split <;> rfl
  | finishReturn => exact absurd rfl (notReturn _)
  | mapFiber | unmapFiber => exact same rfl

end Steps

/-- What every step but the last one of a region keeps. -/
structure Regular (m : Machine M) (first root : ℕ) (young children : ℕ → List ℕ)
    (home : ℕ → ℕ) : Prop where
  accounted : Accounted m.sched.core m.sched.stacks m.pc root m.sched.Settled
    young
  homed : Homed m.sched.core m.sched.fibers home
  ashore : m.sched.core.Ashore m.sched.fibers
  expecting : m.sched.core.Expecting m.pc
  waits : m.sched.core.Waits
  called : m.sched.core.Called
  ancestry : m.sched.core.Ancestry
  offspring : m.sched.core.Offspring root children
  mapped : Mapped m.sched.core m.sched.fibers m.sched.ledger
  logged : Logged m.sched.core m.sched.destroyed first root
  firstOld : first ≤ m.sched.core.created

namespace Regular

variable {m : Machine M} {s : State M} {f caller child parent : ℕ}
  {young : ℕ → List ℕ}

/-- A closure that runs or returns and has no children has no callee either. -/
theorem childless (regular : Regular m first root young children home)
    (active : (m.sched.core.nodes c).Active)
    (noChild : (m.sched.core.nodes c).joinCounter = 0) :
    (m.sched.core.nodes c).hasChildren = false := by
  refine Bool.or_eq_false_iff.mpr ⟨?_, bne_eq_false_iff_eq.mpr noChild⟩
  by_contra hasCallee
  rw [Bool.not_eq_false] at hasCallee
  exact active.not_suspended (regular.waits c hasCallee)

theorem not_user (regular : Regular m first root young children home)
    (active : (m.sched.core.nodes c).Active) :
    (m.sched.ledger.maps c).user = none := by
  by_contra hasMap
  exact active.not_suspended (regular.mapped.user c hasMap).1

theorem no_child (regular : Regular m first root young children home)
    (settled : m.sched.Settled c) : (m.sched.ledger.maps c).child = none := by
  by_contra hasMap
  exact regular.mapped.child c hasMap settled.2

/-- The worker has synced the frame of its closure, which can be destroyed. -/
theorem setReturn_contents (regular : Regular m first root young children home)
    (isUser : m.pc w = .user)
    (current : (m.sched.workers w).currentStackFrame = some f)
    (synched : (m.sched.frames f).unsynched = false)
    (stolen : (m.sched.frames f).stolen = true)
    (bottom : dequePeekBottom m.sched w = some t)
    (isCaller : (m.sched.closures t).callParent = some caller)
    {contents : Closure M} (node : contents.node = m.sched.core.nodes t)
    (maps : contents.maps = m.sched.ledger.maps t) :
    (m.sched.core.nodes t).joinCounter = 0 ∧
      Destruction.Proper ⟨t, .cilkSetReturn, contents⟩ := by
  have accounted := regular.accounted
  have siblings := regular.offspring.siblings
  have posture := accounted.placed.posture w
  rw [isUser] at posture
  obtain ⟨isDeque, running⟩ := peekBottom_user posture bottom
  have has : t ∈ m.sched.core.carried m.pc w := by
    simp [Core.carried, isDeque]
  have active := accounted.placed.active has
  obtain ⟨t', isDeque', isOwn, -⟩ := accounted.own_of_stolen isUser current stolen
  have same : t' = t := by simpa [isDeque] using isDeque'.symm
  rw [same] at isOwn
  have settled : m.sched.Settled t := by
    apply accounted.settled_of_synched (Accounted.not_promoting isUser) has
    intro g isFrame
    rw [isOwn, Option.some.injEq] at isFrame
    rw [← isFrame]
    exact synched
  have called : (m.sched.core.nodes t).spawnParent = none := by
    cases isParent : (m.sched.core.nodes t).spawnParent with
    | none => rfl
    | some p =>
        have noCaller := regular.offspring.oneParent t p isParent
        exact absurd (isCaller.symm.trans noCaller) (Option.some_ne_none caller)
  have unlinked := siblings.unlinked t fun p member => by
    have isParent := ((regular.offspring.spawned p t).mp member).2
    rw [called] at isParent
    cases isParent
  have noRight : (m.sched.ledger.maps t).right = none := by
    by_contra hasMap
    exact regular.mapped.right t hasMap called
  have rightMost := siblings.rightMost t
  rw [regular.offspring.childless settled.1] at rightMost
  have isNode {α : Type} (field : Node → α) :
      field contents.node = field (m.sched.core.nodes t) := congrArg field node
  refine ⟨settled.1, ?_, ?_, ?_, ?_, ?_⟩
  · constructor
    · exact (isNode Node.leftSib).trans unlinked.1
    · exact (isNode Node.rightSib).trans unlinked.2
    · exact (isNode Node.rightMostChild).trans rightMost
    · exact (congrArg Maps.user maps).trans (regular.not_user active)
    · exact (congrArg Maps.child maps).trans (regular.no_child settled)
    · exact (congrArg Maps.right maps).trans noRight
  · exact (isNode Node.hasChildren).trans
      (regular.childless active settled.1)
  · exact (isNode Node.status).trans running
  · exact (isNode Node.spawnParent).trans called
  · rw [show contents.callParent = some caller from
      (isNode Node.callParent).trans isCaller]
    exact Option.some_ne_none caller

/-- The closure of a child that returns has no map any more. -/
theorem finishReturn_contents (regular : Regular m first root young children home)
    (isReturning : m.pc w = .returning child)
    (isParent : (m.sched.closures child).spawnParent = some parent)
    (noMap : (m.sched.closures child).rightRmap = none)
    {contents : Closure M} (node : contents.node =
      { m.sched.core.nodes child with leftSib := none, rightSib := none })
    (maps : contents.maps = m.sched.ledger.maps child) :
    m.sched.Settled child ∧
      Destruction.Proper ⟨child, .closureReturn, contents⟩ := by
  have accounted := regular.accounted
  have siblings := regular.offspring.siblings
  have posture := accounted.placed.posture w
  rw [isReturning] at posture
  have has : child ∈ m.sched.core.carried m.pc w := by
    simp [Core.carried, isReturning, Pc.closures]
  have active := accounted.placed.active has
  have notPromoting (cl res : ℕ) : m.pc w ≠ .promoting cl res := by
    rw [isReturning]
    exact Pc.noConfusion
  have settled : m.sched.Settled child := accounted.settled_of_synched
    notPromoting has (accounted.framed.returning child posture.2)
  have rightMost := siblings.rightMost child
  rw [regular.offspring.childless settled.1] at rightMost
  have isNode {α : Type} (field : Node → α) : field contents.node =
      field { m.sched.core.nodes child with
        leftSib := none, rightSib := none } := congrArg field node
  refine ⟨settled, ?_, ?_, ?_, ?_, ?_⟩
  · constructor
    · exact isNode Node.leftSib
    · exact isNode Node.rightSib
    · exact (isNode Node.rightMostChild).trans rightMost
    · exact (congrArg Maps.user maps).trans (regular.not_user active)
    · exact (congrArg Maps.child maps).trans (regular.no_child settled)
    · exact (congrArg Maps.right maps).trans noMap
  · exact (isNode Node.hasChildren).trans
      (regular.childless active settled.1)
  · exact (isNode Node.status).trans posture.2
  · rw [show contents.spawnParent = some parent from
      (isNode Node.spawnParent).trans isParent]
    exact Option.some_ne_none parent
  · exact (isNode Node.callParent).trans
      (regular.offspring.oneParent child parent isParent)

end Regular

end Multicilk.Scheduler
