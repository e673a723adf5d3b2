import Multicilk.Scheduler.Fibers.Berths
import Multicilk.Support.Descent
import Multicilk.Scheduler.RegionRuns

/-!
# No fiber is used twice

In every state of a region a fiber has at most one user, and a fiber that lies in a
pool or has been unmapped has none, not even a frame that waits for a callee.
-/

namespace Multicilk.Scheduler

open Machine TransitionSystem

variable {M : Type*} [Monoid M] {m m' start source : Machine M} {action : Action}
  {trace : List (Machine M × Action)} {core made : Core} {b b' : Fibers}
  {pc : ℕ → Pc} {w v c first root given : ℕ} {young children : ℕ → List ℕ}
  {home : ℕ → ℕ} {items : List ℕ}

/-- The worker has no fiber to free. -/
def Pc.Grounded : Pc → Prop
  | .user | .popped | .runtime => False
  | _ => True

def Fibers.Grounded (b : Fibers) (pc : ℕ → Pc) : Prop :=
  ∀ w, (pc w).Grounded → b.fiberToFree w = none

section Steps

omit [Monoid M] in
theorem FiberMove.berthed (move : FiberMove core b pc action made b')
    (placed : Placed core pc) (homed : Homed core b home)
    (ashore : core.Ashore b)
    (grounded : ∀ w, action = .finishReturn w → b.fiberToFree w = none)
    (berthed : Berthed core b given items) :
    ∃ items', Berthed made b' given items' := by
  have freed (w : ℕ) : (b.free w).fiberToFree w = none := by
    unfold Fibers.free
    split
    · exact Function.update_self ..
    · assumption
  cases move with
  | still => exact ⟨items, berthed⟩
  | @own _ w t status deque has active =>
      refine ⟨items, berthed.sameActive fun c => ?_⟩
      rw [Core.setDeque, Core.setStatus_nodes]
      by_cases isT : c = t
      · subst isT
        rw [if_pos rfl]
        exact iff_of_true active (placed.active has)
      · rw [if_neg isT]
  | @syncPass w t has =>
      exact ⟨items, (berthed.free w).syncPass (placed.active has) (freed w)⟩
  | @syncWait w t deque has =>
      refine ⟨items, (berthed.free w).wait (placed.active has)
        (fun c other => ?_) (freed w)⟩
      rw [Core.setDeque, Core.setStatus_nodes, if_neg other]
  | @setReturn w t caller has isCaller counter nothing =>
      exact ⟨items,
        berthed.setReturn placed homed has isCaller counter nothing⟩
  | @freeFiber w => exact ⟨items, berthed.free w⟩
  | stealItself member running pooled =>
      exact ⟨items, berthed.steal placed homed running pooled⟩
  | stealCallee member running pooled =>
      exact ⟨items, berthed.stealCallee placed homed running pooled⟩
  | promote has isCaller chain =>
      exact ⟨items, berthed.promote placed homed has chain⟩
  | removeChild has isParent counter nothing =>
      exact ⟨items,
        berthed.removeChild placed homed has isParent counter nothing⟩
  | @resume w child parent has isParent counter nothing childless suspended =>
      exact ⟨items, berthed.resume placed homed has isParent counter nothing
        ashore childless suspended (grounded w rfl)⟩
  | mapFiber => exact ⟨_, berthed.mapFiber⟩
  | unmapFiber pooled => exact ⟨items, berthed.unmapFiber pooled⟩

/-- A worker has freed its fiber before it looks for work. -/
theorem Step.grounded (taken : Step m action m')
    (isGrounded : (m'.pc v).Grounded) :
    (m.pc v).Grounded ∧ (∀ w, action = .sync w → v ≠ w) ∨
      action = .freeFiber v := by
  have goes {w : ℕ} {p : Pc} {s : State M}
      (here : ((m.goto w p s).pc v).Grounded)
      (before : v = w → p.Grounded → (m.pc v).Grounded) :
      (m.pc v).Grounded := by
    by_cases isW : v = w
    · subst isW
      have isPc : (m.goto v p s).pc v = p := Function.update_self ..
      exact before rfl (isPc ▸ here)
    · have isPc : (m.goto w p s).pc v = m.pc v := Function.update_of_ne isW ..
      exact isPc ▸ here
  cases taken with
  | call | spawn | update | leaveCalled | setReturn | exit =>
      exact .inl ⟨goes isGrounded fun _ => False.elim, fun _ => Action.noConfusion⟩
  | leaveSpawned =>
      refine .inl ⟨goes isGrounded fun _ here => ?_, fun _ => Action.noConfusion⟩
      split at here <;> exact here.elim
  | @sync w sf t s ready =>
      have notHere (here : (if ready then Pc.user else .runtime).Grounded) :
          False := by
        cases ready <;> exact here
      refine .inl ⟨goes isGrounded fun _ here => (notHere here).elim, ?_⟩
      rintro u same rfl
      cases same
      have isPc : (m.goto v (if ready then Pc.user else .runtime) s).pc v = _ :=
        Function.update_self ..
      exact notHere (isPc ▸ isGrounded)
  | @exceptionHandler w t s stolen =>
      refine .inl ⟨goes isGrounded fun _ here => ?_, fun _ => Action.noConfusion⟩
      cases stolen <;> exact here.elim
  | @freeFiber w =>
      by_cases isW : v = w
      · exact .inr (isW ▸ rfl)
      · exact .inl ⟨goes isGrounded fun same => absurd same isW,
          fun _ => Action.noConfusion⟩
  | xtractNothing isPc | xtractBottom isPc | steal isPc | finishPromote isPc
  | setupForExecution isPc | execute isPc | returnValue isPc
  | reducerIteration isPc | finishReturn isPc =>
      refine .inl ⟨goes isGrounded fun same _ => ?_, fun _ => Action.noConfusion⟩
      rw [same, isPc]
      trivial
  | mapFiber | unmapFiber => exact .inl ⟨isGrounded, fun _ => Action.noConfusion⟩

theorem FiberMove.grounded (move : FiberMove core b pc action made b')
    (placed : Placed core pc) (ashore : core.Ashore b)
    (nothing : b.fiberToFree v = none)
    (notSync : ∀ w, action = .sync w → v ≠ w) : b'.fiberToFree v = none := by
  have freed (w : ℕ) : (b.free w).fiberToFree v = none := by
    unfold Fibers.free
    split
    · exact (Function.update_apply ..).trans (ite_eq_left_iff.mpr fun _ => nothing)
    · exact nothing
  cases move with
  | still | own | setReturn | stealItself | stealCallee | promote | mapFiber
  | unmapFiber => exact nothing
  | @syncPass w t =>
      exact (Function.update_of_ne (notSync w rfl) ..).trans (freed w)
  | @syncWait w t =>
      exact (Function.update_of_ne (notSync w rfl) ..).trans (freed w)
  | @freeFiber w => exact freed w
  | @removeChild w child parent =>
      rwa [b.leave_fiberToFree]
  | @resume w child parent has isParent counter empty childless suspended =>
      have different : parent ≠ child := by
        rintro rfl
        exact placed.not_carried suspended has
      have waiting : (b.leave parent child
          (core.leavesFiber b parent child)).fiber parent = none := by
        rw [b.leave_fiber parent child _ different]
        exact (ashore parent suspended (Bool.or_eq_false_iff.mp childless).1).1
      refine (Function.update_apply ..).trans ?_
      rw [waiting, b.leave_fiberToFree, nothing, ite_self]

end Steps

section Anchors

/-- Somebody is on the fiber that a closure belongs to, or it has been left to its
parent. -/
def Fibers.Holds (b : Fibers) (core : Core) (x : ℕ) : Prop :=
  ∃ c, x ∈ b.contents core (.current c) ∨ x ∈ b.contents core (.saved c)

theorem Node.Live.suspended {node : Node} (live : node.Live)
    (idle : ¬ node.Active) : node.status = .suspended := by
  cases status : node.status with
  | preInvalid => exact absurd status live.1
  | postInvalid => exact absurd status live.2
  | running => exact absurd (.inl status) idle
  | ready => exact absurd (.inr (.inl status)) idle
  | returning => exact absurd (.inr (.inr status)) idle
  | suspended => rfl

omit [Monoid M] in
/-- Going from a closure that waits to its callee or to its first child, one
comes to one that does not wait. -/
theorem Regular.anchored (regular : Regular m first root young children home)
    (live : (m.sched.core.nodes c).Live) :
    m.sched.fibers.Holds m.sched.core (home c) := by
  have placed := regular.accounted.placed
  have homed := regular.homed
  have offspring := regular.offspring
  have allocated := placed.allocated live
  have finite : {c | c < m.sched.core.created}.Finite := Set.finite_lt_nat _
  refine Descent.induction_down regular.ancestry.wellFounded finite
    (motive := fun c => (m.sched.core.nodes c).Live →
      m.sched.fibers.Holds m.sched.core (home c)) ?_ c allocated live
  intro p _ induction live
  have below (d : ℕ) (dLive : (m.sched.core.nodes d).Live)
      (link : m.sched.core.Parent p d) (sameHome : home d = home p) :
      m.sched.fibers.Holds m.sched.core (home p) :=
    sameHome ▸ induction d (placed.allocated dLive) link dLive
  cases isSaved : m.sched.fibers.fiberChild p with
  | some x =>
      refine ⟨p, .inr ?_⟩
      rw [← (homed.saved p x isSaved).2]
      simp [Fibers.contents, isSaved]
  | none =>
      cases isList : children p with
      | cons d rest =>
          have linked := offspring.siblings.linked p
          rw [isList, ← List.nil_append (d :: rest)] at linked
          obtain ⟨dLive, isParent⟩ := (offspring.spawned p d).mp (by simp [isList])
          exact below d dLive (.inl isParent)
            (homed.leftmost d p dLive isParent linked.links.1 isSaved)
      | nil =>
          have noChild : (m.sched.core.nodes p).joinCounter = 0 := by
            rw [offspring.siblings.counter, isList, List.length_nil]
          have isFiber := homed.settled p live noChild isSaved
          by_cases active : (m.sched.core.nodes p).Active
          · refine ⟨p, .inl ?_⟩
            rw [Fibers.contents_current active, isFiber]
            exact List.mem_singleton_self _
          · have suspended := live.suspended active
            have hasCallee : (m.sched.core.nodes p).hasCilkCallee = true := by
              by_contra noCallee
              rw [Bool.not_eq_true] at noCallee
              exact (regular.ashore p suspended noCallee).2 noChild
            obtain ⟨d, dLive, isCaller⟩ := regular.called p hasCallee
            have onFiber := homed.called d p dLive isCaller
            exact below d dLive (.inr isCaller)
              (Option.some.inj (onFiber.symm.trans isFiber))

omit [Monoid M] in
/-- Every fiber that a closure names is held. -/
theorem Regular.names (regular : Regular m first root young children home)
    {x : ℕ} (live : (m.sched.core.nodes c).Live)
    (named : m.sched.fibers.fiber c = some x ∨
      m.sched.fibers.fiberChild c = some x) :
    m.sched.fibers.Holds m.sched.core x := by
  rcases named with isFiber | isSaved
  · by_cases active : (m.sched.core.nodes c).Active
    · refine ⟨c, .inl ?_⟩
      rw [Fibers.contents_current active, isFiber]
      exact List.mem_singleton_self x
    · have suspended := live.suspended active
      have hasCallee : (m.sched.core.nodes c).hasCilkCallee = true := by
        by_contra noCallee
        rw [Bool.not_eq_true] at noCallee
        exact Option.some_ne_none x (isFiber.symm.trans
          (regular.ashore c suspended noCallee).1)
      obtain ⟨d, dLive, isCaller⟩ := regular.called c hasCallee
      have onFiber := regular.homed.called d c dLive isCaller
      cases onFiber.symm.trans isFiber
      exact regular.anchored dLive
  · exact ⟨c, .inr (by simp [Fibers.contents, isSaved])⟩

end Anchors

section Regions

/-- What is known of the fibers in every state. -/
structure Held (m : Machine M) (given : ℕ) (items : List ℕ) : Prop where
  berthed : Berthed m.sched.core m.sched.fibers given items
  grounded : m.sched.fibers.Grounded m.pc

theorem Regular.held (regular : Regular m first root young children home)
    (held : Held m given items) (taken : Step m action m') :
    ∃ items', Held m' given items' := by
  have placed := regular.accounted.placed
  have move := taken.fiberMove regular.accounted regular.waits
  have returns (w : ℕ) (isReturn : action = .finishReturn w) :
      m.sched.fibers.fiberToFree w = none := by
    subst isReturn
    cases taken with
    | finishReturn isReturning =>
        apply held.grounded
        rw [isReturning]
        trivial
  obtain ⟨items', berthed⟩ :=
    move.berthed placed regular.homed regular.ashore returns held.berthed
  refine ⟨items', berthed, fun v isGrounded => ?_⟩
  rcases taken.grounded isGrounded with ⟨was, notSync⟩ | rfl
  · exact move.grounded placed regular.ashore (held.grounded v was) notSync
  · cases taken with
    | freeFiber isRuntime =>
        rw [goto, fibers_freeFiber]
        unfold Fibers.free
        split
        · exact Function.update_self ..
        · assumption

/-- The region is over, and the root closure is on its original fiber. -/
structure Landed (m : Machine M) (root given : ℕ) : Prop where
  ended : Over m
  live : ∀ c, (m.sched.core.nodes c).Live ↔ c = root
  active : (m.sched.core.nodes root).Active
  fiber : m.sched.fibers.fiber root = some given
  fiberChild : ∀ c, m.sched.fibers.fiberChild c = none

theorem Regular.landed (regular : Regular m first root young children home)
    (taken : Step m (.exit w) m') : Landed m' root (home root) := by
  have homed := regular.homed
  obtain ⟨ended, -, -, nodes, live⟩ := regular.exit taken
  cases taken with
  | @exit w sf isUser current synched isLast =>
      obtain ⟨isDeque, settled, -⟩ :=
        regular.root_settled isUser current synched isLast
      have has : root ∈ m.sched.core.carried m.pc w :=
        List.mem_append_left _ (by simp [State.core, isDeque])
      have active := regular.accounted.placed.active has
      have fibers : (exitCilkifiedRoot (popFrame m.sched w sf) w sf).fibers =
          m.sched.fibers := fibers_popFrame sf (s := m.sched) (w := w)
      constructor
      case ended => exact ended
      case live => rwa [nodes]
      case active => rwa [nodes]
      case fiber =>
        rw [goto, fibers]
        exact homed.settled root active.live settled.1 settled.2
      case fiberChild =>
        intro c
        rw [goto, fibers]
        by_contra isSaved
        obtain ⟨x, isX⟩ := Option.ne_none_iff_exists'.mp isSaved
        rw [(live c).mp (homed.saved c x isX).1] at isSaved
        exact isSaved settled.2

theorem Landed.step (landed : Landed m root given) (taken : Step m action m') :
    Landed m' root given := by
  obtain ⟨ended, closures, -⟩ := landed.ended.step taken
  have nodes : m'.sched.core.nodes = m.sched.core.nodes :=
    funext fun c => congrArg Closure.node (congrFun closures c)
  have fiber : m'.sched.fibers.fiber = m.sched.fibers.fiber :=
    funext fun c => congrArg Closure.fiber (congrFun closures c)
  have fiberChild : m'.sched.fibers.fiberChild = m.sched.fibers.fiberChild :=
    funext fun c => congrArg Closure.fiberChild (congrFun closures c)
  constructor
  case ended => exact ended
  case live => rw [nodes]; exact landed.live
  case active => rw [nodes]; exact landed.active
  case fiber => rw [fiber]; exact landed.fiber
  case fiberChild => rw [fiberChild]; exact landed.fiberChild

theorem Landed.held (landed : Landed m root given) (held : Held m given items)
    (taken : Step m action m') : ∃ items', Held m' given items' := by
  have idle {w : ℕ} {p : Pc} (isPc : m.pc w = p) : p.Idle :=
    isPc ▸ landed.ended.idle w
  cases taken with
  | @freeFiber w isRuntime =>
      refine ⟨items, ?_, fun v isGrounded => ?_⟩
      · rw [goto, core_freeFiber, fibers_freeFiber]
        exact held.berthed.free w
      · rw [goto, fibers_freeFiber]
        by_cases isW : v = w
        · subst isW
          unfold Fibers.free
          split
          · exact Function.update_self ..
          · assumption
        · have isPc : (m.goto w .looking (freeFiber m.sched w)).pc v = m.pc v :=
            Function.update_of_ne isW ..
          have nothing := held.grounded v (isPc ▸ isGrounded)
          unfold Fibers.free
          split
          · exact (Function.update_of_ne isW ..).trans nothing
          · exact nothing
  | @xtractNothing w isLooking =>
      refine ⟨items, held.berthed, fun v isGrounded => held.grounded v ?_⟩
      by_cases isW : v = w
      · rw [isW, isLooking]
        trivial
      · have isPc : (m.goto w .thief m.sched).pc v = m.pc v :=
          Function.update_of_ne isW ..
        exact isPc ▸ isGrounded
  | @xtractBottom w t isLooking bottom =>
      rw [dequePeekBottom, landed.ended.deques w] at bottom
      cases bottom
  | @steal w victim fiber cl res s isThief other pooled top =>
      rw [dequePeekTop, landed.ended.deques victim] at top
      cases top
  | mapFiber => exact ⟨_, held.berthed.mapFiber, held.grounded⟩
  | unmapFiber pooled =>
      exact ⟨items, held.berthed.unmapFiber pooled, held.grounded⟩
  | call isPc | spawn isPc | update _ isPc | leaveCalled isPc
  | leaveSpawned isPc | setReturn isPc | exit isPc | sync isPc
  | exceptionHandler isPc | finishPromote isPc | setupForExecution isPc
  | execute isPc | returnValue isPc | reducerIteration isPc
  | finishReturn isPc => exact (idle isPc).elim

end Regions

end Multicilk.Scheduler
