import Multicilk.Scheduler.Fibers.Homes
import Multicilk.Support.Inventory

/-!
# Every fiber is in one place

A fiber that is not in a pool and has not been unmapped is with one closure that
runs, with one closure whose first child has returned, or with the one worker
that is to free it.
-/

namespace Multicilk.Scheduler

open Inventory

variable {core made : Core} {b b' : Fibers} {pc pc' : ℕ → Pc} {home : ℕ → ℕ}
  {children : ℕ → List ℕ} {items : List ℕ} {c cl t w x y child parent given : ℕ}

instance (node : Node) : Decidable node.Active :=
  inferInstanceAs (Decidable (_ ∨ _ ∨ _))

/-- Where a fiber can be. -/
inductive Berth where
  | current (c : ℕ)
  | saved (c : ℕ)
  | toFree (w : ℕ)
  | pool
  | unmapped
deriving DecidableEq

namespace Fibers

def contents (core : Core) (b : Fibers) : Berth → List ℕ
  | .current c => if (core.nodes c).Active then (b.fiber c).toList else []
  | .saved c => (b.fiberChild c).toList
  | .toFree w => (b.fiberToFree w).toList
  | .pool => b.pool
  | .unmapped => b.unmapped

theorem contents_current (active : (core.nodes c).Active) :
    b.contents core (.current c) = (b.fiber c).toList := if_pos active

theorem contents_idle (idle : ¬ (core.nodes c).Active) :
    b.contents core (.current c) = [] := if_neg idle

theorem contents_congr (active : (made.nodes c).Active ↔ (core.nodes c).Active)
    (fiber : (core.nodes c).Active → b'.fiber c = b.fiber c) :
    b'.contents made (.current c) = b.contents core (.current c) := by
  by_cases isActive : (core.nodes c).Active
  · rw [contents_current isActive, contents_current (active.mpr isActive),
      fiber isActive]
  · rw [contents_idle isActive, contents_idle (active.not.mpr isActive)]

/-- The fibers that have been taken from a pool and not been given back. -/
def Out (b : Fibers) (items : List ℕ) (x : ℕ) : Prop :=
  x ∈ items ∧ x ∉ b.pool ∧ x ∉ b.unmapped

instance (b : Fibers) (items : List ℕ) (x : ℕ) : Decidable (b.Out items x) :=
  inferInstanceAs (Decidable (_ ∧ _ ∧ _))

end Fibers

/-- The fibers are each in one place, and the history of the pools agrees with
that, where `given` is the fiber that the region has started on. -/
structure Berthed (core : Core) (b : Fibers) (given : ℕ) (items : List ℕ) :
    Prop where
  parts : Partitioned items (b.contents core)
  mapped : ∀ x ∈ items, x < b.mapped
  balanced : ∀ x, b.taken.count x + (if x = given then 1 else 0) =
    b.returned.count x + (if b.Out items x then 1 else 0)

namespace Berthed

section Moves

variable (berthed : Berthed core b given items)

include berthed

theorem congr (contents : ∀ place, b'.contents made place = b.contents core place)
    (mapped : b'.mapped = b.mapped) (taken : b'.taken = b.taken)
    (returned : b'.returned = b.returned) : Berthed made b' given items := by
  have pool : b'.pool = b.pool := contents .pool
  have unmapped : b'.unmapped = b.unmapped := contents .unmapped
  constructor
  case parts => exact berthed.parts.congr contents
  case mapped => exact mapped ▸ berthed.mapped
  case balanced =>
    intro x
    have same : b'.Out items x ↔ b.Out items x := by
      rw [Fibers.Out, Fibers.Out, pool, unmapped]
    rw [taken, returned, if_congr same rfl rfl]
    exact berthed.balanced x

/-- A fiber goes from one holder to another. -/
theorem pour (source target : Berth)
    (empty : b.contents core target = [])
    (left : b'.contents made source = [])
    (put : b'.contents made target = b.contents core source)
    (others : ∀ place, place ≠ source → place ≠ target →
      b'.contents made place = b.contents core place)
    (pool : b'.pool = b.pool) (unmapped : b'.unmapped = b.unmapped)
    (mapped : b'.mapped = b.mapped) (taken : b'.taken = b.taken)
    (returned : b'.returned = b.returned) : Berthed made b' given items := by
  constructor
  case parts => exact berthed.parts.pour empty left put others
  case mapped => exact mapped ▸ berthed.mapped
  case balanced =>
    intro x
    have same : b'.Out items x ↔ b.Out items x := by
      rw [Fibers.Out, Fibers.Out, pool, unmapped]
    rw [taken, returned, if_congr same rfl rfl]
    exact berthed.balanced x

/-- A holder gives its fiber to a pool. -/
theorem put (source : Berth) (notPool : source ≠ .pool)
    (notUnmapped : source ≠ .unmapped) (holds : b.contents core source = [x])
    (left : b'.contents made source = [])
    (others : ∀ place, place ≠ source → place ≠ .pool →
      b'.contents made place = b.contents core place)
    (pool : b'.pool = x :: b.pool)
    (mapped : b'.mapped = b.mapped) (taken : b'.taken = b.taken)
    (returned : b'.returned = x :: b.returned) :
    Berthed made b' given items := by
  have member : x ∈ b.contents core source := by simp [holds]
  have notPooled : x ∉ b.pool := fun pooled =>
    notPool (berthed.parts.apart x source .pool member pooled)
  have notGone : x ∉ b.unmapped := fun gone =>
    notUnmapped (berthed.parts.apart x source .unmapped member gone)
  have known : x ∈ items := (berthed.parts.complete x).mpr ⟨source, member⟩
  have unmapped : b'.unmapped = b.unmapped :=
    others .unmapped notUnmapped.symm Berth.noConfusion
  constructor
  case parts =>
    exact berthed.parts.transfer notPool (List.nil_append [x] ▸ holds) left pool
      others
  case mapped => exact mapped ▸ berthed.mapped
  case balanced =>
    intro y
    have balanced := berthed.balanced y
    rw [taken, returned]
    by_cases isX : y = x
    · subst isX
      have wasOut : b.Out items y := ⟨known, notPooled, notGone⟩
      have notOut : ¬ b'.Out items y := fun isOut => isOut.2.1 (by simp [pool])
      rw [if_pos wasOut] at balanced
      rw [if_neg notOut, balanced, List.count_cons_self]
    · have same : b'.Out items y ↔ b.Out items y := by
        simp [Fibers.Out, pool, unmapped, isX]
      rw [if_congr same rfl rfl, List.count_cons_of_ne (Ne.symm isX)]
      exact balanced

/-- A fiber is taken from a pool. -/
theorem take (target : Berth) (notPool : target ≠ .pool)
    (notUnmapped : target ≠ .unmapped) (pooled : x ∈ b.pool)
    (empty : b.contents core target = [])
    (holds : b'.contents made target = [x])
    (others : ∀ place, place ≠ .pool → place ≠ target →
      b'.contents made place = b.contents core place)
    (pool : b'.pool = b.pool.erase x)
    (mapped : b'.mapped = b.mapped) (taken : b'.taken = x :: b.taken)
    (returned : b'.returned = b.returned) :
    Berthed made b' given items := by
  obtain ⟨before, after, -, split, erased⟩ := List.exists_erase_eq pooled
  have nodup : b.pool.Nodup := berthed.parts.nodup .pool
  have notGone : x ∉ b.unmapped := fun gone =>
    Berth.noConfusion (berthed.parts.apart x .pool .unmapped pooled gone)
  have known : x ∈ items := (berthed.parts.complete x).mpr ⟨.pool, pooled⟩
  have unmapped : b'.unmapped = b.unmapped :=
    others .unmapped Berth.noConfusion notUnmapped.symm
  constructor
  case parts =>
    exact berthed.parts.transfer notPool.symm split (pool.trans erased)
      (by rw [holds, empty]) others
  case mapped => exact mapped ▸ berthed.mapped
  case balanced =>
    intro y
    have balanced := berthed.balanced y
    rw [taken, returned]
    by_cases isX : y = x
    · subst isX
      have notOut : ¬ b.Out items y := fun isOut => isOut.2.1 pooled
      have isOut : b'.Out items y := by
        refine ⟨known, ?_, unmapped ▸ notGone⟩
        rw [pool, nodup.mem_erase_iff]
        exact fun member => member.1 rfl
      rw [if_neg notOut] at balanced
      rw [if_pos isOut, List.count_cons_self]
      omega
    · have same : b'.Out items y ↔ b.Out items y := by
        rw [Fibers.Out, Fibers.Out, pool, unmapped, nodup.mem_erase_iff,
          and_iff_right isX]
      rw [if_congr same rfl rfl, List.count_cons_of_ne (Ne.symm isX)]
      exact balanced

end Moves

section Steps

variable (berthed : Berthed core b given items)

include berthed

/-- The statuses change, but a closure that runs goes on running. -/
theorem sameActive (active : ∀ c, (made.nodes c).Active ↔ (core.nodes c).Active) :
    Berthed made b given items := by
  apply berthed.congr _ rfl rfl rfl
  intro place
  cases place with
  | current c => exact Fibers.contents_congr (active c) fun _ => rfl
  | saved | toFree | pool | unmapped => rfl

theorem free (w : ℕ) : Berthed core (b.free w) given items := by
  cases isFree : b.fiberToFree w with
  | none =>
      have same : b.free w = b := by simp [Fibers.free, isFree]
      rwa [same]
  | some x =>
      have isMade : b.free w = (b.put x).setFiberToFree w none := by
        simp [Fibers.free, isFree]
      rw [isMade]
      apply berthed.put (.toFree w) (x := x) Berth.noConfusion
        Berth.noConfusion
      case holds => simp [Fibers.contents, isFree]
      case left => simp [Fibers.contents, Fibers.setFiberToFree]
      case others =>
        intro place notSource _
        cases place with
        | toFree v =>
            have other : v ≠ w := fun same => notSource (same ▸ rfl)
            simp [Fibers.contents, Fibers.setFiberToFree, Fibers.put, other]
        | pool => contradiction
        | current | saved | unmapped => rfl
      all_goals rfl

/-- The worker leaves the fiber of a frame that waits or goes on elsewhere. -/
theorem wait (active : (core.nodes t).Active)
    (others : ∀ c, c ≠ t → ((made.nodes c).Active ↔ (core.nodes c).Active))
    (nothing : b.fiberToFree w = none) :
    Berthed made (b.wait w t) given items := by
  apply berthed.pour (.current t) (.toFree w)
  case empty => simp [Fibers.contents, nothing]
  case left => simp [Fibers.contents, Fibers.wait, Fibers.setFiber]
  case put =>
    rw [Fibers.contents_current active]
    simp [Fibers.contents, Fibers.wait, Fibers.setFiber, Fibers.setFiberToFree]
  case others =>
    intro place notSource notTarget
    cases place with
    | current c =>
        have other : c ≠ t := fun same => notSource (same ▸ rfl)
        exact Fibers.contents_congr (others c other) fun _ =>
          Function.update_of_ne other ..
    | toFree v =>
        have other : v ≠ w := fun same => notTarget (same ▸ rfl)
        simp [Fibers.contents, Fibers.wait, Fibers.setFiber,
          Fibers.setFiberToFree, other]
    | saved | pool | unmapped => rfl
  all_goals rfl

/-- A closure goes on on the fiber of its first child, when it has left its
own. -/
theorem board (onNothing : (core.nodes t).Active → b.fiber t = none)
    (active : (made.nodes t).Active)
    (others : ∀ c, c ≠ t → ((made.nodes c).Active ↔ (core.nodes c).Active)) :
    Berthed made ((b.setFiber t (b.fiberChild t)).setFiberChild t none) given
      items := by
  apply berthed.pour (.saved t) (.current t)
  case empty =>
    simp only [Fibers.contents]
    split
    case isTrue wasActive => rw [onNothing wasActive, Option.toList_none]
    case isFalse => rfl
  case left => simp [Fibers.contents, Fibers.setFiberChild]
  case put =>
    rw [Fibers.contents_current active]
    simp [Fibers.contents, Fibers.setFiberChild, Fibers.setFiber]
  case others =>
    intro place notSource notTarget
    cases place with
    | current c =>
        have other : c ≠ t := fun same => notTarget (same ▸ rfl)
        exact Fibers.contents_congr (others c other) fun _ =>
          Function.update_of_ne other ..
    | saved c =>
        have other : c ≠ t := fun same => notSource (same ▸ rfl)
        simp [Fibers.contents, Fibers.setFiberChild, Fibers.setFiber, other]
    | toFree | pool | unmapped => rfl
  all_goals rfl

theorem syncPass (active : (core.nodes t).Active)
    (nothing : b.fiberToFree w = none) :
    Berthed core (b.sync w t) given items := by
  have waits : Berthed core (b.wait w t) given items :=
    berthed.wait active (fun _ _ => Iff.rfl) nothing
  have boards := waits.board (fun _ => Function.update_self ..) active
    fun _ _ => Iff.rfl
  have same : b.sync w t = ((b.wait w t).setFiber t
      ((b.wait w t).fiberChild t)).setFiberChild t none := by
    simp only [Fibers.sync, Fibers.wait, Fibers.setFiber, Fibers.setFiberChild,
      Fibers.setFiberToFree, Function.update_idem]
  rw [same]
  exact boards

/-- The callee leaves its fiber to the caller. -/
theorem setReturn {caller : ℕ} (placed : Placed core pc)
    (homed : Homed core b home) (has : t ∈ core.carried pc w)
    (isCaller : (core.nodes t).callParent = some caller)
    (counter : (core.nodes t).joinCounter = 0) (nothing : b.fiberChild t = none) :
    Berthed (core.setReturn w t caller) (b.setFiber t none) given items := by
  have active := placed.active has
  obtain ⟨suspended, -⟩ := placed.caller t caller active.live isCaller
  have different : caller ≠ t := by
    rintro rfl
    exact placed.not_carried suspended has
  have sameFiber : b.fiber caller = b.fiber t := by
    rw [homed.called t caller active.live isCaller,
      homed.settled t active.live counter nothing]
  apply berthed.pour (.current t) (.current caller)
  case empty =>
    exact Fibers.contents_idle fun active => active.not_suspended suspended
  case left =>
    apply Fibers.contents_idle
    simp [Core.setReturn, different.symm, Node.Active]
  case put =>
    rw [Fibers.contents_current active, Fibers.contents_current]
    · rw [← sameFiber]
      exact congrArg Option.toList (Function.update_of_ne different ..)
    · simp [Core.setReturn, Node.Active]
  case others =>
    intro place notSource notTarget
    cases place with
    | current c =>
        have notT : c ≠ t := fun same => notSource (same ▸ rfl)
        have notCaller : c ≠ caller := fun same => notTarget (same ▸ rfl)
        refine Fibers.contents_congr ?_ fun _ => Function.update_of_ne notT ..
        simp [Core.setReturn, notT, notCaller]
    | saved | toFree | pool | unmapped => rfl
  all_goals rfl

/-- The child takes the fiber over, and the frame that goes on gets another
one. -/
theorem steal {deque : List ℕ} (placed : Placed core pc)
    (homed : Homed core b home) (running : (core.nodes cl).status = .running)
    (pooled : x ∈ b.pool) :
    Berthed ((core.addChild cl).setDeque w deque) (b.steal cl core.created x)
      given items := by
  have clActive : (core.nodes cl).Active := .inl running
  have allocated := placed.allocated clActive.live
  have unused := placed.kin.unused core.created le_rfl
  have new : (((core.addChild cl).setDeque w deque).nodes
      core.created).Active := by
    simp [Core.setDeque, Core.addChild, Node.Active]
  have old (c : ℕ) (isOld : c ≠ core.created) :
      (((core.addChild cl).setDeque w deque).nodes c).Active ↔
        (core.nodes c).Active := by
    simp only [Core.setDeque, Core.addChild, if_neg isOld]
    split
    case isTrue isCl => rw [isCl]; rfl
    case isFalse => split <;> rfl
  have idle : ¬ (core.nodes core.created).Active := by
    rw [unused]
    simp [Node.Active]
  have notSaved : b.fiberChild core.created = none := by
    by_contra isSaved
    obtain ⟨y, isY⟩ := Option.ne_none_iff_exists'.mp isSaved
    exact absurd (placed.allocated (homed.saved _ y isY).1) (lt_irrefl _)
  -- The frame that goes on has no fiber in between.
  have handed : Berthed ((core.addChild cl).setDeque w deque)
      ((b.setFiber core.created (b.fiber cl)).setFiber cl none) given items := by
    apply berthed.pour (.current cl) (.current core.created)
    case empty => exact Fibers.contents_idle idle
    case left => simp [Fibers.contents, Fibers.setFiber]
    case put =>
      rw [Fibers.contents_current new, Fibers.contents_current clActive]
      simp [Fibers.setFiber, allocated.ne']
    case others =>
      intro place notSource notTarget
      cases place with
      | current c =>
          have notCl : c ≠ cl := fun same => notSource (same ▸ rfl)
          have isOld : c ≠ core.created := fun same => notTarget (same ▸ rfl)
          apply Fibers.contents_congr (old c isOld)
          intro _
          simp [Fibers.setFiber, notCl, isOld]
      | saved | toFree | pool | unmapped => rfl
    all_goals rfl
  apply handed.take (.current cl) (x := x) Berth.noConfusion
    Berth.noConfusion pooled
  case empty => simp [Fibers.contents, Fibers.setFiber]
  case holds =>
    rw [Fibers.contents_current ((old cl allocated.ne).mpr clActive)]
    simp [Fibers.steal, Fibers.setFiber]
  case others =>
    intro place _ notTarget
    cases place with
    | current c =>
        have notCl : c ≠ cl := fun same => notTarget (same ▸ rfl)
        apply Fibers.contents_congr Iff.rfl
        intro _
        simp [Fibers.steal, Fibers.setFiber, Fibers.setFiberChild, Fibers.take,
          Function.update_apply, notCl]
    | saved c =>
        by_cases isNew : c = core.created
        · simp [Fibers.contents, Fibers.steal, Fibers.setFiber,
            Fibers.setFiberChild, isNew, notSaved]
        · simp [Fibers.contents, Fibers.steal, Fibers.setFiber,
            Fibers.setFiberChild, Fibers.take, isNew]
    | pool => contradiction
    | toFree | unmapped => rfl
  all_goals rfl

theorem stealCallee {deque : List ℕ} (placed : Placed core pc)
    (homed : Homed core b home) (running : (core.nodes cl).status = .running)
    (pooled : x ∈ b.pool) :
    Berthed (((core.addTempCallee cl).addChild core.created).setDeque w deque)
      (b.stealCallee cl core.created (core.created + 1) x) given items := by
  have clActive : (core.nodes cl).Active := .inl running
  have allocated := placed.allocated clActive.live
  obtain ⟨stolen, isStolen⟩ : ∃ stolen, stolen =
    ((core.addTempCallee cl).addChild core.created).setDeque w deque := ⟨_, rfl⟩
  have res : (stolen.nodes core.created).Active := by
    simp [isStolen, Core.setDeque, Core.addChild, Core.addTempCallee, Node.Active]
  have child : (stolen.nodes (core.created + 1)).Active := by
    simp [isStolen, Core.setDeque, Core.addChild, Core.addTempCallee, Node.Active]
  have suspended : ¬ (stolen.nodes cl).Active := by
    simp [isStolen, Core.setDeque, Core.addChild, Core.addTempCallee, Node.Active,
      allocated.ne, (allocated.trans (Nat.lt_succ_self _)).ne]
  have old (c : ℕ) (notCl : c ≠ cl) (notRes : c ≠ core.created)
      (notChild : c ≠ core.created + 1) :
      (stolen.nodes c).Active ↔ (core.nodes c).Active := by
    simp [isStolen, Core.setDeque, Core.addChild, Core.addTempCallee, notCl,
      notRes, notChild]
  have idle (c : ℕ) (later : core.created ≤ c) : ¬ (core.nodes c).Active := by
    rw [placed.kin.unused c later]
    simp [Node.Active]
  have notSaved (c : ℕ) (later : core.created ≤ c) : b.fiberChild c = none := by
    by_contra isSaved
    obtain ⟨y, isY⟩ := Option.ne_none_iff_exists'.mp isSaved
    exact absurd (placed.allocated (homed.saved c y isY).1) (not_lt.mpr later)
  rw [← isStolen]
  -- The frame that goes on has no fiber in between.
  have handed : Berthed stolen ((b.setFiber (core.created + 1)
      (b.fiber cl)).setFiber core.created none) given items := by
    apply berthed.pour (.current cl) (.current (core.created + 1))
    case empty => exact Fibers.contents_idle (idle _ (Nat.le_succ _))
    case left => exact Fibers.contents_idle suspended
    case put =>
      rw [Fibers.contents_current child, Fibers.contents_current clActive]
      simp [Fibers.setFiber]
    case others =>
      intro place notSource notTarget
      cases place with
      | current c =>
          have notCl : c ≠ cl := fun same => notSource (same ▸ rfl)
          have notChild : c ≠ core.created + 1 :=
            fun same => notTarget (same ▸ rfl)
          by_cases isRes : c = core.created
          · rw [isRes, Fibers.contents_current res,
              Fibers.contents_idle (idle _ le_rfl)]
            simp [Fibers.setFiber]
          · apply Fibers.contents_congr (old c notCl isRes notChild)
            intro _
            simp [Fibers.setFiber, isRes, notChild]
      | saved | toFree | pool | unmapped => rfl
    all_goals rfl
  apply handed.take (.current core.created) (x := x) Berth.noConfusion
    Berth.noConfusion pooled
  case empty => simp [Fibers.contents, Fibers.setFiber]
  case holds =>
    rw [Fibers.contents_current res]
    simp [Fibers.stealCallee, Fibers.setFiber]
  case others =>
    intro place _ notTarget
    cases place with
    | current c =>
        have notRes : c ≠ core.created := fun same => notTarget (same ▸ rfl)
        apply Fibers.contents_congr Iff.rfl
        intro _
        simp [Fibers.stealCallee, Fibers.setFiber, Fibers.setFiberChild,
          Fibers.take, Function.update_apply, notRes]
    | saved c =>
        have saved : (b.stealCallee cl core.created (core.created + 1)
            x).fiberChild c = b.fiberChild c := by
          simp only [Fibers.stealCallee, Fibers.setFiber, Fibers.setFiberChild,
            Fibers.take, Function.update_apply]
          split
          case isTrue isChild =>
            rw [isChild, notSaved _ (Nat.le_succ _)]
          case isFalse =>
            split
            case isTrue isRes => rw [isRes, notSaved _ le_rfl]
            case isFalse => rfl
        exact congrArg Option.toList saved
    | pool => contradiction
    | toFree | unmapped => rfl
  all_goals rfl

theorem promote {res : ℕ} {closures : List ℕ} (placed : Placed core pc)
    (homed : Homed core b home) (has : res ∈ core.carried pc w)
    (chain : core.Chained made cl res closures) :
    Berthed made (b.promote cl closures) given items := by
  have fresh (c : ℕ) (between : c ∈ closures) : ¬ (core.nodes c).Live :=
    fun live => absurd (placed.allocated live)
      (not_lt.mpr (chain.fresh c between).1)
  refine @congr core made b (b.promote cl closures) items given berthed ?_ rfl rfl
    rfl
  intro place
  cases place with
  | current c =>
      by_cases between : c ∈ closures
      · obtain ⟨_, _, node⟩ := chain.between c between
        rw [Fibers.contents_idle fun active => fresh c between active.live,
          Fibers.contents_idle]
        rw [node]
        simp [Node.Active]
      · apply Fibers.contents_congr _ fun _ => if_neg between
        by_cases isCl : c = cl
        · obtain ⟨_, node⟩ := chain.older
          rw [isCl, node]
          rfl
        by_cases isRes : c = res
        · obtain ⟨_, node⟩ := chain.younger
          rw [isRes, node]
          exact iff_of_true (.inr (.inl rfl)) (placed.active has)
        · rw [chain.kept c between isCl isRes]
  | saved c =>
      by_cases between : c ∈ closures
      · have notSaved : b.fiberChild c = none := by
          by_contra isSaved
          obtain ⟨y, isY⟩ := Option.ne_none_iff_exists'.mp isSaved
          exact fresh c between (homed.saved c y isY).1
        simp [Fibers.contents, Fibers.promote, between, notSaved]
      · simp [Fibers.contents, Fibers.promote, between]
  | toFree | pool | unmapped => rfl

section Returns

variable (placed : Placed core pc) (homed : Homed core b home)
  (has : child ∈ core.carried pc w)
  (isParent : (core.nodes child).spawnParent = some parent)
  (counter : (core.nodes child).joinCounter = 0)
  (nothing : b.fiberChild child = none)

include placed homed has isParent counter nothing

/-- The child leaves its fiber to the parent, or it gives it back. -/
theorem removeChild : Berthed (core.removeChild parent child)
    (b.leave parent child (core.leavesFiber b parent child)) given items := by
  have active := placed.active has
  have isFiber := homed.settled child active.live counter nothing
  have different : parent ≠ child :=
    (Nat.ne_of_gt (placed.kin.parent child parent isParent)).symm
  have dead : ¬ ((core.removeChild parent child).nodes child).Active := by
    simp [Core.removeChild, Node.Active]
  have others (c : ℕ) (other : c ≠ child) :
      ((core.removeChild parent child).nodes c).Active ↔
        (core.nodes c).Active := by
    simp [Core.removeChild, Node.Active, other]
  cases isFirst : core.leavesFiber b parent child with
  | true =>
      have empty : b.fiberChild parent = none := by
        simp only [Core.leavesFiber, decide_eq_true_eq] at isFirst
        simpa using isFirst.2
      apply berthed.pour (.current child) (.saved parent)
      case empty => simp [Fibers.contents, empty]
      case left => exact Fibers.contents_idle dead
      case put =>
        rw [Fibers.contents_current active]
        simp [Fibers.contents, Fibers.leave, Fibers.setFiber,
          Fibers.setFiberChild]
      case others =>
        intro place notSource notTarget
        cases place with
        | current c =>
            have other : c ≠ child := fun same => notSource (same ▸ rfl)
            exact Fibers.contents_congr (others c other) fun _ =>
              b.leave_fiber parent child true other
        | saved c =>
            have other : c ≠ parent := fun same => notTarget (same ▸ rfl)
            simp [Fibers.contents, Fibers.leave_fiberChild, other]
        | toFree | pool | unmapped => rfl
      all_goals rfl
  | false =>
      have isMade : b.leave parent child false =
          (b.put (home child)).setFiber child none := by
        simp [Fibers.leave, isFiber]
      rw [isMade]
      apply berthed.put (.current child) (x := home child)
        Berth.noConfusion Berth.noConfusion
      case holds => rw [Fibers.contents_current active, isFiber, Option.toList_some]
      case left => exact Fibers.contents_idle dead
      case others =>
        intro place notSource _
        cases place with
        | current c =>
            have other : c ≠ child := fun same => notSource (same ▸ rfl)
            exact Fibers.contents_congr (others c other) fun _ =>
              Function.update_of_ne other ..
        | pool => contradiction
        | saved | toFree | unmapped => rfl
      all_goals rfl

/-- The parent goes on, and the worker has left no fiber. -/
theorem resume (ashore : core.Ashore b)
    (childless :
      ((core.removeChild parent child).nodes parent).hasChildren = false)
    (suspended : (core.nodes parent).status = .suspended)
    (grounded : b.fiberToFree w = none) :
    Berthed ((core.removeChild parent child).setStatus parent .ready)
      ((b.leave parent child (core.leavesFiber b parent child)).sync w parent)
      given items := by
  obtain ⟨left, isLeft⟩ : ∃ left, left =
    b.leave parent child (core.leavesFiber b parent child) := ⟨_, rfl⟩
  have removed := berthed.removeChild placed homed has isParent counter nothing
  rw [← isLeft] at removed ⊢
  have different : parent ≠ child := by
    rintro rfl
    exact placed.not_carried suspended has
  have waiting : left.fiber parent = none := by
    rw [isLeft, b.leave_fiber parent child _ different]
    exact (ashore parent suspended (Bool.or_eq_false_iff.mp childless).1).1
  have nothingLeft : left.fiberToFree w = none := by
    rw [isLeft, b.leave_fiberToFree]
    exact grounded
  have boards : Berthed ((core.removeChild parent child).setStatus parent .ready)
      ((left.setFiber parent (left.fiberChild parent)).setFiberChild parent none)
      given items := by
    apply removed.board fun _ => waiting
    · simp [Core.setStatus, Core.modify_apply, Node.Active]
    · intro c other
      simp [Core.setStatus, Core.modify_apply, other]
  have same : left.sync w parent =
      (left.setFiber parent (left.fiberChild parent)).setFiberChild parent
        none := by
    rw [Fibers.sync, waiting]
    have nothing : left.setFiberToFree w none = left := by
      rw [Fibers.setFiberToFree, ← nothingLeft, Function.update_eq_self]
    rw [nothing]
  rw [same]
  exact boards

end Returns

theorem mapFiber : Berthed core b.map given (b.mapped :: items) := by
  have fresh : b.mapped ∉ items := fun member =>
    absurd (berthed.mapped _ member) (lt_irrefl _)
  constructor
  case parts =>
    have put : b.map.contents core .pool = b.mapped :: b.contents core .pool :=
      rfl
    apply berthed.parts.create fresh put
    intro place notPool
    cases place with
    | pool => contradiction
    | current | saved | toFree | unmapped => rfl
  case mapped =>
    rw [List.forall_mem_cons]
    exact ⟨Nat.lt_succ_self _, fun x member =>
      Nat.lt_succ_of_lt (berthed.mapped x member)⟩
  case balanced =>
    intro x
    have same : b.map.Out (b.mapped :: items) x ↔ b.Out items x := by
      rw [Fibers.Out, Fibers.Out]
      simp only [Fibers.map, List.mem_cons]
      have notFresh : x ∈ items → x ≠ b.mapped :=
        fun member same => fresh (same ▸ member)
      tauto
    rw [if_congr same rfl rfl]
    exact berthed.balanced x

theorem unmapFiber (pooled : x ∈ b.pool) :
    Berthed core (b.unmap x) given items := by
  obtain ⟨before, after, -, split, erased⟩ := List.exists_erase_eq pooled
  have nodup : b.pool.Nodup := berthed.parts.nodup .pool
  constructor
  case parts =>
    have different : Berth.pool ≠ .unmapped := Berth.noConfusion
    have isPool : b.contents core .pool = before ++ x :: after := split
    apply berthed.parts.transfer different isPool erased rfl
    intro place notPool notUnmapped
    cases place with
    | pool | unmapped => contradiction
    | current | saved | toFree => rfl
  case mapped => exact berthed.mapped
  case balanced =>
    intro y
    have same : (b.unmap x).Out items y ↔ b.Out items y := by
      rw [Fibers.Out, Fibers.Out]
      simp only [Fibers.unmap, nodup.mem_erase_iff, List.mem_cons]
      have isPooled : y = x → y ∈ b.pool := fun same => same ▸ pooled
      tauto
    rw [if_congr same rfl rfl]
    exact berthed.balanced y

end Steps

end Berthed

end Multicilk.Scheduler
