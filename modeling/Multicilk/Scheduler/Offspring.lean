import Mathlib.Data.List.Perm.Subperm
import Multicilk.Scheduler.Ancestry
import Multicilk.Scheduler.SiblingLists

/-!
# The closures below the root

A closure that is alive has been spawned or called by one that is alive, and the
closures on the list of a parent are those of its spawned children that are
alive.
-/

namespace Multicilk.Scheduler

variable {core made : Core} {pc : ℕ → Pc} {action : Action}
  {children : ℕ → List ℕ} {root w c p cl res parent child : ℕ}

section Lives

theorem Core.addChild_live (different : cl ≠ core.created) (c : ℕ) :
    ((core.addChild cl).nodes c).Live ↔
      c = core.created ∨ (core.nodes c).Live := by
  simp only [Core.addChild]
  split
  · simp [Node.Live, *]
  · split
    · simp [Node.Live, *]
    · split <;> simp [Node.Live, *]

theorem Core.addTempCallee_live (live : (core.nodes cl).Live) (c : ℕ) :
    ((core.addTempCallee cl).nodes c).Live ↔
      c = core.created ∨ (core.nodes c).Live := by
  have liveCaller : (core.nodes cl).status ≠ .preInvalid ∧
    (core.nodes cl).status ≠ .postInvalid := live
  simp only [Core.addTempCallee]
  split
  · simp [Node.Live, *]
  · split <;> simp [Node.Live, *]

/-- The promotion makes closures until the numbers are used up. -/
theorem Core.Chained.mem_iff {closures : List ℕ}
    (chain : core.Chained made cl res closures) :
    c ∈ closures ↔ core.created ≤ c ∧ c < made.created := by
  have inside : closures ⊆ List.range' core.created closures.length := by
    intro d member
    rw [List.mem_range'_1, ← chain.count]
    exact chain.fresh d member
  have all := (chain.nodup.subperm inside).perm_of_length_le
    (List.length_range' ..).le
  rw [all.mem_iff, List.mem_range'_1, ← chain.count]

theorem Core.Chained.live {closures : List ℕ}
    (chain : core.Chained made cl res closures)
    (resLive : (core.nodes res).Live) :
    (made.nodes c).Live ↔ c ∈ closures ∨ (core.nodes c).Live := by
  by_cases member : c ∈ closures
  · obtain ⟨callParent, callee, node⟩ := chain.between c member
    simp [member, node, Node.Live]
  · rw [or_iff_right member]
    by_cases isOlder : c = cl
    · obtain ⟨callee, node⟩ := chain.older
      rw [isOlder, node]
      exact Iff.rfl
    by_cases isYounger : c = res
    · obtain ⟨callParent, node⟩ := chain.younger
      rw [isYounger, node]
      exact iff_of_true (by simp [Node.Live]) resLive
    · rw [chain.kept c member isOlder isYounger]

end Lives

structure Core.Offspring (core : Core) (root : ℕ)
    (children : ℕ → List ℕ) : Prop where
  siblings : core.Siblings children
  spawned : ∀ p c, c ∈ children p ↔
    (core.nodes c).Live ∧ (core.nodes c).spawnParent = some p
  dead : ∀ p, ¬ (core.nodes p).Live → children p = []
  oneParent : ∀ c p, (core.nodes c).spawnParent = some p →
    (core.nodes c).callParent = none
  orphan : ∀ c, (core.nodes c).Live → c ≠ root → ∃ p, core.Parent p c

namespace Core.Offspring

/-- Nothing happens to the links to parents and siblings. -/
theorem congr (offspring : core.Offspring root children)
    (same : core.SameChildren made)
    (live : ∀ c, (made.nodes c).Live ↔ (core.nodes c).Live)
    (spawnParent : ∀ c, (made.nodes c).spawnParent =
      (core.nodes c).spawnParent)
    (callParent : ∀ c, (made.nodes c).callParent =
      (core.nodes c).callParent) :
    made.Offspring root children := by
  constructor
  case siblings => exact offspring.siblings.sameChildren same
  case spawned =>
    intro p c
    rw [live, spawnParent]
    exact offspring.spawned p c
  case dead =>
    intro p dead
    rw [live] at dead
    exact offspring.dead p dead
  case oneParent =>
    intro c p isParent
    rw [spawnParent] at isParent
    rw [callParent]
    exact offspring.oneParent c p isParent
  case orphan =>
    intro c alive notRoot
    rw [live] at alive
    obtain ⟨p, isParent⟩ := offspring.orphan c alive notRoot
    refine ⟨p, ?_⟩
    rwa [Core.Parent, spawnParent, callParent]

theorem setDeque (offspring : core.Offspring root children) (w : ℕ)
    (deque : List ℕ) : (core.setDeque w deque).Offspring root children :=
  offspring.congr ⟨le_rfl, fun _ => rfl, fun _ => rfl, fun _ => rfl,
    fun _ => rfl⟩ (fun _ => Iff.rfl) (fun _ => rfl) (fun _ => rfl)

theorem setStatus (offspring : core.Offspring root children)
    (live : (core.nodes c).Live) {status : ClosureStatus}
    (remains : Node.Live { core.nodes c with status }) :
    (core.setStatus c status).Offspring root children := by
  apply offspring.congr
  · constructor
    case created => exact le_rfl
    all_goals
      intro d
      rw [Core.setStatus_nodes]
  · intro d
    rw [Core.setStatus_nodes]
    by_cases isChanged : d = c
    · subst d
      rw [if_pos rfl]
      exact iff_of_true remains live
    · rw [if_neg isChanged]
  all_goals
    intro d
    rw [Core.setStatus_nodes]

theorem addChild (offspring : core.Offspring root children)
    (kin : core.Kinship) (live : (core.nodes cl).Live)
    (allocated : cl < core.created) :
    (core.addChild cl).Offspring root
      (Function.update children cl (children cl ++ [core.created])) := by
  have unused := kin.unused core.created le_rfl
  have absent (q : ℕ) : core.created ∉ children q := fun member =>
    absurd (offspring.siblings.younger q _ member).2 (lt_irrefl _)
  have different : cl ≠ core.created := allocated.ne
  have isLive := Core.addChild_live different
  have spawnParent (c : ℕ) : ((core.addChild cl).nodes c).spawnParent =
      if c = core.created then some cl else (core.nodes c).spawnParent := by
    simp only [Core.addChild]
    grind
  have callParent (c : ℕ) : ((core.addChild cl).nodes c).callParent =
      (core.nodes c).callParent := by
    simp only [Core.addChild]
    grind
  have membership (p c : ℕ) : c ∈ Function.update children cl
      (children cl ++ [core.created]) p ↔
        c ∈ children p ∨ c = core.created ∧ p = cl := by
    by_cases isParent : p = cl
    · subst p
      simp
    · simp [isParent]
  constructor
  case siblings => exact offspring.siblings.addChild allocated
  case spawned =>
    intro p c
    rw [membership, isLive, spawnParent]
    by_cases isNew : c = core.created
    · subst c
      simp [absent, eq_comm]
    · simpa [isNew] using offspring.spawned p c
  case dead =>
    intro p dead
    rw [isLive, not_or] at dead
    have notParent : p ≠ cl := by
      rintro rfl
      exact dead.2 live
    rw [Function.update_of_ne notParent]
    exact offspring.dead p dead.2
  case oneParent =>
    intro c p isParent
    rw [spawnParent] at isParent
    rw [callParent]
    split at isParent
    case isTrue isNew => rw [isNew, unused]
    case isFalse => exact offspring.oneParent c p isParent
  case orphan =>
    intro c alive notRoot
    rw [isLive] at alive
    by_cases isNew : c = core.created
    · exact ⟨cl, .inl (by rw [spawnParent, if_pos isNew])⟩
    · obtain ⟨p, isParent⟩ :=
        offspring.orphan c (alive.resolve_left isNew) notRoot
      refine ⟨p, ?_⟩
      rwa [Core.Parent, spawnParent, if_neg isNew, callParent]

theorem addTempCallee (offspring : core.Offspring root children)
    (kin : core.Kinship) (live : (core.nodes cl).Live) :
    (core.addTempCallee cl).Offspring root children := by
  have unused := kin.unused core.created le_rfl
  have absent (q : ℕ) : core.created ∉ children q := fun member =>
    absurd (offspring.siblings.younger q _ member).2 (lt_irrefl _)
  have isLive := Core.addTempCallee_live live
  have spawnParent (c : ℕ) : ((core.addTempCallee cl).nodes c).spawnParent =
      if c = core.created then none else (core.nodes c).spawnParent := by
    simp only [Core.addTempCallee]
    grind
  have callParent (c : ℕ) : ((core.addTempCallee cl).nodes c).callParent =
      if c = core.created then some cl else (core.nodes c).callParent := by
    simp only [Core.addTempCallee]
    grind
  constructor
  case siblings =>
    apply offspring.siblings.sameChildren
    constructor
    case created => exact Nat.le_succ _
    all_goals
      intro c
      simp only [Core.addTempCallee]
      grind
  case spawned =>
    intro p c
    rw [isLive, spawnParent]
    by_cases isNew : c = core.created
    · subst c
      simp [absent]
    · simpa [isNew] using offspring.spawned p c
  case dead =>
    intro p dead
    rw [isLive, not_or] at dead
    exact offspring.dead p dead.2
  case oneParent =>
    intro c p isParent
    rw [spawnParent] at isParent
    rw [callParent]
    split at isParent
    · cases isParent
    · rw [if_neg ‹_›]
      exact offspring.oneParent c p isParent
  case orphan =>
    intro c alive notRoot
    rw [isLive] at alive
    by_cases isNew : c = core.created
    · exact ⟨cl, .inr (by rw [callParent, if_pos isNew])⟩
    · obtain ⟨p, isParent⟩ :=
        offspring.orphan c (alive.resolve_left isNew) notRoot
      refine ⟨p, ?_⟩
      rwa [Core.Parent, spawnParent, if_neg isNew, callParent, if_neg isNew]

/-- A closure with no children left is destroyed. -/
theorem childless (offspring : core.Offspring root children)
    (noChild : (core.nodes c).joinCounter = 0) : children c = [] := by
  rw [offspring.siblings.counter] at noChild
  exact List.eq_nil_of_length_eq_zero noChild

theorem setReturn {caller : ℕ} (offspring : core.Offspring root children)
    (isCaller : (core.nodes c).callParent = some caller)
    (callerLive : (core.nodes caller).Live) (different : c ≠ caller)
    (noChild : (core.nodes c).joinCounter = 0) :
    (core.setReturn w c caller).Offspring root children := by
  have called : (core.nodes c).spawnParent = none := by
    cases isParent : (core.nodes c).spawnParent with
    | none => rfl
    | some p =>
        rw [offspring.oneParent c p isParent] at isCaller
        cases isCaller
  have callerIsLive := callerLive
  have isLive (d : ℕ) : ((core.setReturn w c caller).nodes d).Live ↔
      d ≠ c ∧ (core.nodes d).Live := by
    simp only [Core.setReturn]
    by_cases isCallerHere : d = caller
    · subst d
      simp [Node.Live, different.symm, callerLive.1, callerLive.2]
    · by_cases isCallee : d = c <;>
        simp [Node.Live, isCallerHere, isCallee, different]
  have spawnParent (d : ℕ) : ((core.setReturn w c caller).nodes d).spawnParent =
      (core.nodes d).spawnParent := by
    simp only [Core.setReturn]
    grind
  have callParent (d : ℕ) : ((core.setReturn w c caller).nodes d).callParent =
      (core.nodes d).callParent := by
    simp only [Core.setReturn]
    grind
  constructor
  case siblings =>
    apply offspring.siblings.sameChildren
    constructor
    case created => exact le_rfl
    all_goals
      intro d
      simp only [Core.setReturn]
      grind
  case spawned =>
    intro p d
    rw [isLive, spawnParent, offspring.spawned p d]
    by_cases isCallee : d = c
    · simp [isCallee, called]
    · simp [isCallee]
  case dead =>
    intro p dead
    rw [isLive, not_and_or, not_not] at dead
    rcases dead with rfl | dead
    · exact offspring.childless noChild
    · exact offspring.dead p dead
  case oneParent =>
    intro d p isParent
    rw [spawnParent] at isParent
    rw [callParent]
    exact offspring.oneParent d p isParent
  case orphan =>
    intro d alive notRoot
    rw [isLive] at alive
    obtain ⟨p, isParent⟩ := offspring.orphan d alive.2 notRoot
    refine ⟨p, ?_⟩
    rwa [Core.Parent, spawnParent, callParent]

theorem removeChild (offspring : core.Offspring root children)
    (live : (core.nodes child).Live)
    (isParent : (core.nodes child).spawnParent = some parent)
    (noChild : (core.nodes child).joinCounter = 0) :
    (core.removeChild parent child).Offspring root
      (Function.update children parent ((children parent).erase child)) := by
  have isChild : child ∈ children parent :=
    (offspring.spawned parent child).mpr ⟨live, isParent⟩
  have nodup := offspring.siblings.nodup parent
  have isLive (d : ℕ) : ((core.removeChild parent child).nodes d).Live ↔
      d ≠ child ∧ (core.nodes d).Live := by
    by_cases isRemoved : d = child <;>
      simp [Core.removeChild, Node.Live, isRemoved]
  have membership (p d : ℕ) : d ∈ Function.update children parent
      ((children parent).erase child) p ↔ d ≠ child ∧ d ∈ children p := by
    by_cases same : p = parent
    · subst p
      rw [Function.update_self, nodup.mem_erase_iff]
    · rw [Function.update_of_ne same]
      refine ⟨fun member => ⟨?_, member⟩, And.right⟩
      rintro rfl
      exact same (offspring.siblings.apart p parent d member isChild)
  constructor
  case siblings => exact offspring.siblings.removeChild isChild
  case spawned =>
    intro p d
    rw [membership, isLive, offspring.spawned p d, and_assoc]
    rfl
  case dead =>
    intro p dead
    rw [isLive, not_and_or, not_not] at dead
    apply List.eq_nil_iff_forall_not_mem.mpr
    intro d member
    rw [membership] at member
    rcases dead with rfl | dead
    · rw [offspring.childless noChild] at member
      cases member.2
    · rw [offspring.dead p dead] at member
      cases member.2
  case oneParent => exact offspring.oneParent
  case orphan =>
    intro d alive notRoot
    rw [isLive] at alive
    exact offspring.orphan d alive.2 notRoot

/-- The left sibling is on the list of the parent, before the child. -/
theorem left {sibling : ℕ} (offspring : core.Offspring root children)
    (live : (core.nodes child).Live)
    (isParent : (core.nodes child).spawnParent = some parent)
    (isLeft : (core.nodes child).leftSib = some sibling) :
    child ≠ sibling ∧ child ∈ children parent ∧ sibling ∈ children parent := by
  have isChild := (offspring.spawned parent child).mpr ⟨live, isParent⟩
  obtain ⟨init, rest, isList⟩ := List.append_of_mem isChild
  have linked := offspring.siblings.linked parent
  have nodup := offspring.siblings.nodup parent
  rw [isList] at linked nodup
  rw [linked.links.1] at isLeft
  have isBefore := List.mem_of_getLast? isLeft
  refine ⟨?_, isChild, isList ▸ List.mem_append_left _ isBefore⟩
  rintro rfl
  exact List.disjoint_of_nodup_append nodup isBefore List.mem_cons_self

/-- When a child is removed, its left sibling is still outstanding. -/
theorem counter_of_left {sibling : ℕ} (offspring : core.Offspring root children)
    (live : (core.nodes child).Live)
    (isParent : (core.nodes child).spawnParent = some parent)
    (isLeft : (core.nodes child).leftSib = some sibling) :
    ((core.removeChild parent child).nodes parent).joinCounter ≠ 0 := by
  obtain ⟨different, isChild, isSibling⟩ :=
    offspring.left live isParent isLeft
  rw [(offspring.siblings.removeChild isChild).counter, Function.update_self]
  exact (List.length_pos_of_mem
    ((List.mem_erase_of_ne different.symm).mpr isSibling)).ne'

/-- The rest of a promotion puts closures between a callee and its caller. -/
theorem chained {closures : List ℕ}
    (offspring : core.Offspring root children) (kin : core.Kinship)
    (chain : core.Chained made cl res closures)
    (isCaller : (core.nodes res).callParent = some cl)
    (resLive : (core.nodes res).Live) :
    made.Offspring root children := by
  obtain ⟨linked, next, -, isNext⟩ := chain.links
  have between (c : ℕ) (member : c ∈ closures) :
      (made.nodes c).spawnParent = none ∧ core.nodes c = {} := by
    obtain ⟨callParent, callee, node⟩ := chain.between c member
    exact ⟨by rw [node], kin.unused c (chain.fresh c member).1⟩
  have isLive (c : ℕ) := chain.live (c := c) resLive
  have spawnParent (c : ℕ) : (made.nodes c).spawnParent =
      (core.nodes c).spawnParent := by
    by_cases member : c ∈ closures
    · rw [(between c member).1, (between c member).2]
    · exact chain.spawnParent member
  have callParent (c : ℕ) (notIn : c ∉ closures) (notRes : c ≠ res) :
      (made.nodes c).callParent = (core.nodes c).callParent := by
    by_cases isOlder : c = cl
    · obtain ⟨callee, node⟩ := chain.older
      rw [isOlder, node]
    · rw [chain.kept c notIn isOlder notRes]
  have called : (core.nodes res).spawnParent = none := by
    cases isParent : (core.nodes res).spawnParent with
    | none => rfl
    | some p =>
        rw [offspring.oneParent res p isParent] at isCaller
        cases isCaller
  constructor
  case siblings =>
    apply offspring.siblings.sameChildren
    have node := kin.chained_node chain
    constructor
    case created => exact chain.created
    all_goals
      intro c
      obtain ⟨_, _, _, _, same⟩ := node c
      rw [same]
  case spawned =>
    intro p c
    rw [isLive, spawnParent, offspring.spawned p c]
    by_cases member : c ∈ closures
    · simp [(between c member).2]
    · simp [member]
  case dead =>
    intro p dead
    rw [isLive, not_or] at dead
    exact offspring.dead p dead.2
  case oneParent =>
    intro c p isParent
    rw [spawnParent] at isParent
    have notIn : c ∉ closures := by
      intro member
      rw [(between c member).2] at isParent
      cases isParent
    have notRes : c ≠ res := by
      rintro rfl
      rw [called] at isParent
      cases isParent
    rw [callParent c notIn notRes]
    exact offspring.oneParent c p isParent
  case orphan =>
    intro c alive notRoot
    rw [isLive] at alive
    by_cases member : c ∈ closures
    · obtain ⟨p, -, isParent⟩ := linked.caller member
      exact ⟨p, .inr isParent⟩
    by_cases isRes : c = res
    · exact ⟨next, .inr (isRes ▸ isNext)⟩
    · obtain ⟨p, isParent⟩ :=
        offspring.orphan c (alive.resolve_left member) notRoot
      refine ⟨p, ?_⟩
      rwa [Core.Parent, spawnParent, callParent c member isRes]

end Core.Offspring

/-- When the root has neither children nor a callee, there is nothing else. -/
theorem Core.Offspring.eq_root (offspring : core.Offspring root children)
    (placed : Placed core pc) (ancestry : core.Ancestry)
    (childless : (core.nodes root).hasChildren = false)
    (live : (core.nodes c).Live) : c = root := by
  obtain ⟨noCallee, noChild⟩ := Bool.or_eq_false_iff.mp childless
  rw [bne_eq_false_iff_eq] at noChild
  induction c using ancestry.wellFounded.induction with
  | _ c induction =>
      by_contra notRoot
      obtain ⟨p, isParent⟩ := offspring.orphan c live notRoot
      rcases id isParent with isSpawned | isCalled
      · have member := (offspring.spawned p c).mpr ⟨live, isSpawned⟩
        have parentLive : (core.nodes p).Live := by
          by_contra dead
          rw [offspring.dead p dead] at member
          cases member
        rw [induction p isParent parentLive, offspring.childless noChild]
          at member
        cases member
      · obtain ⟨suspended, hasCallee⟩ := placed.caller c p live isCalled
        rw [induction p isParent (by simp [Node.Live, suspended]), noCallee]
          at hasCallee
        cases hasCallee

theorem initial_offspring {M : Type*} {m : Machine M} (initial : Initial m) :
    m.sched.core.Offspring m.sched.rootClosure fun _ => [] := by
  obtain ⟨sf, fiber, -, root, -⟩ := initial.root
  have rootNode : m.sched.core.nodes m.sched.rootClosure =
      { status := .ready } := by
    simp [State.core, root, Closure.node]
  have otherNode (c : ℕ) (other : c ≠ m.sched.rootClosure) :
      m.sched.core.nodes c = {} := by
    simp [State.core, initial.unused c other, Closure.node]
  have unlinked (c : ℕ) : ∃ status,
      m.sched.core.nodes c = { status } := by
    by_cases isRoot : c = m.sched.rootClosure
    · exact ⟨_, isRoot ▸ rootNode⟩
    · exact ⟨_, otherNode c isRoot⟩
  constructor
  case siblings =>
    apply State.Childless.siblings
    constructor <;> intro c <;> obtain ⟨status, node⟩ := unlinked c
    · exact congrArg Node.leftSib node
    · exact congrArg Node.rightSib node
    · exact congrArg Node.rightMostChild node
    · exact congrArg Node.joinCounter node
  case spawned =>
    intro p c
    obtain ⟨status, node⟩ := unlinked c
    simp [node]
  case dead => exact fun _ _ => rfl
  case oneParent =>
    intro c p isParent
    obtain ⟨status, node⟩ := unlinked c
    rw [node] at isParent
    cases isParent
  case orphan =>
    intro c live notRoot
    rw [otherNode c notRoot] at live
    exact absurd rfl live.1

/-- No step destroys a closure that has children. -/
def Core.KeepsParents (core made : Core) : Prop :=
  ∀ c, (core.nodes c).Live → ¬ (made.nodes c).Live →
    (core.nodes c).joinCounter = 0

theorem CoreMove.offspring (move : CoreMove core pc action made)
    (placed : Placed core pc) (offspring : core.Offspring root children)
    (keeps : core.KeepsParents made) :
    ∃ remaining, made.Offspring root remaining := by
  have runningLive {c : ℕ} (running : (core.nodes c).status = .running) :
      (core.nodes c).Live := by simp [Node.Live, running]
  cases move with
  | still => exact ⟨children, offspring⟩
  | @own _ w t status deque acts has live =>
      have before := (placed.active has).live
      exact ⟨children, (offspring.setStatus before live).setDeque w deque⟩
  | @setReturn w t caller has isCaller =>
      have live := (placed.active has).live
      have suspended := (placed.caller t caller live isCaller).1
      have different : t ≠ caller := by
        rintro rfl
        exact placed.not_carried suspended has
      refine ⟨children, offspring.setReturn isCaller
        (by simp [Node.Live, suspended]) different (keeps t live ?_)⟩
      simp [Core.setReturn, Node.Live, different]
  | @removeChild w child parent has isParent =>
      have live := (placed.active has).live
      refine ⟨_, offspring.removeChild live isParent (keeps child live ?_)⟩
      simp [Core.removeChild, Node.Live]
  | @resume w child parent has isParent childless suspended =>
      have live := (placed.active has).live
      have different : child ≠ parent :=
        Nat.ne_of_gt (placed.kin.parent child parent isParent)
      have removed := offspring.removeChild live isParent (keeps child live (by
        rw [Core.setStatus_nodes]
        simp [Core.removeChild, Node.Live, different]))
      refine ⟨_, removed.setStatus ?_ (by simp [Node.Live])⟩
      simp [Core.removeChild, Node.Live, different.symm, suspended]
  | @stealItself w v cl deque member running =>
      have live := runningLive running
      exact ⟨_, (offspring.addChild placed.kin live
        (placed.allocated live)).setDeque v deque⟩
  | @stealCallee w v cl deque member running =>
      have live := runningLive running
      have allocated := placed.allocated live
      have called := offspring.addTempCallee placed.kin live
      refine ⟨_, (called.addChild (placed.kin.addTempCallee allocated) ?_
        (Nat.lt_succ_self _)).setDeque v deque⟩
      simp [Core.addTempCallee, Node.Live]
  | @promote w cl res closures _ has isCaller chain =>
      exact ⟨children, offspring.chained placed.kin chain isCaller
        (placed.active has).live⟩

section Callees

/-- A closure that is said to have a callee has one. -/
def Core.Called (core : Core) : Prop :=
  ∀ c, (core.nodes c).hasCilkCallee = true →
    ∃ d, (core.nodes d).Live ∧ (core.nodes d).callParent = some c

/-- Every closure of the chain but the youngest one has a callee there. -/
theorem Core.Chained.callee {closures : List ℕ}
    (chain : core.Chained made cl res closures)
    (member : c ∈ closures ++ [cl]) :
    ∃ d ∈ res :: closures, (made.nodes d).callParent = some c := by
  have linked : made.Linked (res :: (closures ++ [cl])) :=
    chain.linked.imp fun callee caller link => link.1
  obtain ⟨before, after, split⟩ := List.append_of_mem member
  -- The callee of `c` is the one before it on the chain.
  have isChain : res :: (closures ++ [cl]) = (res :: before) ++ (c :: after) := by
    rw [split, List.cons_append]
  rw [isChain, Core.Linked, List.isChain_append] at linked
  obtain ⟨d, isLast⟩ : ∃ d, (res :: before).getLast? = some d :=
    ⟨_, List.getLast?_eq_some_getLast (List.cons_ne_nil _ _)⟩
  have link := linked.2.2 d (by simp [isLast]) c (by simp)
  refine ⟨d, ?_, link⟩
  have isBefore := List.mem_of_getLast? isLast
  have dropped : (closures ++ [cl]).dropLast = closures := by simp
  rcases List.mem_cons.mp isBefore with isRes | isBefore
  · exact isRes ▸ List.mem_cons_self
  · refine List.mem_cons_of_mem _ ?_
    rw [← dropped, split, List.dropLast_append_of_ne_nil
      (List.cons_ne_nil _ _)]
    exact List.mem_append_left _ isBefore

theorem CoreMove.called (move : CoreMove core pc action made)
    (placed : Placed core pc) (offspring : core.Offspring root children)
    (called : core.Called) : made.Called := by
  intro c hasCallee
  have allocated {d : ℕ} (live : (core.nodes d).Live) := placed.allocated live
  cases move with
  | still => exact called c hasCallee
  | @own _ w t status deque acts has live =>
      have node (d : ℕ) : ((core.setStatus t status).setDeque w deque).nodes d =
        { core.nodes d with
          status := if d = t then status else (core.nodes d).status } :=
        Core.setStatus_nodes ..
      rw [node] at hasCallee
      obtain ⟨d, isLive, isCaller⟩ := called c hasCallee
      refine ⟨d, ?_, by rw [node]; exact isCaller⟩
      rw [node]
      by_cases isT : d = t
      · rw [if_pos isT, isT]
        exact live
      · rwa [if_neg isT]
  | @setReturn w t caller has isCaller =>
      have isT := placed.active has
      obtain ⟨suspended, -⟩ := placed.caller t caller isT.live isCaller
      have notCaller : c ≠ caller := by
        rintro rfl
        simp [Core.setReturn] at hasCallee
      have notT : c ≠ t := by
        rintro rfl
        simp only [Core.setReturn, if_neg notCaller, if_pos] at hasCallee
        obtain ⟨d, isLive, isCallee⟩ := called c hasCallee
        exact isT.not_suspended (placed.caller d c isLive isCallee).1
      simp only [Core.setReturn, if_neg notCaller, if_neg notT] at hasCallee
      obtain ⟨d, isLive, isCallee⟩ := called c hasCallee
      have notGone : d ≠ t := by
        rintro rfl
        exact notCaller (Option.some.inj (isCallee.symm.trans isCaller))
      refine ⟨d, ?_, ?_⟩ <;> simp only [Core.setReturn]
      · by_cases isHere : d = caller
        · simp [isHere, Node.Live]
        · rwa [if_neg isHere, if_neg notGone]
      · by_cases isHere : d = caller
        · rw [if_pos isHere]
          exact isHere ▸ isCallee
        · rwa [if_neg isHere, if_neg notGone]
  | @removeChild w child parent has isParent =>
      obtain ⟨d, isLive, isCallee⟩ := called c hasCallee
      have notGone : d ≠ child := by
        rintro rfl
        rw [offspring.oneParent d parent isParent] at isCallee
        cases isCallee
      refine ⟨d, ?_, isCallee⟩
      simpa [Core.removeChild, Node.Live, notGone] using isLive
  | @resume w child parent has isParent childless suspended =>
      rw [Core.setStatus_nodes] at hasCallee
      obtain ⟨d, isLive, isCallee⟩ := called c hasCallee
      have notGone : d ≠ child := by
        rintro rfl
        rw [offspring.oneParent d parent isParent] at isCallee
        cases isCallee
      refine ⟨d, ?_, by rw [Core.setStatus_nodes]; exact isCallee⟩
      rw [Core.setStatus_nodes]
      by_cases isHere : d = parent
      · simp [isHere, Node.Live]
      · simpa [isHere, Core.removeChild, Node.Live, notGone] using isLive
  | @stealItself w v cl deque member running =>
      have live : (core.nodes cl).Live := by simp [Node.Live, running]
      have notNew : c ≠ core.created := by
        rintro rfl
        simp [Core.setDeque, Core.addChild] at hasCallee
      have before : (core.nodes c).hasCilkCallee = true := by
        simp only [Core.setDeque, Core.addChild, if_neg notNew] at hasCallee
        grind
      obtain ⟨d, isLive, isCallee⟩ := called c before
      refine ⟨d, (Core.addChild_live (allocated live).ne d).mpr (.inr isLive), ?_⟩
      simp only [Core.setDeque, Core.addChild, if_neg (allocated isLive).ne]
      grind
  | @stealCallee w v cl deque member running =>
      have live : (core.nodes cl).Live := by simp [Node.Live, running]
      have isLive (d : ℕ) : ((((core.addTempCallee cl).addChild
          core.created).setDeque v deque).nodes d).Live ↔
            d = core.created + 1 ∨ d = core.created ∨ (core.nodes d).Live := by
        refine (Core.addChild_live (Nat.lt_succ_self _).ne d).trans ?_
        rw [Core.addTempCallee_live live]
        exact Iff.rfl
      by_cases isCl : c = cl
      · refine ⟨core.created, (isLive _).mpr (.inr (.inl rfl)), ?_⟩
        simp [Core.setDeque, Core.addChild, Core.addTempCallee, isCl]
      · have notNew : c ≠ core.created ∧ c ≠ core.created + 1 := by
          constructor <;> rintro rfl <;>
            simp [Core.setDeque, Core.addChild, Core.addTempCallee] at hasCallee
        have before : (core.nodes c).hasCilkCallee = true := by
          simpa [Core.setDeque, Core.addChild, Core.addTempCallee, isCl,
            notNew.1, notNew.2] using hasCallee
        obtain ⟨d, wasLive, isCallee⟩ := called c before
        refine ⟨d, (isLive d).mpr (.inr (.inr wasLive)), ?_⟩
        have isOld := allocated wasLive
        have notChild : d ≠ core.created + 1 := by omega
        by_cases isHere : d = cl
        · subst isHere
          simp [Core.setDeque, Core.addChild, Core.addTempCallee, isOld.ne,
            notChild, isCallee]
        · simp [Core.setDeque, Core.addChild, Core.addTempCallee, isOld.ne,
            notChild, isHere, isCallee]
  | @promote w cl res closures made has isCaller chain =>
      have resLive := (placed.active has).live
      have isLive (d : ℕ) := chain.live (c := d) resLive
      by_cases onChain : c ∈ closures ++ [cl]
      · obtain ⟨d, isBelow, isCallee⟩ := chain.callee onChain
        refine ⟨d, (isLive d).mpr ?_, isCallee⟩
        rcases List.mem_cons.mp isBelow with isRes | between
        · exact .inr (isRes ▸ resLive)
        · exact .inl between
      · rw [List.mem_append, List.mem_singleton, not_or] at onChain
        have before : (core.nodes c).hasCilkCallee = true := by
          by_cases isRes : c = res
          · obtain ⟨_, node⟩ := chain.younger
            rw [isRes, node] at hasCallee
            exact isRes ▸ hasCallee
          · rwa [chain.kept c onChain.1 onChain.2 isRes] at hasCallee
        obtain ⟨d, wasLive, isCallee⟩ := called c before
        refine ⟨d, (isLive d).mpr (.inr wasLive), ?_⟩
        have notBetween : d ∉ closures := fun member =>
          absurd (allocated wasLive) (not_lt.mpr (chain.fresh d member).1)
        have notRes : d ≠ res := by
          rintro rfl
          exact onChain.2 (Option.some.inj (isCallee.symm.trans isCaller))
        by_cases isCl : d = cl
        · obtain ⟨_, node⟩ := chain.older
          rw [isCl, node]
          exact isCl ▸ isCallee
        · rwa [chain.kept d notBetween isCl notRes]

end Callees

end Multicilk.Scheduler
