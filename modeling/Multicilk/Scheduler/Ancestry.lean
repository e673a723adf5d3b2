import Mathlib.Order.WellFounded
import Multicilk.Scheduler.Moves

/-!
# Ancestors

A closure has been spawned or called by its parent.  Going from parent to parent
one comes to an end, since new closures are put below old ones, or between a
closure and its caller.
-/

namespace Multicilk.Scheduler

variable {core made : Core} {pc : ℕ → Pc} {action : Action} {c p fresh : ℕ}

def Core.Parent (core : Core) (p c : ℕ) : Prop :=
  (core.nodes c).spawnParent = some p ∨ (core.nodes c).callParent = some p

structure Core.Ancestry (core : Core) : Prop where
  allocated : ∀ p c, core.Parent p c → p < core.created
  wellFounded : WellFounded core.Parent

namespace Core.Ancestry

theorem congr (ancestry : core.Ancestry)
    (parents : ∀ c, (made.nodes c).spawnParent = (core.nodes c).spawnParent ∧
      (made.nodes c).callParent = (core.nodes c).callParent)
    (created : core.created ≤ made.created) : made.Ancestry := by
  have same : made.Parent = core.Parent := by
    funext p c
    rw [Core.Parent, Core.Parent, (parents c).1, (parents c).2]
  constructor
  case allocated =>
    intro p c isParent
    rw [same] at isParent
    exact (ancestry.allocated p c isParent).trans_le created
  case wellFounded =>
    rw [same]
    exact ancestry.wellFounded

/-- A closure is put below an old one. -/
theorem leaf (ancestry : core.Ancestry) (allocated : p < core.created)
    (created : made.created = core.created + 1)
    (parents : ∀ d c, made.Parent d c →
      c = core.created ∧ d = p ∨ c ≠ core.created ∧ core.Parent d c) :
    made.Ancestry := by
  have old (c : ℕ) : c ≠ core.created → Acc made.Parent c := by
    induction c using ancestry.wellFounded.induction with
    | _ c induction =>
        intro isOld
        constructor
        intro d isParent
        rcases parents d c isParent with ⟨isFresh, -⟩ | ⟨-, wasParent⟩
        · exact absurd isFresh isOld
        · apply induction d wasParent
          exact Nat.ne_of_lt (ancestry.allocated d c wasParent)
  constructor
  case allocated =>
    intro d c isParent
    rw [created]
    rcases parents d c isParent with ⟨-, rfl⟩ | ⟨-, wasParent⟩
    · exact Nat.lt_succ_of_lt allocated
    · exact Nat.lt_succ_of_lt (ancestry.allocated d c wasParent)
  case wellFounded =>
    constructor
    intro c
    by_cases isFresh : c = core.created
    · constructor
      intro d isParent
      rcases parents d c isParent with ⟨-, rfl⟩ | ⟨isOld, -⟩
      · exact old d (Nat.ne_of_lt allocated)
      · exact absurd isFresh isOld
    · exact old c isFresh

theorem addChild (ancestry : core.Ancestry) (allocated : p < core.created) :
    (core.addChild p).Ancestry := by
  apply ancestry.leaf allocated rfl
  intro d c isParent
  simp only [Core.Parent, Core.addChild] at isParent ⊢
  grind

theorem addTempCallee (ancestry : core.Ancestry)
    (allocated : p < core.created) : (core.addTempCallee p).Ancestry := by
  apply ancestry.leaf allocated rfl
  intro d c isParent
  simp only [Core.Parent, Core.addTempCallee] at isParent ⊢
  grind

theorem setDeque (ancestry : core.Ancestry) (w : ℕ) (deque : List ℕ) :
    (core.setDeque w deque).Ancestry :=
  ancestry.congr (fun _ => ⟨rfl, rfl⟩) le_rfl

end Core.Ancestry

section Chains

variable {cl res : ℕ} {closures : List ℕ}

/-- The links of a chain of callees to their callers. -/
def Core.Linked (core : Core) : List ℕ → Prop :=
  List.IsChain fun callee caller => (core.nodes callee).callParent = some caller

theorem Core.Linked.caller (linked : core.Linked (closures ++ [cl]))
    (member : c ∈ closures) :
    ∃ p ∈ closures ++ [cl], (core.nodes c).callParent = some p := by
  induction closures with
  | nil => cases member
  | cons first rest induction =>
      cases rest with
      | nil =>
          obtain rfl := List.mem_singleton.mp member
          have link := List.isChain_cons_cons.mp linked
          exact ⟨cl, by simp, link.1⟩
      | cons second later =>
          have link := List.isChain_cons_cons.mp linked
          rcases List.mem_cons.mp member with rfl | further
          · exact ⟨second, by simp, link.1⟩
          · obtain ⟨p, isHere, isCaller⟩ := induction link.2 further
            exact ⟨p, List.mem_cons_of_mem _ isHere, isCaller⟩

/-- A chain of callees that have not been spawned ends where its oldest closure
does. -/
theorem Core.Linked.accessible (linked : core.Linked (closures ++ [cl]))
    (called : ∀ c ∈ closures, (core.nodes c).spawnParent = none)
    (ends : Acc core.Parent cl) : ∀ c ∈ closures ++ [cl], Acc core.Parent c := by
  induction closures with
  | nil =>
      intro c member
      obtain rfl := List.mem_singleton.mp member
      exact ends
  | cons first rest induction =>
      have later := induction (List.IsChain.of_cons linked)
        fun c member => called c (List.mem_cons_of_mem _ member)
      intro c member
      rcases List.mem_cons.mp member with rfl | further
      · constructor
        intro p isParent
        rcases isParent with isSpawned | isCalled
        · rw [called c (by simp)] at isSpawned
          cases isSpawned
        · cases rest with
          | nil =>
              have link := List.isChain_cons_cons.mp linked
              rw [link.1] at isCalled
              cases isCalled
              exact ends
          | cons second remaining =>
              have link := List.isChain_cons_cons.mp linked
              rw [link.1] at isCalled
              cases isCalled
              exact later _ (by simp)
      · exact later c further

theorem Core.Chained.links (chain : core.Chained made cl res closures) :
    made.Linked (closures ++ [cl]) ∧
      ∃ p ∈ closures ++ [cl], (made.nodes res).callParent = some p := by
  have linked : made.Linked (res :: (closures ++ [cl])) :=
    chain.linked.imp fun callee caller link => link.1
  refine ⟨List.IsChain.of_cons linked, ?_⟩
  cases closures with
  | nil => exact ⟨cl, by simp, (List.isChain_cons_cons.mp linked).1⟩
  | cons first rest =>
      exact ⟨first, by simp, (List.isChain_cons_cons.mp linked).1⟩

theorem Core.Chained.spawnParent (chain : core.Chained made cl res closures)
    (notBetween : c ∉ closures) :
    (made.nodes c).spawnParent = (core.nodes c).spawnParent := by
  by_cases isOlder : c = cl
  · obtain ⟨callee, older⟩ := chain.older
    rw [isOlder, older]
  by_cases isYounger : c = res
  · obtain ⟨callParent, younger⟩ := chain.younger
    rw [isYounger, younger]
  · rw [chain.kept c notBetween isOlder isYounger]

theorem Core.Ancestry.chained (ancestry : core.Ancestry)
    (chain : core.Chained made cl res closures)
    (caller : (core.nodes res).callParent = some cl)
    (allocated : cl < core.created) :
    made.Ancestry := by
  obtain ⟨linked, next, isNext, isCaller⟩ := chain.links
  have fresh (c : ℕ) (member : c ∈ closures) : core.created ≤ c :=
    (chain.fresh c member).1
  have spawned (c : ℕ) (notIn : c ∉ closures) := chain.spawnParent notIn
  have called (c : ℕ) (notIn : c ∉ closures) (notRes : c ≠ res) :
      (made.nodes c).callParent = (core.nodes c).callParent := by
    by_cases isOlder : c = cl
    · obtain ⟨callee, older⟩ := chain.older
      rw [isOlder, older]
    · rw [chain.kept c notIn isOlder notRes]
  have between (c : ℕ) (member : c ∈ closures) :
      (made.nodes c).spawnParent = none := by
    obtain ⟨_, _, node⟩ := chain.between c member
    rw [node]
  have inChain (p : ℕ) (member : p ∈ closures ++ [cl]) : p < made.created := by
    rcases List.mem_append.mp member with isBetween | isOlder
    · exact (chain.fresh p isBetween).2
    · rw [List.mem_singleton.mp isOlder]
      exact allocated.trans_le chain.created
  have old (c : ℕ) : c ∉ closures → Acc made.Parent c := by
    induction c using ancestry.wellFounded.induction with
    | _ c induction =>
        intro notIn
        have oldParent (p : ℕ) (isParent : core.Parent p c) :
            Acc made.Parent p := by
          apply induction p isParent
          intro member
          exact absurd (ancestry.allocated p c isParent)
            (not_lt.mpr (fresh p member))
        constructor
        intro p isParent
        rcases isParent with isSpawned | isCalled
        · rw [spawned c notIn] at isSpawned
          exact oldParent p (.inl isSpawned)
        · by_cases isRes : c = res
          · subst isRes
            rw [isCaller] at isCalled
            cases isCalled
            exact linked.accessible between (oldParent cl (.inr caller)) next
              isNext
          · rw [called c notIn isRes] at isCalled
            exact oldParent p (.inr isCalled)
  have notBetween : cl ∉ closures := fun member =>
    absurd allocated (not_lt.mpr (fresh cl member))
  constructor
  case allocated =>
    intro p c isParent
    by_cases member : c ∈ closures
    · rcases isParent with isSpawned | isCalled
      · rw [between c member] at isSpawned
        cases isSpawned
      · obtain ⟨q, isHere, isQ⟩ := linked.caller member
        rw [isQ] at isCalled
        cases isCalled
        exact inChain _ isHere
    · rcases isParent with isSpawned | isCalled
      · rw [spawned c member] at isSpawned
        exact (ancestry.allocated p c (.inl isSpawned)).trans_le chain.created
      · by_cases isRes : c = res
        · subst isRes
          rw [isCaller] at isCalled
          cases isCalled
          exact inChain next isNext
        · rw [called c member isRes] at isCalled
          exact (ancestry.allocated p c (.inr isCalled)).trans_le chain.created
  case wellFounded =>
    constructor
    intro c
    by_cases member : c ∈ closures
    · exact linked.accessible between (old cl notBetween) c (by simp [member])
    · exact old c member

end Chains

section Moves

theorem CoreMove.ancestry (move : CoreMove core pc action made)
    (placed : Placed core pc) (ancestry : core.Ancestry) : made.Ancestry := by
  have allocated {c : ℕ} (running : (core.nodes c).status = .running) :
      c < core.created := placed.allocated (by simp [Node.Live, running])
  cases move with
  | still => exact ancestry
  | own =>
      refine ancestry.congr (fun c => ?_) le_rfl
      rw [Core.setDeque, Core.setStatus_nodes]
      exact ⟨rfl, rfl⟩
  | setReturn =>
      refine ancestry.congr (fun c => ?_) le_rfl
      simp only [Core.setReturn]
      split
      · exact ⟨rfl, rfl⟩
      · split <;> exact ⟨rfl, rfl⟩
  | removeChild => exact ancestry.congr (fun c => ⟨rfl, rfl⟩) le_rfl
  | resume =>
      refine ancestry.congr (fun c => ?_) le_rfl
      rw [Core.setStatus_nodes]
      exact ⟨rfl, rfl⟩
  | @stealItself w v cl deque member running =>
      exact (ancestry.addChild (allocated running)).setDeque v deque
  | @stealCallee w v cl deque member running =>
      have called := ancestry.addTempCallee (allocated running)
      exact (called.addChild (Nat.lt_succ_self _)).setDeque v deque
  | @promote w cl res closures _ has isCaller chain =>
      have active := placed.active has
      have suspended := (placed.caller res cl active.live isCaller).1
      exact ancestry.chained chain isCaller
        (placed.allocated (by simp [Node.Live, suspended]))

/-- A closure has the same spawn parent all its life. -/
theorem CoreMove.spawnParent (move : CoreMove core pc action made)
    (placed : Placed core pc) (isParent : (core.nodes c).spawnParent = some p) :
    (made.nodes c).spawnParent = some p := by
  have allocated : c < core.created := by
    by_contra unused
    rw [placed.kin.unused c (not_lt.mp unused)] at isParent
    cases isParent
  cases move with
  | still => exact isParent
  | own =>
      rw [Core.setDeque, Core.setStatus_nodes]
      exact isParent
  | setReturn =>
      simp only [Core.setReturn]
      split
      · exact isParent
      · split <;> exact isParent
  | removeChild => exact isParent
  | resume =>
      rw [Core.setStatus_nodes]
      exact isParent
  | @stealItself w v cl deque member running =>
      simp only [Core.setDeque, Core.addChild, if_neg (Nat.ne_of_lt allocated)]
      split
      case isTrue same => exact same ▸ isParent
      case isFalse => split <;> exact isParent
  | @stealCallee w v cl deque member running =>
      have notNew : c ≠ core.created + 1 := by omega
      simp only [Core.setDeque, Core.addChild, Core.addTempCallee,
        if_neg (Nat.ne_of_lt allocated), if_neg notNew]
      grind
  | @promote w cl res closures _ has isCaller chain =>
      have notBetween : c ∉ closures := fun member =>
        absurd allocated (not_lt.mpr (chain.fresh c member).1)
      rw [chain.spawnParent notBetween]
      exact isParent

/-- At the start of a region no closure has a parent. -/
theorem initial_ancestry {M : Type*} {m : Machine M} (initial : Initial m) :
    m.sched.core.Ancestry := by
  obtain ⟨sf, fiber, -, root, -⟩ := initial.root
  have orphan (p c : ℕ) : ¬ m.sched.core.Parent p c := by
    by_cases isRoot : c = m.sched.rootClosure
    · simp [Core.Parent, State.core, isRoot, root, Closure.node]
    · simp [Core.Parent, State.core, initial.unused c isRoot, Closure.node]
  constructor
  case allocated => exact fun p c isParent => absurd isParent (orphan p c)
  case wellFounded =>
    exact ⟨fun c => ⟨c, fun p isParent => absurd isParent (orphan p c)⟩⟩

end Moves

end Multicilk.Scheduler
