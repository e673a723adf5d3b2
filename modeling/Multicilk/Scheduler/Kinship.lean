import Multicilk.Scheduler.Core

/-!
# The links between parents, children and siblings

A closure is younger than its spawn parent, and its siblings have the same one.
-/

namespace Multicilk.Scheduler

variable {core made : Core} {w c d parent child cl res : ℕ}

structure Core.Kinship (core : Core) : Prop where
  real : ∀ c, (core.nodes c).simulatedStolen = false
  parent : ∀ c p, (core.nodes c).spawnParent = some p → p < c
  rightMost : ∀ p c, (core.nodes p).rightMostChild = some c →
    c < core.created ∧ (core.nodes c).spawnParent = some p
  left : ∀ c sib, (core.nodes c).leftSib = some sib →
    sib < core.created ∧
      (core.nodes sib).spawnParent = (core.nodes c).spawnParent
  right : ∀ c sib, (core.nodes c).rightSib = some sib →
    sib < core.created ∧
      (core.nodes sib).spawnParent = (core.nodes c).spawnParent
  unused : ∀ c, core.created ≤ c → core.nodes c = {}

namespace Core.Kinship

theorem setDeque (kin : core.Kinship) (deque : List ℕ) :
    (core.setDeque w deque).Kinship :=
  ⟨kin.real, kin.parent, kin.rightMost, kin.left, kin.right, kin.unused⟩

theorem setStatus (kin : core.Kinship) (allocated : c < core.created)
    (status : ClosureStatus) : (core.setStatus c status).Kinship := by
  constructor
  case unused =>
    intro d unusedThere
    have notChanged : d ≠ c := by
      rintro rfl
      exact absurd allocated (not_lt.mpr unusedThere)
    rw [Core.setStatus_nodes, if_neg notChanged]
    exact kin.unused d unusedThere
  all_goals simp only [Core.setStatus_nodes]
  case real => exact kin.real
  case parent => exact kin.parent
  case rightMost => exact kin.rightMost
  case left => exact kin.left
  case right => exact kin.right

theorem siblingsAllocated {M : Type*} {s : State M} (kin : s.core.Kinship)
    (parent : ℕ) : SiblingsAllocated s parent := by
  intro sibling youngest
  obtain ⟨allocated, hasParent⟩ := kin.rightMost parent sibling youngest
  exact ⟨allocated, Nat.ne_of_gt (kin.parent sibling parent hasParent)⟩

theorem addChild (kin : core.Kinship) (allocated : parent < core.created) :
    (core.addChild parent).Kinship := by
  obtain ⟨real, older, rightMost, left, right, unused⟩ := kin
  have fresh := unused core.created le_rfl
  constructor <;> simp only [Core.addChild]
  case real => grind
  case parent => grind
  case rightMost => grind
  case left => grind
  case right => grind
  case unused => grind

theorem addTempCallee (kin : core.Kinship) (allocated : cl < core.created) :
    (core.addTempCallee cl).Kinship := by
  obtain ⟨real, older, rightMost, left, right, unused⟩ := kin
  have fresh := unused core.created le_rfl
  constructor <;> simp only [Core.addTempCallee]
  case real => grind
  case parent => grind
  case rightMost => grind
  case left => grind
  case right => grind
  case unused => grind

theorem setReturn (kin : core.Kinship) (allocated : c < core.created)
    (callerAllocated : d < core.created) : (core.setReturn w c d).Kinship := by
  obtain ⟨real, older, rightMost, left, right, unused⟩ := kin
  constructor <;> simp only [Core.setReturn]
  case real => grind
  case parent => grind
  case rightMost => grind
  case left => grind
  case right => grind
  case unused => grind

theorem removeChild (kin : core.Kinship) (allocated : child < core.created)
    (isParent : (core.nodes child).spawnParent = some parent) :
    (core.removeChild parent child).Kinship := by
  obtain ⟨real, older, rightMost, left, right, unused⟩ := kin
  constructor <;> simp only [Core.removeChild, Core.unlinkChild]
  case real => grind
  case parent => grind
  case rightMost => grind
  case left => grind
  case right => grind
  case unused => grind

/-- The promotion leaves the links of the spawned children alone. -/
theorem chained_node {closures : List ℕ} (kin : core.Kinship)
    (chain : core.Chained made cl res closures) (c : ℕ) :
    ∃ status hasCilkCallee callee callParent, made.nodes c =
      { core.nodes c with status, hasCilkCallee, callee, callParent } := by
  by_cases isBetween : c ∈ closures
  · obtain ⟨callParent, callee, node⟩ := chain.between c isBetween
    rw [node, kin.unused c (chain.fresh c isBetween).1]
    exact ⟨_, _, _, _, rfl⟩
  by_cases isOlder : c = cl
  · obtain ⟨callee, node⟩ := chain.older
    rw [isOlder, node]
    exact ⟨_, _, _, _, rfl⟩
  by_cases isYounger : c = res
  · obtain ⟨callParent, node⟩ := chain.younger
    rw [isYounger, node]
    exact ⟨_, _, _, _, rfl⟩
  · rw [chain.kept c isBetween isOlder isYounger]
    exact ⟨_, _, _, _, rfl⟩

theorem chained {closures : List ℕ} (kin : core.Kinship)
    (chain : core.Chained made cl res closures) (allocated : cl < core.created)
    (stolenAllocated : res < core.created) : made.Kinship := by
  have node := kin.chained_node chain
  have later := chain.created
  have spawnParent (c : ℕ) : (made.nodes c).spawnParent =
      (core.nodes c).spawnParent := by
    obtain ⟨_, _, _, _, same⟩ := node c
    rw [same]
  constructor
  case real =>
    intro c
    obtain ⟨_, _, _, _, same⟩ := node c
    rw [same]
    exact kin.real c
  case parent =>
    intro c p isParent
    rw [spawnParent] at isParent
    exact kin.parent c p isParent
  case rightMost =>
    intro p c youngest
    obtain ⟨_, _, _, _, same⟩ := node p
    rw [same] at youngest
    rw [spawnParent]
    obtain ⟨old, isParent⟩ := kin.rightMost p c youngest
    exact ⟨old.trans_le later, isParent⟩
  case left =>
    intro c sib isLeft
    obtain ⟨_, _, _, _, same⟩ := node c
    rw [same] at isLeft
    rw [spawnParent, spawnParent]
    obtain ⟨old, sameParent⟩ := kin.left c sib isLeft
    exact ⟨old.trans_le later, sameParent⟩
  case right =>
    intro c sib isRight
    obtain ⟨_, _, _, _, same⟩ := node c
    rw [same] at isRight
    rw [spawnParent, spawnParent]
    obtain ⟨old, sameParent⟩ := kin.right c sib isRight
    exact ⟨old.trans_le later, sameParent⟩
  case unused =>
    intro c unusedThere
    have notBetween : c ∉ closures := fun isBetween =>
      absurd (chain.fresh c isBetween).2 (not_lt.mpr unusedThere)
    rw [chain.kept c notBetween (by omega) (by omega)]
    exact kin.unused c (later.trans unusedThere)

end Core.Kinship

end Multicilk.Scheduler
