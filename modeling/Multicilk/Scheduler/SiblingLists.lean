import Multicilk.Scheduler.Core
import Multicilk.Support.DoublyLinked
import Multicilk.Support.Run

/-!
# The lists of outstanding children

The children of a closure that have been promoted and have not returned are linked
to each other, in the order in which they were spawned.
-/

namespace Multicilk.Scheduler

open DoublyLinked TransitionSystem

variable {core made : Core} {children : ℕ → List ℕ} {parent child c p : ℕ}

/-- The closures are linked as the children are, and counted. -/
structure Core.Siblings (core : Core) (children : ℕ → List ℕ) : Prop where
  rightMost : ∀ p, (core.nodes p).rightMostChild = (children p).getLast?
  linked : ∀ p, Linked (fun c => (core.nodes c).leftSib)
    (fun c => (core.nodes c).rightSib) (children p)
  nodup : ∀ p, (children p).Nodup
  counter : ∀ p, (core.nodes p).joinCounter = (children p).length
  younger : ∀ p, ∀ c ∈ children p, p < c ∧ c < core.created
  apart : ∀ p q c, c ∈ children p → c ∈ children q → p = q
  unlinked : ∀ c, (∀ p, c ∉ children p) →
    (core.nodes c).leftSib = none ∧ (core.nodes c).rightSib = none

/-- What else happens to closures has nothing to do with children. -/
structure Core.SameChildren (core made : Core) : Prop where
  created : core.created ≤ made.created
  leftSib : ∀ c, (made.nodes c).leftSib = (core.nodes c).leftSib
  rightSib : ∀ c, (made.nodes c).rightSib = (core.nodes c).rightSib
  rightMost : ∀ c, (made.nodes c).rightMostChild =
    (core.nodes c).rightMostChild
  counter : ∀ c, (made.nodes c).joinCounter = (core.nodes c).joinCounter

namespace Core.Siblings

theorem sameChildren (siblings : core.Siblings children)
    (same : core.SameChildren made) : made.Siblings children := by
  constructor
  case rightMost => exact fun p => (same.rightMost p).trans (siblings.rightMost p)
  case linked =>
    intro p
    exact (siblings.linked p).congr (fun c _ => same.leftSib c)
      (fun c _ => same.rightSib c)
  case nodup => exact siblings.nodup
  case counter => exact fun p => (same.counter p).trans (siblings.counter p)
  case younger =>
    intro p c member
    obtain ⟨older, allocated⟩ := siblings.younger p c member
    exact ⟨older, allocated.trans_le same.created⟩
  case apart => exact siblings.apart
  case unlinked =>
    intro c absent
    rw [same.leftSib, same.rightSib]
    exact siblings.unlinked c absent

theorem addChild (siblings : core.Siblings children)
    (allocated : parent < core.created) : (core.addChild parent).Siblings
      (Function.update children parent (children parent ++ [core.created])) := by
  have notCreated {c q : ℕ} (member : c ∈ children q) : c ≠ core.created :=
    (siblings.younger q c member).2.ne
  have notParent {c : ℕ} (member : c ∈ children parent) : c ≠ parent :=
    (siblings.younger parent c member).1.ne'
  have absent (q : ℕ) : core.created ∉ children q :=
    fun member => notCreated member rfl
  have lastOf {c : ℕ} (isLast : (core.nodes parent).rightMostChild = some c) :
      c ∈ children parent :=
    List.mem_of_getLast? ((siblings.rightMost parent).symm.trans isLast)
  have here : Function.update children parent
      (children parent ++ [core.created]) parent =
        children parent ++ [core.created] := Function.update_self ..
  have there {q : ℕ} (other : q ≠ parent) : Function.update children parent
      (children parent ++ [core.created]) q = children q :=
    Function.update_of_ne other ..
  have different : parent ≠ core.created := allocated.ne
  have childless : children core.created = [] := by
    apply List.eq_nil_iff_forall_not_mem.mpr
    intro c member
    obtain ⟨older, inRange⟩ := siblings.younger core.created c member
    exact absurd (older.trans inRange) (lt_irrefl _)
  constructor
  case rightMost =>
    intro q
    by_cases isParent : q = parent
    · rw [isParent, here, List.getLast?_concat]
      simp [Core.addChild, different]
    · rw [there isParent, ← siblings.rightMost q]
      simp only [Core.addChild, if_neg isParent]
      split
      case isTrue isNew =>
        have noneBefore := siblings.rightMost core.created
        rw [childless] at noneBefore
        rw [isNew, noneBefore]
        rfl
      case isFalse => split <;> rfl
  case linked =>
    intro q
    by_cases isParent : q = parent
    · rw [isParent, here]
      apply (siblings.linked parent).add (siblings.nodup parent)
      · simp [Core.addChild, siblings.rightMost]
      · simp [Core.addChild]
      · intro c member
        simp only [Core.addChild, if_neg (notCreated member),
          if_neg (notParent member)]
        split <;> rfl
      · intro c member notLast
        rw [← siblings.rightMost] at notLast
        simp [Core.addChild, notCreated member, notParent member, notLast]
      · intro c isLast
        have member := List.mem_of_getLast? isLast
        rw [← siblings.rightMost] at isLast
        simp [Core.addChild, notCreated member, notParent member, isLast]
    · rw [there isParent]
      apply (siblings.linked q).congr
      · intro c member
        simp only [Core.addChild, if_neg (notCreated member)]
        split
        case isTrue same => rw [same]
        case isFalse => split <;> rfl
      · intro c member
        have notLast : (core.nodes parent).rightMostChild ≠ some c :=
          fun isLast => isParent (siblings.apart q parent c member (lastOf isLast))
        simp only [Core.addChild, if_neg (notCreated member), if_neg notLast]
        split
        case isTrue same => rw [same]
        case isFalse => rfl
  case nodup =>
    intro q
    by_cases isParent : q = parent
    · rw [isParent, here, List.nodup_append]
      refine ⟨siblings.nodup parent, List.nodup_singleton _, ?_⟩
      rintro c member d isNew rfl
      exact notCreated member (List.mem_singleton.mp isNew)
    · rw [there isParent]
      exact siblings.nodup q
  case counter =>
    intro q
    by_cases isParent : q = parent
    · rw [isParent, here, List.length_append, ← siblings.counter]
      simp [Core.addChild, different]
    · rw [there isParent, ← siblings.counter q]
      simp only [Core.addChild, if_neg isParent]
      split
      case isTrue isNew =>
        have noneBefore := siblings.counter core.created
        rw [childless] at noneBefore
        rw [isNew, noneBefore]
        rfl
      case isFalse => split <;> rfl
  case younger =>
    intro q c member
    show q < c ∧ c < core.created + 1
    by_cases isParent : q = parent
    · rw [isParent, here] at member
      rcases List.mem_append.mp member with old | isNew
      · have := siblings.younger parent c old
        omega
      · have := List.mem_singleton.mp isNew
        omega
    · rw [there isParent] at member
      have := siblings.younger q c member
      omega
  case apart =>
    intro q r c member member'
    by_cases isParent : q = parent <;> by_cases isParent' : r = parent
    · rw [isParent, isParent']
    · rw [isParent, here] at member
      rw [there isParent'] at member'
      rcases List.mem_append.mp member with old | isNew
      · exact isParent.trans (siblings.apart parent r c old member')
      · exact absurd (List.mem_singleton.mp isNew) (notCreated member')
    · rw [there isParent] at member
      rw [isParent', here] at member'
      rcases List.mem_append.mp member' with old | isNew
      · exact (siblings.apart q parent c member old).trans isParent'.symm
      · exact absurd (List.mem_singleton.mp isNew) (notCreated member)
    · rw [there isParent] at member
      rw [there isParent'] at member'
      exact siblings.apart q r c member member'
  case unlinked =>
    intro c outside
    have notNew : c ≠ core.created := by
      rintro rfl
      apply outside parent
      rw [here]
      exact List.mem_append_right _ List.mem_cons_self
    have wasOutside (q : ℕ) : c ∉ children q := by
      intro member
      by_cases isParent : q = parent
      · apply outside parent
        rw [here]
        exact List.mem_append_left _ (isParent ▸ member)
      · apply outside q
        rwa [there isParent]
    have notLast : (core.nodes parent).rightMostChild ≠ some c :=
      fun isLast => wasOutside parent (lastOf isLast)
    have alone := siblings.unlinked c wasOutside
    simp only [Core.addChild, if_neg notNew, if_neg notLast]
    split
    case isTrue same => exact same ▸ alone
    case isFalse => exact alone

/-- A child is taken out of the list, wherever it is. -/
theorem removeChild (siblings : core.Siblings children)
    (isChild : child ∈ children parent) : (core.removeChild parent child).Siblings
      (Function.update children parent ((children parent).erase child)) := by
  obtain ⟨init, rest, isList⟩ := List.append_of_mem isChild
  have nodup := siblings.nodup parent
  have linked := siblings.linked parent
  rw [isList] at nodup linked
  obtain ⟨absent, shorterNodup⟩ :=
    List.nodup_cons.mp (List.perm_middle.nodup_iff.mp nodup)
  have erased : (children parent).erase child = init ++ rest := by
    rw [isList, List.erase_append_right _ fun member =>
      absent (List.mem_append_left _ member), List.erase_cons_head]
  obtain ⟨isLeft, isRight⟩ := linked.links
  have member (c : ℕ) :
      c ∈ children parent ↔ c = child ∨ c ∈ init ++ rest := by
    rw [isList]
    simp only [List.mem_append, List.mem_cons]
    grind
  have lastMember {c : ℕ} (isLast : init.getLast? = some c) :
      c ∈ init ++ rest :=
    List.mem_append_left _ (List.mem_of_getLast? isLast)
  have headMember {c : ℕ} (isHead : rest.head? = some c) : c ∈ init ++ rest :=
    List.mem_append_right _ (List.mem_of_mem_head? isHead)
  have notChild {c : ℕ} (remains : c ∈ init ++ rest) : c ≠ child := by
    rintro rfl
    exact absent remains
  have leftSib (c : ℕ) : ((core.removeChild parent child).nodes c).leftSib =
      if c = child then none
      else if rest.head? = some c then init.getLast?
      else (core.nodes c).leftSib := by
    simp only [Core.removeChild, Core.unlinkChild, isLeft, isRight]
  have rightSib (c : ℕ) : ((core.removeChild parent child).nodes c).rightSib =
      if c = child then none
      else if init.getLast? = some c then rest.head?
      else (core.nodes c).rightSib := by
    simp only [Core.removeChild, Core.unlinkChild, isLeft, isRight]
  rw [erased]
  have here : Function.update children parent (init ++ rest) parent =
      init ++ rest := Function.update_self ..
  have there {q : ℕ} (other : q ≠ parent) :
      Function.update children parent (init ++ rest) q = children q :=
    Function.update_of_ne other ..
  have elsewhere {q c : ℕ} (other : q ≠ parent) (inOther : c ∈ children q) :
      c ≠ child ∧ c ∉ init ++ rest := by
    constructor
    · rintro rfl
      exact other (siblings.apart q parent c inOther isChild)
    · intro remains
      exact other (siblings.apart q parent c inOther
        ((member c).mpr (.inr remains)))
  constructor
  case rightMost =>
    intro q
    have rightMost := siblings.rightMost q
    by_cases isParent : q = parent
    · subst q
      rw [isList] at rightMost
      rw [here]
      simp only [Core.removeChild, true_and]
      cases rest with
      | nil =>
          rw [List.getLast?_concat] at rightMost
          rw [if_pos rightMost, isLeft, List.append_nil]
      | cons head rest =>
          have isLast : (core.nodes parent).rightMostChild =
              (init ++ head :: rest).getLast? := by
            simpa using rightMost
          rw [if_neg, isLast]
          intro isChild
          exact absent (List.mem_of_getLast? (isLast.symm.trans isChild))
    · rw [there isParent, ← rightMost]
      simp only [Core.removeChild, isParent, false_and, if_false]
  case linked =>
    intro q
    by_cases isParent : q = parent
    · rw [isParent, here]
      apply linked.remove nodup
      · intro c remains notHead
        rw [leftSib, if_neg (notChild remains), if_neg notHead]
      · intro c remains notLast
        rw [rightSib, if_neg (notChild remains), if_neg notLast]
      · intro c isHead
        rw [leftSib, if_neg (notChild (headMember isHead)), if_pos isHead]
      · intro c isLast
        rw [rightSib, if_neg (notChild (lastMember isLast)), if_pos isLast]
    · rw [there isParent]
      apply (siblings.linked q).congr
      · intro c inOther
        obtain ⟨notRemoved, outside⟩ := elsewhere isParent inOther
        rw [leftSib, if_neg notRemoved,
          if_neg fun isHead => outside (headMember isHead)]
      · intro c inOther
        obtain ⟨notRemoved, outside⟩ := elsewhere isParent inOther
        rw [rightSib, if_neg notRemoved,
          if_neg fun isLast => outside (lastMember isLast)]
  case nodup =>
    intro q
    by_cases isParent : q = parent
    · rw [isParent, here]
      exact shorterNodup
    · rw [there isParent]
      exact siblings.nodup q
  case counter =>
    intro q
    have counter := siblings.counter q
    by_cases isParent : q = parent
    · subst q
      rw [isList, List.length_append, List.length_cons] at counter
      rw [here, List.length_append]
      simp only [Core.removeChild, if_pos]
      omega
    · rw [there isParent, ← counter]
      simp only [Core.removeChild, if_neg isParent]
  case younger =>
    intro q c inList
    by_cases isParent : q = parent
    · subst q
      rw [here] at inList
      exact siblings.younger parent c ((member c).mpr (.inr inList))
    · rw [there isParent] at inList
      exact siblings.younger q c inList
  case apart =>
    intro q r c inList inList'
    by_cases isParent : q = parent <;> by_cases isParent' : r = parent
    · rw [isParent, isParent']
    · rw [isParent, here] at inList
      rw [there isParent'] at inList'
      exact absurd inList (elsewhere isParent' inList').2
    · rw [there isParent] at inList
      rw [isParent', here] at inList'
      exact absurd inList' (elsewhere isParent inList).2
    · rw [there isParent] at inList
      rw [there isParent'] at inList'
      exact siblings.apart q r c inList inList'
  case unlinked =>
    intro c outside
    by_cases isRemoved : c = child
    · rw [leftSib, rightSib, if_pos isRemoved, if_pos isRemoved]
      exact ⟨rfl, rfl⟩
    have notRemaining : c ∉ init ++ rest := by
      have outside := outside parent
      rwa [here] at outside
    have wasOutside (q : ℕ) : c ∉ children q := by
      intro inList
      by_cases isParent : q = parent
      · subst q
        rcases (member c).mp inList with rfl | remains
        · exact isRemoved rfl
        · exact notRemaining remains
      · apply outside q
        rwa [there isParent]
    rw [leftSib, rightSib, if_neg isRemoved, if_neg isRemoved,
      if_neg fun isHead => notRemaining (headMember isHead),
      if_neg fun isLast => notRemaining (lastMember isLast)]
    exact siblings.unlinked c wasOutside

theorem rightMost_allocated {M : Type*} {s : State M}
    (siblings : s.core.Siblings children) (parent : ℕ) :
    SiblingsAllocated s parent := by
  intro sibling isRightMost
  have isLast := (siblings.rightMost parent).symm.trans isRightMost
  obtain ⟨older, allocated⟩ :=
    siblings.younger parent sibling (List.mem_of_getLast? isLast)
  exact ⟨allocated, older.ne'⟩

theorem counter_ne_zero (siblings : core.Siblings children)
    (isChild : child ∈ children parent) :
    (core.nodes parent).joinCounter ≠ 0 := by
  rw [siblings.counter parent]
  exact (List.length_pos_of_mem isChild).ne'

end Core.Siblings

/-- `Closure_return` takes the child out of the tree and counts it. -/
def unlinkReturned {M : Type*} (s : State M) (parent child : ℕ) : State M :=
  (closureDestroy (closureRemoveChild s parent child) .closureReturn
    child).modifyClosure parent
      fun c => { c with joinCounter := c.joinCounter - 1 }

/-- The closures, with the spawned children of each that have not been unlinked,
from the least to the most recently spawned. -/
structure Families (M : Type*) where
  state : State M
  children : ℕ → List ℕ

inductive FamilyAction where
  | promote (parent : ℕ)
  | unlink (parent child : ℕ)
  | other

/-- The parent is locked during a promotion and while a child is unlinked. -/
inductive FamilyStep {M : Type*} :
    Families M → FamilyAction → Families M → Prop where
  | promote {s : State M} {children : ℕ → List ℕ} {victim parent : ℕ} :
      parent < s.created →
      FamilyStep ⟨s, children⟩ (.promote parent)
        ⟨promoteSpawnChild s victim parent, Function.update children parent
          (children parent ++ [s.created])⟩
  | unlink {s : State M} {children : ℕ → List ℕ} {parent child : ℕ} :
      child ∈ children parent →
      FamilyStep ⟨s, children⟩ (.unlink parent child)
        ⟨unlinkReturned s parent child, Function.update children parent
          ((children parent).erase child)⟩
  /-- Whatever else is done in between. -/
  | other {s t : State M} {children : ℕ → List ℕ} :
      s.core.SameChildren t.core →
      FamilyStep ⟨s, children⟩ .other ⟨t, children⟩

section Families

variable {M : Type*} {families next : Families M} {action : FamilyAction}

theorem FamilyStep.siblings (taken : FamilyStep families action next)
    (siblings : families.state.core.Siblings families.children) :
    next.state.core.Siblings next.children := by
  cases taken with
  | promote allocated =>
      rw [core_promoteSpawnChild allocated
        (siblings.rightMost_allocated _)]
      exact (siblings.addChild allocated).sameChildren
        ⟨le_rfl, fun _ => rfl, fun _ => rfl, fun _ => rfl, fun _ => rfl⟩
  | unlink isChild =>
      rw [unlinkReturned, core_removeChild]
      exact siblings.removeChild isChild
  | other same => exact siblings.sameChildren same

theorem FamilyStep.counter_ne_zero
    (taken : FamilyStep families (.unlink parent child) next)
    (siblings : families.state.core.Siblings families.children) :
    (families.state.closures parent).joinCounter ≠ 0 := by
  cases taken with
  | unlink isChild => exact siblings.counter_ne_zero isChild

end Families

/-- No closure has a child yet. -/
structure State.Childless {M : Type*} (s : State M) : Prop where
  leftSib : ∀ c, (s.closures c).leftSib = none
  rightSib : ∀ c, (s.closures c).rightSib = none
  rightMostChild : ∀ c, (s.closures c).rightMostChild = none
  joinCounter : ∀ c, (s.closures c).joinCounter = 0

theorem State.Childless.siblings {M : Type*} {s : State M}
    (childless : s.Childless) : s.core.Siblings fun _ => [] := by
  constructor
  case rightMost => exact childless.rightMostChild
  case linked => exact fun _ => trivial
  case nodup => exact fun _ => List.nodup_nil
  case counter => exact childless.joinCounter
  case younger => exact fun _ _ member => absurd member List.not_mem_nil
  case apart => exact fun _ _ _ member => absurd member List.not_mem_nil
  case unlinked => exact fun c _ => ⟨childless.leftSib c, childless.rightSib c⟩

/-- While a parent is not locked, its outstanding children are linked in both
directions and counted, every other closure has no siblings, and the counter is
not zero when it is decremented. -/
theorem outstanding_children_linked {M : Type*} {s : State M}
    {final : Families M} {trace : List (Families M × FamilyAction)}
    (childless : s.Childless)
    (run : Run FamilyStep ⟨s, fun _ => []⟩ trace final) :
    (∀ p, Follows (fun c => (final.state.closures c).leftSib)
        (final.state.closures p).rightMostChild (final.children p).reverse ∧
      Follows (fun c => (final.state.closures c).rightSib)
        (final.children p).head? (final.children p) ∧
      (∀ c ∈ final.children p, ∀ d,
        (final.state.closures c).rightSib = some d ↔
          d ∈ final.children p ∧
            (final.state.closures d).leftSib = some c) ∧
      (final.state.closures p).joinCounter = (final.children p).length) ∧
    (∀ c, (∀ p, c ∉ final.children p) →
      (final.state.closures c).leftSib = none ∧
        (final.state.closures c).rightSib = none) ∧
    ∀ families parent child, (families, .unlink parent child) ∈ trace →
      (families.state.closures parent).joinCounter ≠ 0 := by
  have holds {trace : List (Families M × FamilyAction)} {final : Families M}
      (run : Run FamilyStep ⟨s, fun _ => []⟩ trace final) :
      final.state.core.Siblings final.children :=
    @Run.invariant _ _ _ _ _ _ (fun families : Families M =>
      families.state.core.Siblings families.children) run childless.siblings
      fun _ _ _ siblings taken => taken.siblings siblings
  have siblings := holds run
  refine ⟨fun p => ⟨?_, ?_, ?_, siblings.counter p⟩, siblings.unlinked, ?_⟩
  · have back := (siblings.linked p).follows_reverse
    rwa [← siblings.rightMost p] at back
  · exact (siblings.linked p).follows
  · exact fun c member d => (siblings.linked p).right_eq_some_iff member
  · intro families parent child member
    obtain ⟨before, after, target, -, earlier, taken, -⟩ :=
      run.split_at_step member
    exact taken.counter_ne_zero (holds earlier)

/-- The workers have a closure that has not spawned anything. -/
def oneParent : State Unit where
  closures := fun c => if c = 0 then { status := .running } else {}
  created := 1
  frames := fun _ => {}
  entered := 0
  workers := fun _ => {}
  deques := fun w => if w = 0 then [0] else []
  rootClosure := 0
  pool := []
  mapped := 0
  unmapped := []
  taken := []
  returned := []
  destroyed := []

theorem oneParent_childless : oneParent.Childless := by
  constructor <;> intro c <;> unfold oneParent <;> dsimp only <;> split <;> rfl

/-- The second of three children returns. -/
def withoutSecond : State Unit :=
  unlinkReturned (promoteSpawnChild (promoteSpawnChild
    (promoteSpawnChild oneParent 0 0) 0 0) 0 0) 0 2

theorem outstanding_children_linked_withoutSecond :
    Follows (fun c => (withoutSecond.closures c).leftSib)
        (withoutSecond.closures 0).rightMostChild [3, 1] ∧
      (withoutSecond.closures 0).joinCounter = 2 ∧
      (withoutSecond.closures 2).leftSib = none := by
  have run : Run FamilyStep ⟨oneParent, fun _ => []⟩ _ ⟨withoutSecond, _⟩ :=
    (((Run.refl.snoc (@FamilyStep.promote _ _ _ 0 0 (by decide))).snoc
      (@FamilyStep.promote _ _ _ 0 0 (by decide))).snoc
      (@FamilyStep.promote _ _ _ 0 0 (by decide))).snoc
      (@FamilyStep.unlink _ _ _ 0 2 (by decide))
  obtain ⟨families, alone, -⟩ :=
    outstanding_children_linked oneParent_childless run
  obtain ⟨follows, -, -, counter⟩ := families 0
  refine ⟨follows, counter, (alone 2 ?_).1⟩
  intro p
  by_cases isParent : p = 0
  · subst p
    decide
  · simp [isParent]

end Multicilk.Scheduler
