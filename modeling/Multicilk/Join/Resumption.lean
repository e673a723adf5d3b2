import Mathlib.Algebra.FreeMonoid.Basic
import Multicilk.Join.Protocol

/-!
# Who resumes a suspended parent

A sync that has suspended the parent is completed once, by the child whose
return leaves no other one.  A parent that waits for its callee is not resumed
by its children, and a parent that waits for its children has some left.
-/

namespace Multicilk.Join

open TransitionSystem

variable {M E : Type*}

/-- A critical section of `Closure_return`. -/
def Action.isReturn : Action M E → Bool
  | .exceptionIteration _ | .reducerIteration _ => true
  | _ => false

/-- The return of a child leaves the parent where it is. -/
structure Unresumed (s next : Family M E) : Prop where
  strand : next.strand = s.strand
  status : next.parent.status = s.parent.status
  completions : next.completions = s.completions
  syncs : next.syncs = s.syncs

/-- The return of the last child makes a parked parent ready. -/
structure Resumed (s next : Family M E) : Prop where
  parked : s.strand.isParked = true
  last : s.parent.joinCounter = 1
  noCallee : s.parent.hasCilkCallee = false
  noChildren : next.parent.hasChildren = false
  ready : ∃ map, next.strand = .ready map
  childRmap :
    s.parent.simulatedStolen = false → next.parent.childRmap = none
  completions : next.completions =
    if s.parent.simulatedStolen then s.completions else s.completions + 1
  syncs : next.syncs =
    if s.parent.simulatedStolen then s.syncs else s.syncs + 1

section Returns

variable [Monoid M] {forceReduce : Bool} {s middle next : Family M E}
  {younger older : List (Child M E)} {child : Child M E} {map : Option M}

theorem Joined.finishReturn_resumes (joined : Joined forceReduce s)
    (same : SameJoin s middle) (sameStrand : middle.strand = s.strand)
    (sameSyncs : middle.syncs = s.syncs)
    (linked : s.children.length = middle.children.length + 1) :
    Unresumed s middle.finishReturn ∨ Resumed s middle.finishReturn := by
  rcases joined.finishReturn_cases same linked with
    ⟨-, -, result⟩ | ⟨parked, callee, last, -, unsynched, result⟩
  · rw [result]
    exact .inl ⟨sameStrand, same.status, same.completions, sameSyncs⟩
  · rw [result]
    right
    constructor
    case parked => exact parked
    case last => exact last
    case noCallee => exact callee
    case noChildren =>
      simp [hasChildren_eq_false, Family.resume, Parent.reduceException_eq,
        same.callee, callee]
    case ready => exact ⟨_, rfl⟩
    case childRmap =>
      intro real
      simp [Family.resume, same.simulated, real]
    case completions =>
      simp only [Family.resume, same.simulated, same.completions]
    case syncs => simp only [Family.resume, same.simulated, sameSyncs]

theorem Joined.reducerIteration_resumes (joined : Joined forceReduce s)
    (position : s.children = younger ++ child :: older) :
    Unresumed s (s.reducerIteration younger older child map) ∨
      Resumed s (s.reducerIteration younger older child map) := by
  unfold Family.reducerIteration
  split
  · refine joined.finishReturn_resumes (sameJoin_storeLeftRmap _) rfl rfl ?_
    simp [Family.depositRmap, storeLeftRmap_snd, position, Nat.add_assoc]
  · exact .inl ⟨rfl, by simp [Family.takeRmaps, storeLeftRmap_fst], rfl, rfl⟩

theorem Joined.exceptionIteration_resumes (joined : Joined forceReduce s)
    (position : s.children = younger ++ child :: older) :
    Unresumed s (s.exceptionIteration younger older child map) ∨
      Resumed s (s.exceptionIteration younger older child map) := by
  unfold Family.exceptionIteration
  split
  · have same : SameJoin s (s.depositExn younger older child map) :=
      sameJoin_storeLeftExn _
    have deposited := @Joined.depositExn _ _ _ _ _ _ _ map joined position
    rcases deposited.reducerIteration_resumes rfl with unresumed | resumed
    · exact .inl ⟨unresumed.strand, unresumed.status.trans same.status,
        unresumed.completions, unresumed.syncs⟩
    · exact .inr ⟨resumed.parked, same.counter.symm.trans resumed.last,
        same.callee.symm.trans resumed.noCallee, resumed.noChildren,
        resumed.ready, same.simulated ▸ resumed.childRmap,
        same.simulated ▸ resumed.completions, same.simulated ▸ resumed.syncs⟩
  · exact .inl ⟨rfl, by simp [Family.takeExns, storeLeftExn_fst], rfl, rfl⟩

/-- What a step does to the parent. -/
theorem Joined.effect {action : Action M E} (joined : Joined forceReduce s)
    (taken : Step forceReduce s action next) :
    (action.isReturn = true ∧ (Unresumed s next ∨ Resumed s next)) ∨
      (action.isReturn = false ∧ next.completions = s.completions ∧
        (next.strand = s.strand ∨ s.strand.isParked = false) ∧
        (next.syncs = s.syncs ∨
          ∃ map, s.strand = .syncing map ∧ next = s.finishSync map)) := by
  cases taken
  case exceptionIteration younger older child map position here =>
    exact .inl ⟨rfl, joined.exceptionIteration_resumes position⟩
  case reducerIteration younger older child map position here =>
    exact .inl ⟨rfl, joined.reducerIteration_resumes position⟩
  case finishSync map here =>
    exact .inr ⟨rfl, rfl, .inr (by rw [here]; rfl), .inr ⟨map, here, rfl⟩⟩
  case sync map exn here unsynched =>
    refine .inr ⟨rfl, ?_, .inr (by rw [here]; rfl), .inl ?_⟩ <;>
      (unfold Family.cilkSync; split <;> rfl)
  all_goals
    refine .inr ⟨rfl, rfl, ?_, .inl rfl⟩
    first
    | exact .inl rfl
    | simp_all [Strand.isParked]

end Returns

/-- What the join protocol guarantees in a state and for the steps that lead
out of it. -/
structure JoinsOnce [Monoid M] (forceReduce : Bool) (s : Family M E) :
    Prop where
  /-- `Cilk_sync` goes on only without children. -/
  syncing : ∀ map, s.strand = .syncing map →
    s.parent.joinCounter = 0 ∧ s.parent.hasCilkCallee = false
  /-- No sync is passed with children or a callee. -/
  passes : ∀ action next, Step forceReduce s action next →
    next.syncs ≠ s.syncs →
    next.parent.joinCounter = 0 ∧ next.parent.hasCilkCallee = false
  /-- Every sync that suspended the parent has been completed, except for the
  one that the parent waits for. -/
  completed :
    s.suspensions = s.completions + if s.awaitsChildren then 1 else 0
  /-- A sync is completed by the return of the last child. -/
  completes : ∀ action next, Step forceReduce s action next →
    next.completions ≠ s.completions →
    next.completions = s.completions + 1 ∧ action.isReturn = true ∧
      s.awaitsChildren = true ∧ s.parent.joinCounter = 1 ∧
      next.parent.hasChildren = false ∧ ∃ map, next.strand = .ready map
  /-- Nothing else resumes a parked parent. -/
  resumes : ∀ action next, Step forceReduce s action next →
    s.strand.isParked = true → next.strand.isParked = false →
    action.isReturn = true ∧ s.parent.joinCounter = 1 ∧
      next.parent.hasChildren = false ∧ ∃ map, next.strand = .ready map
  /-- A parent with a callee is not resumed by a returning child. -/
  keepsCallee : ∀ action next, Step forceReduce s action next →
    action.isReturn = true → s.parent.hasCilkCallee = true →
    next.strand = s.strand ∧ next.parent.status = s.parent.status
  /-- A parent that waits for its children has some. -/
  waits : s.awaitsChildren = true →
    0 < s.parent.joinCounter ∧ s.parent.joinCounter = s.children.length

/-- In every state of every run, syncs that suspend the parent are completed
once, and the parent is not left suspended. -/
theorem joins_once [Monoid M] {forceReduce waits : Bool}
    {trace : List (Family M E × Action M E)} {s : Family M E}
    (run : Run (Step forceReduce) (initial waits) trace s) :
    JoinsOnce forceReduce s := by
  have joined : Joined forceReduce s :=
    run.invariant (joined_initial forceReduce waits)
      fun _ _ _ joined taken => joined.step taken
  have fits := joined.fits
  have counter := joined.counter
  have atSync : ∀ map, s.strand = .syncing map →
      s.parent.joinCounter = 0 ∧ s.parent.hasCilkCallee = false := by
    intro map here
    rw [here] at fits
    exact ⟨counter.trans fits.2.2, fits.2.1⟩
  constructor
  case syncing => exact atSync
  case passes =>
    intro action next taken passed
    rcases joined.effect taken with
      ⟨-, unresumed | resumed⟩ | ⟨-, -, -, same | ⟨map, here, rfl⟩⟩
    · exact absurd unresumed.syncs passed
    · exact (hasChildren_eq_false.mp resumed.noChildren).symm
    · exact absurd same passed
    · simpa [Family.finishSync, Parent.reduceException_eq] using atSync map here
  case completed => exact joined.suspensions
  case completes =>
    intro action next taken changed
    rcases joined.effect taken with
      ⟨isReturn, unresumed | resumed⟩ | ⟨-, same, -⟩
    · exact absurd unresumed.completions changed
    · have completions := resumed.completions
      split at completions
      next => exact absurd completions changed
      next real =>
        exact ⟨completions, isReturn,
          by simpa [Family.awaitsChildren, resumed.parked] using real,
          resumed.last, resumed.noChildren, resumed.ready⟩
    · exact absurd same changed
  case resumes =>
    intro action next taken parked notParked
    rcases joined.effect taken with
      ⟨isReturn, unresumed | resumed⟩ | ⟨-, -, same | running, -⟩
    · rw [unresumed.strand, parked] at notParked
      cases notParked
    · exact ⟨isReturn, resumed.last, resumed.noChildren, resumed.ready⟩
    · rw [same, parked] at notParked
      cases notParked
    · rw [parked] at running
      cases running
  case keepsCallee =>
    intro action next taken isReturn callee
    rcases joined.effect taken with
      ⟨-, unresumed | resumed⟩ | ⟨notReturn, -⟩
    · exact ⟨unresumed.strand, unresumed.status⟩
    · rw [resumed.noCallee] at callee
      cases callee
    · rw [isReturn] at notReturn
      cases notReturn
  case waits =>
    intro awaits
    cases here : s.strand <;>
      simp only [Family.awaitsChildren, here, Strand.isParked,
        Bool.false_and, Bool.false_eq_true] at awaits
    rw [here] at fits
    exact ⟨counter ▸ fits.2.2, counter⟩

/-- The parent syncs before its only child returns. -/
theorem joins_once_after_suspension :
    ∃ trace s, Run (Step false) (initial false : Family (FreeMonoid ℕ) ℕ)
      trace s ∧ s.suspensions = 1 ∧ s.completions = 1 ∧ JoinsOnce false s := by
  obtain ⟨trace, s, run, suspended, completed⟩ : ∃ trace s,
      Run (Step false) (initial false : Family (FreeMonoid ℕ) ℕ) trace s ∧
        s.suspensions = 1 ∧ s.completions = 1 :=
    ⟨_, _, ((((Run.refl.snoc
      (.steal rfl rfl)).snoc
      (.execute rfl rfl)).snoc
      (@Step.sync _ _ _ _ _ _ none rfl rfl)).snoc
      (@Step.finishChild _ _ _ _ _ [] [] _ _ none rfl rfl)).snoc
      (@Step.exceptionIteration _ _ _ _ _ [] [] _ _ rfl rfl), rfl, rfl⟩
  exact ⟨trace, s, run, suspended, completed, joins_once run⟩

end Multicilk.Join
