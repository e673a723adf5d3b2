import Multicilk.Join.Family
import Multicilk.Support.Run

/-!
# The join protocol

A parent that is suspended waits for its callee or for its children, and the
two are told apart by `has_cilk_callee`.  The join counter counts the linked
children, so that the last child to return finds no other reason to leave a
parent suspended.
-/

namespace Multicilk.Join

open TransitionSystem

variable {M E : Type*}

/-- The status of the parent and its callee, as whoever goes on with it sees
them. -/
def Strand.Fits (parent : Parent M E) (linked : ℕ) : Strand M → Prop
  | .running _ => parent.status = .running ∧ parent.hasCilkCallee = false
  | .ready _ => parent.status = .ready ∧ parent.hasCilkCallee = false
  | .syncing _ =>
      parent.status = .running ∧ parent.hasCilkCallee = false ∧ linked = 0
  | .created =>
      parent.status = .suspended ∧ parent.hasCilkCallee = false ∧ linked = 0
  | .callee _ => parent.status = .suspended ∧ parent.hasCilkCallee = true
  | .parked =>
      parent.status = .suspended ∧ parent.hasCilkCallee = false ∧ 0 < linked

def Strand.isParked : Strand M → Bool
  | .parked => true
  | _ => false

/-- The parent has been suspended by a sync. -/
def Family.awaitsChildren (family : Family M E) : Bool :=
  family.strand.isParked && !family.parent.simulatedStolen

structure Joined (forceReduce : Bool) (s : Family M E) : Prop where
  counter : s.parent.joinCounter = s.children.length
  fits : s.strand.Fits s.parent s.children.length
  simulated : s.parent.simulatedStolen = true → forceReduce = true
  alone : forceReduce = true →
    if s.strand.isParked then
      s.parent.simulatedStolen = true ∧ s.children.length = 1
    else s.children.length = 0
  suspensions :
    s.suspensions = s.completions + if s.awaitsChildren then 1 else 0

theorem joined_initial (forceReduce waits : Bool) :
    Joined forceReduce (initial waits : Family M E) := by
  cases waits <;> constructor <;> simp [initial, Strand.Fits,
    Strand.isParked, Family.awaitsChildren]

section Steps

variable {forceReduce : Bool} {s next : Family M E}

theorem hasChildren_eq_false {parent : Parent M E} :
    parent.hasChildren = false ↔
      parent.hasCilkCallee = false ∧ parent.joinCounter = 0 := by
  simp [Parent.hasChildren]

theorem Strand.Fits.congr {strand : Strand M} {before after : Parent M E}
    {linked : ℕ} (fits : strand.Fits before linked)
    (status : after.status = before.status)
    (callee : after.hasCilkCallee = before.hasCilkCallee) :
    strand.Fits after linked := by
  cases strand <;> simp only [Strand.Fits, status, callee] at fits ⊢ <;>
    exact fits

/-- The two states agree on what the join is about, except for the number of
linked children and the map of the parent. -/
structure SameJoin (s next : Family M E) : Prop where
  counter : next.parent.joinCounter = s.parent.joinCounter
  status : next.parent.status = s.parent.status
  callee : next.parent.hasCilkCallee = s.parent.hasCilkCallee
  simulated : next.parent.simulatedStolen = s.parent.simulatedStolen
  suspensions : next.suspensions = s.suspensions
  completions : next.completions = s.completions

theorem Joined.congr (joined : Joined forceReduce s) (same : SameJoin s next)
    (linked : next.children.length = s.children.length)
    (fits : next.strand.Fits s.parent s.children.length)
    (parked : next.strand.isParked = s.strand.isParked) :
    Joined forceReduce next := by
  constructor
  case counter => rw [same.counter, linked, joined.counter]
  case fits =>
    rw [linked]
    exact fits.congr same.status same.callee
  case simulated =>
    rw [same.simulated]
    exact joined.simulated
  case alone =>
    rw [parked, same.simulated, linked]
    exact joined.alone
  case suspensions =>
    rw [same.suspensions, same.completions, Family.awaitsChildren, parked,
      same.simulated]
    exact joined.suspensions

theorem provablyGoodStealMaybe_eq_some {parent ready : Parent M E} :
    parent.provablyGoodStealMaybe = some ready ↔
      parent.hasCilkCallee = false ∧ parent.joinCounter = 0 ∧
        parent.status = .suspended ∧
        ready = parent.setupForSync.makeReady := by
  simp only [Parent.provablyGoodStealMaybe, Option.ite_none_right_eq_some,
    Bool.and_eq_true, Bool.not_eq_true', hasChildren_eq_false,
    decide_eq_true_eq, Option.some.injEq, and_assoc]
  constructor
  · rintro ⟨callee, counter, status, rfl⟩
    exact ⟨callee, counter, status, rfl⟩
  · rintro ⟨callee, counter, status, rfl⟩
    exact ⟨callee, counter, status, rfl⟩

theorem provablyGoodStealMaybe_eq_none {parent : Parent M E} :
    parent.provablyGoodStealMaybe = none ↔
      (parent.hasCilkCallee = false → parent.joinCounter = 0 →
        parent.status ≠ .suspended) := by
  simp [Parent.provablyGoodStealMaybe, hasChildren_eq_false]

/-- What can happen when a child has been unlinked. -/
theorem finishReturn_cases [Monoid M] (s : Family M E) :
    (s.parent.simulatedStolen = false ∧
      (s.parent.hasCilkCallee = false → s.parent.joinCounter - 1 = 0 →
        s.parent.status ≠ .suspended) ∧
      s.finishReturn = { s with parent := s.parent.childGone }) ∨
    (s.parent.simulatedStolen = true ∧
      s.finishReturn = s.resume s.parent.childGone.unconditionalSteal) ∨
    (s.parent.simulatedStolen = false ∧ s.parent.hasCilkCallee = false ∧
      s.parent.joinCounter - 1 = 0 ∧ s.parent.status = .suspended ∧
      s.finishReturn =
        s.resume s.parent.childGone.setupForSync.makeReady) := by
  unfold Family.finishReturn
  cases simulated : s.parent.simulatedStolen with
  | true => exact .inr (.inl ⟨rfl, rfl⟩)
  | false =>
      rw [if_neg Bool.false_ne_true]
      cases found : s.parent.childGone.provablyGoodStealMaybe with
      | none =>
          exact .inl ⟨rfl, provablyGoodStealMaybe_eq_none.mp found, rfl⟩
      | some ready =>
          obtain ⟨callee, counter, status, rfl⟩ :=
            provablyGoodStealMaybe_eq_some.mp found
          exact .inr (.inr ⟨rfl, callee, counter, status, rfl⟩)

/-- The parent of a returning child is not in the middle of a sync. -/
theorem Strand.Fits.of_linked {strand : Strand M} {parent : Parent M E}
    {linked : ℕ} (fits : strand.Fits parent (linked + 1))
    (others : strand.isParked = true → 0 < linked) :
    strand.Fits parent linked := by
  cases strand
  case syncing map => exact absurd fits.2.2 (Nat.succ_ne_zero linked)
  case created => exact absurd fits.2.2 (Nat.succ_ne_zero linked)
  case parked => exact ⟨fits.1, fits.2.1, others rfl⟩
  all_goals exact fits

theorem Strand.Fits.of_parked {strand : Strand M} {parent : Parent M E}
    {linked : ℕ} (fits : strand.Fits parent linked)
    (parked : strand.isParked = true) :
    parent.status = .suspended ∧ parent.hasCilkCallee = false := by
  cases strand
  case parked => exact ⟨fits.1, fits.2.1⟩
  all_goals cases parked

/-- A parent without callee that is suspended waits for its children. -/
theorem Strand.Fits.parked {strand : Strand M} {parent : Parent M E}
    {linked : ℕ} (fits : strand.Fits parent (linked + 1))
    (suspended : parent.status = .suspended)
    (noCallee : parent.hasCilkCallee = false) : strand.isParked = true := by
  cases strand <;> simp_all [Strand.Fits, Strand.isParked]

theorem joined_resume [Monoid M] {parent : Parent M E}
    (ready : parent.status = .ready) (noCallee : parent.hasCilkCallee = false)
    (noChildren : s.children = []) (counter : parent.joinCounter = 0)
    (simulated : parent.simulatedStolen = true → forceReduce = true)
    (suspensions : s.suspensions =
      s.completions + if parent.simulatedStolen then 0 else 1) :
    Joined forceReduce (s.resume parent) := by
  constructor
  case counter => simp [Family.resume, Parent.reduceException_eq, counter, noChildren]
  case fits =>
    simp [Family.resume, Parent.reduceException_eq, Strand.Fits, ready, noCallee]
  case simulated => simpa [Family.resume, Parent.reduceException_eq] using simulated
  case alone => simp [Family.resume, Strand.isParked, noChildren]
  case suspensions =>
    simp only [Family.resume, Family.awaitsChildren, Strand.isParked,
      suspensions]
    cases parent.simulatedStolen <;> simp

/-- A child has just been unlinked.  Either the parent goes on as before, or it
was parked and this was the last child. -/
theorem Joined.finishReturn_cases [Monoid M] (joined : Joined forceReduce s)
    (same : SameJoin s next)
    (linked : s.children.length = next.children.length + 1) :
    (s.parent.simulatedStolen = false ∧
      (s.strand.isParked = true → 0 < next.children.length) ∧
      next.finishReturn = { next with parent := next.parent.childGone }) ∨
    (s.strand.isParked = true ∧ s.parent.hasCilkCallee = false ∧
      s.parent.joinCounter = 1 ∧ next.children = [] ∧
      ∃ unsynched, next.finishReturn = next.resume
        { next.parent with joinCounter := 0, status := .ready, unsynched }) := by
  have counter := joined.counter
  have fits := joined.fits
  rw [linked] at counter fits
  rcases Join.finishReturn_cases next with
    ⟨real, others, result⟩ | ⟨simulated, result⟩ |
      ⟨-, callee, last, suspended, result⟩
  · rw [same.simulated] at real
    rw [same.callee, same.counter, same.status] at others
    refine .inl ⟨real, ?_, result⟩
    intro parked
    apply Nat.pos_of_ne_zero
    intro none
    have waiting := fits.of_parked parked
    exact others waiting.2 (by rw [counter, none]) waiting.1
  · rw [same.simulated] at simulated
    have only := joined.alone (joined.simulated simulated)
    rw [linked] at only
    split at only
    next parked =>
      have noChildren : next.children = [] :=
        List.length_eq_zero_iff.mp (by omega)
      have last : s.parent.joinCounter = 1 := by rw [counter, noChildren]; rfl
      refine .inr ⟨parked, (fits.of_parked parked).2, last, noChildren,
        next.parent.unsynched, ?_⟩
      rw [result, Parent.unconditionalSteal, Parent.childGone,
        Parent.makeReady, same.counter, last]
    next => cases only
  · rw [same.counter, counter] at last
    have noChildren : next.children = [] := List.length_eq_zero_iff.mp last
    have counted : s.parent.joinCounter = 1 := by rw [counter, noChildren]; rfl
    rw [same.callee] at callee
    refine .inr ⟨fits.parked (same.status ▸ suspended) callee, callee, counted,
      noChildren, false, ?_⟩
    rw [result, Parent.setupForSync, Parent.childGone, Parent.makeReady,
      same.counter, counted]

theorem Joined.finishReturn [Monoid M] (joined : Joined forceReduce s)
    (same : SameJoin s next) (sameStrand : next.strand = s.strand)
    (linked : s.children.length = next.children.length + 1) :
    Joined forceReduce next.finishReturn := by
  have suspensions := joined.suspensions
  rcases joined.finishReturn_cases same linked with
    ⟨real, others, result⟩ | ⟨parked, callee, last, noChildren, unsynched, result⟩
  · have counter := joined.counter
    have fits := joined.fits
    have alone := joined.alone
    rw [linked] at counter fits alone
    have notForced : forceReduce = false := by
      cases forced : forceReduce with
      | false => rfl
      | true =>
          have only := alone forced
          rw [real] at only
          split at only
          · cases only.1
          · cases only
    rw [result]
    constructor
    case counter =>
      show next.parent.joinCounter - 1 = next.children.length
      rw [same.counter, counter]
      rfl
    case fits =>
      show next.strand.Fits next.parent.childGone next.children.length
      rw [sameStrand]
      apply Strand.Fits.congr _ same.status same.callee
      exact fits.of_linked others
    case simulated =>
      show next.parent.simulatedStolen = true → _
      rw [same.simulated, real]
      exact nofun
    case alone =>
      rw [notForced]
      exact nofun
    case suspensions =>
      show next.suspensions = next.completions +
        if next.strand.isParked && !next.parent.simulatedStolen then 1 else 0
      rw [same.suspensions, same.completions, sameStrand, same.simulated]
      exact suspensions
  · rw [result]
    refine joined_resume rfl (same.callee.trans callee) noChildren rfl ?_ ?_
    · show next.parent.simulatedStolen = true → _
      rw [same.simulated]
      exact joined.simulated
    · show next.suspensions = next.completions +
        if next.parent.simulatedStolen then 0 else 1
      rw [same.suspensions, same.completions, same.simulated, suspensions,
        Family.awaitsChildren, parked]
      cases s.parent.simulatedStolen <;> rfl

section Iterations

variable {younger older : List (Child M E)} {child : Child M E}
  {map : Option M}

theorem sameJoin_storeLeftRmap (children : List (Child M E)) :
    SameJoin s { s with
      parent := (storeLeftRmap map s.parent older).1
      children } := by
  constructor <;> simp [storeLeftRmap_fst]

theorem sameJoin_storeLeftExn {exn : Option E} (children : List (Child M E)) :
    SameJoin s { s with
      parent := (storeLeftExn exn s.parent older).1
      children } := by
  constructor <;> simp [storeLeftExn_fst]

theorem Joined.depositExn (joined : Joined forceReduce s)
    (position : s.children = younger ++ child :: older) :
    Joined forceReduce (s.depositExn younger older child map) := by
  refine joined.congr (sameJoin_storeLeftExn _) ?_ joined.fits rfl
  simp [Family.depositExn, storeLeftExn_snd, position]

variable [Monoid M]

theorem Joined.reducerIteration (joined : Joined forceReduce s)
    (position : s.children = younger ++ child :: older) :
    Joined forceReduce (s.reducerIteration younger older child map) := by
  unfold Family.reducerIteration
  split
  · refine joined.finishReturn (sameJoin_storeLeftRmap _) rfl ?_
    simp [Family.depositRmap, storeLeftRmap_snd, position, Nat.add_assoc]
  · refine joined.congr (sameJoin_storeLeftRmap _) ?_ joined.fits rfl
    simp [Family.takeRmaps, storeLeftRmap_snd, position]

theorem Joined.exceptionIteration (joined : Joined forceReduce s)
    (position : s.children = younger ++ child :: older) :
    Joined forceReduce (s.exceptionIteration younger older child map) := by
  unfold Family.exceptionIteration
  split
  · exact (joined.depositExn position).reducerIteration rfl
  · refine joined.congr (sameJoin_storeLeftExn _) ?_ joined.fits rfl
    simp [Family.takeExns, storeLeftExn_snd, position]

end Iterations

/-- The parent goes on, and its children are not involved. -/
private theorem Joined.move (joined : Joined forceReduce s)
    (sameCounter : next.parent.joinCounter = s.parent.joinCounter)
    (sameChildren : next.children = s.children)
    (fits : next.strand.Fits next.parent s.children.length)
    (simulated : next.parent.simulatedStolen = true →
      s.parent.simulatedStolen = true)
    (wasNotParked : s.strand.isParked = false)
    (notParked : next.strand.isParked = false)
    (sameSuspensions : next.suspensions = s.suspensions)
    (sameCompletions : next.completions = s.completions) :
    Joined forceReduce next := by
  have alone := joined.alone
  have suspensions := joined.suspensions
  rw [wasNotParked] at alone
  rw [Family.awaitsChildren, wasNotParked] at suspensions
  constructor
  case counter => rw [sameCounter, sameChildren, joined.counter]
  case fits =>
    rw [sameChildren]
    exact fits
  case simulated => exact fun stolen => joined.simulated (simulated stolen)
  case alone =>
    rw [notParked, sameChildren]
    exact alone
  case suspensions =>
    rw [sameSuspensions, sameCompletions, Family.awaitsChildren, notParked]
    exact suspensions

private theorem Joined.promoteChild {map : Option M} {status : ClosureStatus}
    {simulatedStolen : Bool} {strand : Strand M}
    (joined : Joined forceReduce s) (here : s.strand = .running map)
    (fits : strand.Fits { s.parent with status } (s.children.length + 1))
    (forced : forceReduce = simulatedStolen)
    (parked : strand.isParked = simulatedStolen) :
    Joined forceReduce
      (s.promoteChild map status simulatedStolen strand) := by
  have alone := joined.alone
  have suspensions := joined.suspensions
  rw [here] at alone
  rw [Family.awaitsChildren, here] at suspensions
  constructor
  case counter =>
    show s.parent.joinCounter + 1 = s.children.length + 1
    rw [joined.counter]
  case fits => exact fits.congr rfl rfl
  case simulated =>
    intro stolen
    rw [forced]
    cases simulatedStolen with
    | true => rfl
    | false => exact forced ▸ joined.simulated stolen
  case alone =>
    intro isForced
    have none : s.children.length = 0 := alone isForced
    rw [forced] at isForced
    simp [Family.promoteChild, parked, isForced, none]
  case suspensions =>
    have even : s.suspensions = s.completions := by
      simpa [Strand.isParked] using suspensions
    cases simulatedStolen <;>
      simp [Family.awaitsChildren, Family.promoteChild, parked, even]

theorem Joined.noChildren_of_syncing {map : Option M}
    (joined : Joined forceReduce s) (here : s.strand = .syncing map) :
    s.children = [] := by
  have fits := joined.fits
  rw [here] at fits
  exact List.length_eq_zero_iff.mp fits.2.2

/-- With one worker, the parent has no children while it runs. -/
theorem Joined.notForced {map : Option M} (joined : Joined forceReduce s)
    (here : s.strand = .running map) (children : s.parent.hasChildren = true) :
    forceReduce = false := by
  have fits := joined.fits
  have alone := joined.alone
  rw [here] at fits alone
  have linked : s.parent.joinCounter ≠ 0 := by
    simpa [Parent.hasChildren, fits.2] using children
  cases forced : forceReduce with
  | false => rfl
  | true => exact absurd (joined.counter.trans (alone forced)) linked

private theorem Joined.cilkSync {map : Option M}
    (joined : Joined forceReduce s) (here : s.strand = .running map) :
    Joined forceReduce (s.cilkSync map) := by
  have counter := joined.counter
  have fits := joined.fits
  have suspensions := joined.suspensions
  rw [here] at fits
  rw [Family.awaitsChildren, here] at suspensions
  unfold Family.cilkSync
  split
  next children =>
    have linked : s.parent.joinCounter ≠ 0 := by
      simpa [Parent.hasChildren, fits.2] using children
    have notForced := joined.notForced here children
    have real : s.parent.simulatedStolen = false := by
      cases stolen : s.parent.simulatedStolen with
      | false => rfl
      | true => rw [← joined.simulated stolen, notForced]
    constructor
    case counter => exact counter
    case fits => exact ⟨rfl, fits.2, Nat.pos_of_ne_zero (counter ▸ linked)⟩
    case simulated => exact joined.simulated
    case alone =>
      rw [notForced]
      exact nofun
    case suspensions =>
      simp only [Family.awaitsChildren, Strand.isParked, real]
      rw [suspensions]
      rfl
  next noChildren =>
    have none := hasChildren_eq_false.mp (by simpa using noChildren)
    exact joined.move rfl rfl ⟨fits.1, fits.2, counter ▸ none.2⟩ id
      (by rw [here]; rfl) rfl rfl rfl

theorem Joined.step [Monoid M] {action : Action M E}
    (joined : Joined forceReduce s) (taken : Step forceReduce s action next) :
    Joined forceReduce next := by
  have counter := joined.counter
  have fits := joined.fits
  have alone := joined.alone
  have suspensions := joined.suspensions
  cases taken
  case contributeTrace map view here =>
    rw [here] at fits
    exact joined.congr ⟨rfl, rfl, rfl, rfl, rfl, rfl⟩ rfl fits (by rw [here]; rfl)
  case contributeCallee map view here =>
    rw [here] at fits
    exact joined.congr ⟨rfl, rfl, rfl, rfl, rfl, rfl⟩ rfl fits (by rw [here]; rfl)
  case checkException map here synched =>
    exact joined.congr ⟨rfl, rfl, rfl, rfl, rfl, rfl⟩ rfl fits rfl
  case contributeChild younger older child map view position here =>
    refine joined.congr ⟨rfl, rfl, rfl, rfl, rfl, rfl⟩ ?_ fits rfl
    simp [position]
  case finishChild younger older child map exn position here =>
    refine joined.congr ⟨rfl, rfl, rfl, rfl, rfl, rfl⟩ ?_ fits rfl
    simp [position]
  case exceptionReduce younger older child map left right position here =>
    refine joined.congr ⟨rfl, rfl, rfl, rfl, rfl, rfl⟩ ?_ fits rfl
    simp [position]
  case reducerReduce younger older child left active right position here =>
    refine joined.congr ⟨rfl, rfl, rfl, rfl, rfl, rfl⟩ ?_ fits rfl
    simp [position]
  case exceptionIteration younger older child map position here =>
    exact joined.exceptionIteration position
  case reducerIteration younger older child map position here =>
    exact joined.reducerIteration position
  case steal map notForced here =>
    rw [here] at fits
    exact joined.promoteChild here ⟨rfl, fits.2⟩ notForced rfl
  case promoteOwnDeque map forced here =>
    rw [here] at fits
    exact joined.promoteChild here ⟨rfl, fits.2, Nat.succ_pos _⟩ forced rfl
  case execute map here ready =>
    rw [here] at fits
    exact joined.move rfl rfl ⟨rfl, fits.2⟩ id (by rw [here]; rfl) rfl rfl rfl
  case promoteCallee map here =>
    exact joined.move rfl rfl ⟨rfl, rfl⟩ id (by rw [here]; rfl) rfl rfl rfl
  case addCallee here =>
    rw [here] at fits
    exact joined.move rfl rfl ⟨fits.1, rfl⟩ id (by rw [here]; rfl) rfl rfl rfl
  case setReturn map here =>
    exact joined.move rfl rfl ⟨rfl, rfl⟩ id (by rw [here]; rfl) rfl rfl rfl
  case sync map exn here unsynched =>
    refine Joined.cilkSync ?_ here
    exact joined.congr ⟨rfl, rfl, rfl, rfl, rfl, rfl⟩ rfl fits rfl
  case finishSync map here =>
    rw [here] at fits
    refine joined.move ?_ rfl ?_ nofun (by rw [here]; rfl) rfl rfl rfl
    · simp [Family.finishSync, Parent.reduceException_eq]
    · exact ⟨by simp [Family.finishSync, Parent.reduceException_eq, fits.1],
        by simp [Family.finishSync, Parent.reduceException_eq, fits.2.1]⟩

end Steps

end Multicilk.Join
