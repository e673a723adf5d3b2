import Multicilk.Join.Resumption
import Multicilk.Support.SiblingReduction

/-!
# The maps of a family are in serial order

Position `2 * k + 1` belongs to the child that was spawned as number `k`, and
position `2 * k` to what the parent does between that spawn and the one before.
The product of all maps from left to right is the product of all contributions
by position, and after a sync one map has it all.
-/

namespace Multicilk.Join

open SiblingReduction TransitionSystem

variable {M E : Type*}

/-- The maps that a worker has for a child. -/
def Child.maps (child : Child M E) : List (Option M) :=
  match child.pc with
  | .running map | .exceptionLoop map | .exceptionUnlocked map _ _
  | .reducerLoop map => [map]
  | .reducerUnlocked left active right => [left, active, right]

/-- The map of the worker that goes on with the parent. -/
def Strand.map : Strand M → Option M
  | .running map | .ready map | .syncing map | .callee map => map
  | .created | .parked => none

def Family.traceMap (family : Family M E) : Option M :=
  if family.strand.isParked then family.parent.userRmap
  else family.strand.map

/-- All maps of the family, from left to right. -/
def Family.maps (family : Family M E) : List (Option M) :=
  family.parent.childRmap ::
    family.children.reverse.flatMap
      (fun child => child.maps ++ [child.rightRmap]) ++
    [family.traceMap]

section Contributions

variable [Monoid M]

/-- The product of what was contributed at a position. -/
def contributionAt (contributions : List (ℕ × M)) (position : ℕ) : M :=
  ((contributions.filter (·.1 = position)).map Prod.snd).prod

/-- The product of all contributions in serial order. -/
def Family.serialProduct (family : Family M E) : M :=
  ((List.range (tracePosition family.spawned + 1)).map
    (contributionAt family.contributions)).prod

theorem contributionAt_append (contributions : List (ℕ × M)) (position : ℕ)
    (view : M) :
    contributionAt (contributions ++ [(position, view)]) =
      contribute (contributionAt contributions) position view := by
  funext other
  by_cases same : other = position
  · subst other
    simp [contributionAt, contribute]
  · rw [contribute_of_ne same]
    simp [contributionAt, Ne.symm same]

theorem contributionAt_eq_one {contributions : List (ℕ × M)} {position : ℕ}
    (absent : ∀ entry ∈ contributions, entry.1 ≠ position) :
    contributionAt contributions position = 1 := by
  have none : contributions.filter (·.1 = position) = [] := by
    apply List.filter_eq_nil_iff.mpr
    intro entry member
    simpa using absent entry member
  simp [contributionAt, none]

end Contributions

section Links

variable [Monoid M]

/-- A child as a member of an ordered reduction. -/
def Child.link (child : Child M E) : Link M where
  bound := childPosition child.spawnIndex + 1
  live := child.pc.isRunning
  held := (child.maps.map value).prod
  right := value child.rightRmap

variable {map : Option M} {parent : Parent M E} {older : List (Child M E)}

theorem leftSlot_link : leftSlot (value parent.childRmap) (older.map Child.link) =
    value (leftRmap parent older) := by
  cases older <;> rfl

theorem storeBase_link : value (storeLeftRmap map parent older).1.childRmap =
    storeBase (value parent.childRmap) (value map) (older.map Child.link) := by
  cases older <;> rfl

theorem storeLeftExn_link {exn : Option E} :
    (storeLeftExn exn parent older).2.map Child.link =
      older.map Child.link := by
  cases older <;> rfl

theorem storeLinks_link : (storeLeftRmap map parent older).2.map Child.link =
    storeLinks (value map) (older.map Child.link) := by
  cases older <;> rfl

end Links

/-- The maps are in serial order, and `user_rmap` is used only by a failed
sync. -/
structure Ordered [Monoid M] (forceReduce : Bool) (s : Family M E) : Prop where
  covers : Covers (contributionAt s.contributions) (value s.parent.childRmap)
    (s.children.map Child.link) (value s.traceMap) s.spawned
  bounded : ∀ entry ∈ s.contributions, entry.1 ≤ tracePosition s.spawned
  userRmap : s.strand.isParked = false ∨ forceReduce = true →
    s.parent.userRmap = none

theorem ordered_initial [Monoid M] (forceReduce waits : Bool) :
    Ordered forceReduce (initial waits : Family M E) := by
  constructor
  case covers =>
    refine ⟨0, Nat.zero_le _, span_self.symm, ?_⟩
    cases waits <;>
      simp [initial, Family.traceMap, Strand.isParked, Strand.map, span,
        contributionAt]
  case bounded => exact fun _ member => absurd member List.not_mem_nil
  case userRmap => exact fun _ => rfl

/-- The product of all maps. -/
theorem Ordered.prod [Monoid M] {forceReduce : Bool} {s : Family M E}
    (ordered : Ordered forceReduce s) :
    (s.maps.map value).prod = s.serialProduct := by
  have total := ordered.covers.prod
  rw [span_zero] at total
  rw [Family.serialProduct, tracePosition, ← total]
  simp only [Family.maps, List.map_append, List.map_cons, List.map_nil,
    List.prod_append, List.prod_cons, List.prod_nil, mul_one, List.map_flatMap,
    mul_assoc, ← List.map_reverse, List.map_map]
  congr 2
  induction s.children.reverse with
  | nil => rfl
  | cons child younger induction =>
      simp [induction, Child.link, mul_assoc]

section Steps

variable [Monoid M] {forceReduce : Bool} {s middle next : Family M E}
  {younger older : List (Child M E)} {child : Child M E} {map : Option M}

/-- A step that changes no map and no contribution. -/
theorem Ordered.congr (ordered : Ordered forceReduce s)
    (sameContributions : next.contributions = s.contributions)
    (sameSpawned : next.spawned = s.spawned)
    (sameBase : next.parent.childRmap = s.parent.childRmap)
    (sameLinks : next.children.map Child.link = s.children.map Child.link)
    (sameTrace : next.traceMap = s.traceMap)
    (sameUser : next.parent.userRmap = s.parent.userRmap)
    (sameParked : next.strand.isParked = s.strand.isParked) :
    Ordered forceReduce next := by
  constructor
  case covers =>
    rw [sameContributions, sameSpawned, sameBase, sameLinks, sameTrace]
    exact ordered.covers
  case bounded =>
    rw [sameContributions, sameSpawned]
    exact ordered.bounded
  case userRmap =>
    rw [sameUser, sameParked]
    exact ordered.userRmap

/-- A step at one child that keeps the maps in order. -/
theorem Ordered.replace {newOlder : List (Child M E)} {parent : Parent M E}
    (ordered : Ordered forceReduce s)
    (position : s.children = younger ++ child :: older)
    (sameUser : parent.userRmap = s.parent.userRmap)
    (replaced : ∀ high,
      Based (contributionAt s.contributions) (value s.parent.childRmap)
        (child.link :: older.map Child.link) high →
      Based (contributionAt s.contributions) (value parent.childRmap)
        (newOlder.map Child.link) high) (thrown : List (ℕ × E))
    (deleted : List E) :
    Ordered forceReduce { s with
      parent
      children := younger ++ newOlder
      thrown
      deleted } := by
  constructor
  case covers =>
    have covers := ordered.covers
    rw [position, List.map_append, List.map_cons] at covers
    have sameTrace : Family.traceMap { s with
        parent
        children := younger ++ newOlder
        thrown
        deleted } = s.traceMap := by
      simp only [Family.traceMap, sameUser]
    rw [sameTrace, List.map_append]
    exact covers.replace replaced
  case bounded => exact ordered.bounded
  case userRmap =>
    show _ → parent.userRmap = none
    rw [sameUser]
    exact ordered.userRmap

theorem Ordered.takeRmaps (ordered : Ordered forceReduce s)
    (position : s.children = younger ++ child :: older)
    (maps : child.maps = [map]) :
    Ordered forceReduce (s.takeRmaps younger older child map) := by
  refine ordered.replace position ?_ ?_ s.thrown s.deleted
  · simp [storeLeftRmap_fst]
  · intro high based
    have held : child.link.held = value map := by simp [Child.link, maps]
    have absorbed := based.absorb
    rw [leftSlot_link, held] at absorbed
    rw [storeBase_link, List.map_cons, storeLinks_link]
    simpa [Child.link, Child.maps, ChildPc.isRunning, mul_assoc]
      using absorbed

theorem Ordered.depositRmap (ordered : Ordered forceReduce s)
    (position : s.children = younger ++ child :: older)
    (maps : child.maps = [map]) (leftEmpty : leftRmap s.parent older = none)
    (rightEmpty : child.rightRmap = none) :
    Ordered forceReduce (s.depositRmap younger older map) := by
  refine ordered.replace position ?_ ?_ s.thrown s.deleted
  · simp [storeLeftRmap_fst]
  · intro high based
    have deposited := based.deposit (by rw [leftSlot_link, leftEmpty]; rfl)
      (by simp [Child.link, rightEmpty])
    rw [storeBase_link, storeLinks_link]
    simpa [Child.link, maps] using deposited.unlink rfl rfl

theorem Ordered.resume {unsynched : Bool} (ordered : Ordered forceReduce s)
    (simulated : s.parent.simulatedStolen = true → forceReduce = true)
    (parked : s.strand.isParked = true) (noChildren : s.children = []) :
    Ordered forceReduce (s.resume
      { s.parent with joinCounter := 0, status := .ready, unsynched }) := by
  have covers := ordered.covers
  rw [noChildren] at covers
  have trace : s.traceMap = s.parent.userRmap := by
    simp [Family.traceMap, parked]
  rw [trace] at covers
  constructor
  case covers =>
    cases stolen : s.parent.simulatedStolen with
    | true =>
        have noUser := ordered.userRmap (.inr (simulated stolen))
        simpa [Family.resume, Parent.reduceException_eq, stolen, noChildren,
          Family.traceMap, Strand.isParked, Strand.map, noUser] using covers
    | false =>
        simpa [Family.resume, Parent.reduceException_eq, stolen, noChildren,
          Family.traceMap, Strand.isParked, Strand.map] using covers.join
  case bounded => exact ordered.bounded
  case userRmap => exact fun _ => rfl

theorem Ordered.finishReturn (ordered : Ordered forceReduce middle)
    (joined : Joined forceReduce s) (same : SameJoin s middle)
    (sameStrand : middle.strand = s.strand)
    (linked : s.children.length = middle.children.length + 1) :
    Ordered forceReduce middle.finishReturn := by
  rcases joined.finishReturn_cases same linked with
    ⟨-, -, result⟩ | ⟨parked, -, -, noChildren, unsynched, result⟩
  · rw [result]
    exact ordered.congr rfl rfl rfl rfl rfl rfl rfl
  · rw [result]
    apply ordered.resume _ (sameStrand ▸ parked) noChildren
    rw [same.simulated]
    exact joined.simulated

theorem Ordered.reducerIteration (ordered : Ordered forceReduce s)
    (joined : Joined forceReduce s)
    (position : s.children = younger ++ child :: older)
    (maps : child.maps = [map]) :
    Ordered forceReduce (s.reducerIteration younger older child map) := by
  unfold Family.reducerIteration
  split
  next empty =>
    rw [Bool.and_eq_true, Option.isNone_iff_eq_none,
      Option.isNone_iff_eq_none] at empty
    refine (ordered.depositRmap position maps empty.1 empty.2).finishReturn
      joined (sameJoin_storeLeftRmap _) rfl ?_
    simp [Family.depositRmap, storeLeftRmap_snd, position, Nat.add_assoc]
  next => exact ordered.takeRmaps position maps

theorem Ordered.depositExn (ordered : Ordered forceReduce s)
    (position : s.children = younger ++ child :: older)
    (here : child.pc = .exceptionLoop map) :
    Ordered forceReduce (s.depositExn younger older child map) := by
  refine ordered.congr rfl rfl ?_ ?_ ?_ ?_ rfl
  · simp [Family.depositExn, storeLeftExn_fst]
  · simp [Family.depositExn, storeLeftExn_link, position, Child.link,
      Child.maps, ChildPc.isRunning, here]
  · simp [Family.depositExn, Family.traceMap, storeLeftExn_fst]
  · simp [Family.depositExn, storeLeftExn_fst]

theorem Ordered.exceptionIteration (ordered : Ordered forceReduce s)
    (joined : Joined forceReduce s)
    (position : s.children = younger ++ child :: older)
    (here : child.pc = .exceptionLoop map) :
    Ordered forceReduce (s.exceptionIteration younger older child map) := by
  unfold Family.exceptionIteration
  split
  · exact (ordered.depositExn position here).reducerIteration
      (joined.depositExn position) rfl rfl
  · refine ordered.congr rfl rfl ?_ ?_ ?_ ?_ rfl
    · simp [Family.takeExns, storeLeftExn_fst]
    · simp [Family.takeExns, storeLeftExn_link, position, Child.link,
        Child.maps, ChildPc.isRunning, here]
    · simp [Family.takeExns, Family.traceMap, storeLeftExn_fst]
    · simp [Family.takeExns, storeLeftExn_fst]

/-- Nothing was contributed beyond the last spawn. -/
theorem Ordered.fresh (ordered : Ordered forceReduce s) (position : ℕ)
    (beyond : tracePosition s.spawned < position) :
    contributionAt s.contributions position = 1 := by
  apply contributionAt_eq_one
  intro entry member same
  have bounded := ordered.bounded entry member
  omega

private theorem Ordered.contributeTrace {view : M} {strand : Strand M}
    (ordered : Ordered forceReduce s)
    (notParked : s.strand.isParked = false)
    (stillNotParked : strand.isParked = false)
    (updated : strand.map = updateViews s.strand.map view) :
    Ordered forceReduce { s with
      strand
      contributions :=
        s.contributions ++ [(tracePosition s.spawned, view)] } := by
  constructor
  case covers =>
    have covers := @Covers.contributeTrace _ _ _ _ _ view _ _ ordered.covers
    rw [contributionAt_append, tracePosition]
    simpa [Family.traceMap, notParked, stillNotParked, updated] using covers
  case bounded =>
    intro entry member
    rcases List.mem_append.mp member with earlier | last
    · exact ordered.bounded entry earlier
    · cases List.mem_singleton.mp last
      exact Nat.le_refl _
  case userRmap => exact fun _ => ordered.userRmap (.inl notParked)

private theorem Ordered.contributeChild {view : M}
    (ordered : Ordered forceReduce s)
    (position : s.children = younger ++ child :: older)
    (here : child.pc = .running map) :
    Ordered forceReduce { s with
      children := younger ++
        { child with pc := .running (updateViews map view) } :: older
      contributions :=
        s.contributions ++ [(childPosition child.spawnIndex, view)] } := by
  have live : child.link.live = true := by simp [Child.link, here, ChildPc.isRunning]
  have covers := ordered.covers
  rw [position, List.map_append, List.map_cons] at covers
  constructor
  case covers =>
    have contributed := @Covers.contributeLink _ _ _ _ _ view _ _ _ _ covers live
    rw [contributionAt_append]
    simpa [Child.link, Child.maps, here, ChildPc.isRunning, Family.traceMap]
      using contributed
  case bounded =>
    intro entry member
    rcases List.mem_append.mp member with earlier | last
    · exact ordered.bounded entry earlier
    · rw [List.mem_singleton.mp last]
      exact Nat.le_of_succ_le (covers.bound_le live)
  case userRmap => exact ordered.userRmap

private theorem Ordered.promoteChild {status : ClosureStatus}
    {simulatedStolen : Bool} {strand : Strand M}
    (ordered : Ordered forceReduce s) (here : s.strand = .running map)
    (noMap : strand.map = none) :
    Ordered forceReduce
      (s.promoteChild map status simulatedStolen strand) := by
  have noUser : s.parent.userRmap = none :=
    ordered.userRmap (.inl (by rw [here]; rfl))
  have trace : s.traceMap = map := by
    simp [Family.traceMap, here, Strand.isParked, Strand.map]
  constructor
  case covers =>
    have spawned := ordered.covers.spawn ordered.fresh
    rw [trace] at spawned
    simpa [Family.promoteChild, Family.traceMap, noUser, noMap, Child.link,
      Child.maps, ChildPc.isRunning, childPosition] using spawned
  case bounded =>
    intro entry member
    have bounded := ordered.bounded entry member
    simp only [Family.promoteChild, tracePosition] at bounded ⊢
    omega
  case userRmap => exact fun _ => noUser

private theorem Ordered.cilkSync (ordered : Ordered forceReduce s)
    (joined : Joined forceReduce s) (here : s.strand = .running map) :
    Ordered forceReduce (s.cilkSync map) := by
  have trace : s.traceMap = map := by
    simp [Family.traceMap, here, Strand.isParked, Strand.map]
  unfold Family.cilkSync
  split
  next children =>
    have notForced := joined.notForced here children
    constructor
    case covers =>
      have covers := ordered.covers
      rw [trace] at covers
      simpa [Family.traceMap, Strand.isParked] using covers
    case bounded => exact ordered.bounded
    case userRmap => simp [Strand.isParked, notForced]
  next =>
    refine ordered.congr rfl rfl rfl rfl ?_ rfl (by rw [here]; rfl)
    rw [trace]
    rfl

/-- What the parent does alone, with the map it has. -/
private theorem Ordered.move {parent : Parent M E} {strand : Strand M}
    (ordered : Ordered forceReduce s)
    (sameBase : parent.childRmap = s.parent.childRmap)
    (sameUser : parent.userRmap = s.parent.userRmap)
    (notParked : s.strand.isParked = false)
    (stillNotParked : strand.isParked = false)
    (sameMap : strand.map = s.strand.map) :
    Ordered forceReduce { s with parent, strand } := by
  refine ordered.congr rfl rfl sameBase rfl ?_ sameUser ?_
  · simp [Family.traceMap, notParked, stillNotParked, sameMap]
  · rw [notParked]
    exact stillNotParked

theorem Ordered.step {action : Action M E} (ordered : Ordered forceReduce s)
    (joined : Joined forceReduce s)
    (taken : Step forceReduce s action next) : Ordered forceReduce next := by
  cases taken
  case contributeTrace map view here =>
    exact ordered.contributeTrace (by rw [here]; rfl) rfl (by rw [here]; rfl)
  case contributeCallee map view here =>
    exact ordered.contributeTrace (by rw [here]; rfl) rfl (by rw [here]; rfl)
  case contributeChild younger older child map view position here =>
    exact ordered.contributeChild position here
  case steal map notForced here => exact ordered.promoteChild here rfl
  case promoteOwnDeque map forced here => exact ordered.promoteChild here rfl
  case execute map here ready =>
    exact ordered.move rfl rfl (by rw [here]; rfl) rfl (by rw [here]; rfl)
  case promoteCallee map here =>
    exact ordered.move rfl rfl (by rw [here]; rfl) rfl (by rw [here]; rfl)
  case addCallee here =>
    exact ordered.move rfl rfl (by rw [here]; rfl) rfl (by rw [here]; rfl)
  case setReturn map here =>
    exact ordered.move rfl rfl (by rw [here]; rfl) rfl (by rw [here]; rfl)
  case checkException map here synched =>
    exact ordered.congr rfl rfl rfl rfl rfl rfl rfl
  case finishChild younger older child map exn position here =>
    refine ordered.replace position rfl ?_ _ s.deleted
    intro high based
    have retired := @Based.retire _ _ _ _ _ _ _ false based nofun
    simpa [Child.link, Child.maps, ChildPc.isRunning, here] using retired
  case exceptionIteration younger older child map position here =>
    exact ordered.exceptionIteration joined position here
  case exceptionReduce younger older child map left right position here =>
    refine ordered.replace position rfl ?_ s.thrown _
    intro high based
    simpa [Child.link, Child.maps, ChildPc.isRunning, here] using based
  case reducerIteration younger older child map position here =>
    apply ordered.reducerIteration joined position
    simp [Child.maps, here]
  case reducerReduce younger older child left active right position here =>
    refine ordered.replace position rfl ?_ s.thrown s.deleted
    intro high based
    simpa [Child.link, Child.maps, ChildPc.isRunning, here, mul_assoc]
      using based
  case sync map exn here unsynched =>
    refine Ordered.cilkSync ?_ ?_ here
    · exact ordered.congr rfl rfl rfl rfl rfl rfl rfl
    · exact joined.congr ⟨rfl, rfl, rfl, rfl, rfl, rfl⟩ rfl joined.fits rfl
  case finishSync map here =>
    have noChildren := joined.noChildren_of_syncing here
    have trace : s.traceMap = map := by
      simp [Family.traceMap, here, Strand.isParked, Strand.map]
    have noUser : s.parent.userRmap = none :=
      ordered.userRmap (.inl (by rw [here]; rfl))
    have covers := ordered.covers
    rw [noChildren, trace] at covers
    constructor
    case covers =>
      simpa [Family.finishSync, Parent.reduceException_eq, noChildren,
        Family.traceMap, Strand.isParked, Strand.map] using covers.join
    case bounded => exact ordered.bounded
    case userRmap =>
      intro _
      simpa [Family.finishSync, Parent.reduceException_eq] using noUser

/-- A sync that is passed leaves no map but the one of the parent. -/
theorem Ordered.installed {action : Action M E}
    (before : Ordered forceReduce s) (joined : Joined forceReduce s)
    (taken : Step forceReduce s action next) (passed : next.syncs ≠ s.syncs) :
    next.children = [] ∧ next.parent.childRmap = none ∧
      next.parent.userRmap = none ∧
      value next.strand.map = next.serialProduct := by
  have ordered := before.step joined taken
  have joinedAfter := joined.step taken
  suffices bare : next.children = [] ∧ next.parent.childRmap = none ∧
      next.strand.isParked = false by
    obtain ⟨noChildren, noChild, notParked⟩ := bare
    refine ⟨noChildren, noChild, ordered.userRmap (.inl notParked), ?_⟩
    rw [← ordered.prod]
    simp [Family.maps, noChildren, noChild, Family.traceMap, notParked]
  rcases joined.effect taken with
    ⟨-, unresumed | resumed⟩ | ⟨-, -, -, same | ⟨map, here, rfl⟩⟩
  · exact absurd unresumed.syncs passed
  · obtain ⟨map, ready⟩ := resumed.ready
    have syncs := resumed.syncs
    split at syncs
    next => exact absurd syncs passed
    next real =>
      refine ⟨?_, resumed.childRmap (by simpa using real), by rw [ready]; rfl⟩
      apply List.length_eq_zero_iff.mp
      rw [← joinedAfter.counter]
      exact (hasChildren_eq_false.mp resumed.noChildren).2
  · exact absurd same passed
  · exact ⟨joined.noChildren_of_syncing here, rfl, rfl⟩

end Steps

/-- What holds of the maps in a state and after a sync that leads out of
it. -/
structure KeepsOrder [Monoid M] (forceReduce : Bool) (s : Family M E) :
    Prop where
  /-- The product of all maps is that of all contributions. -/
  product : (s.maps.map value).prod = s.serialProduct
  /-- The worker that has passed a sync has all contributions in its map. -/
  installed : ∀ action next, Step forceReduce s action next →
    next.syncs ≠ s.syncs →
    next.children = [] ∧ next.parent.childRmap = none ∧
      next.parent.userRmap = none ∧
      value next.strand.map = next.serialProduct

theorem keeps_order [Monoid M] {forceReduce waits : Bool}
    {trace : List (Family M E × Action M E)} {s : Family M E}
    (run : Run (Step forceReduce) (initial waits) trace s) :
    KeepsOrder forceReduce s := by
  have kept := @Run.invariant _ _ _ _ _ _
    (fun s => Joined forceReduce s ∧ Ordered forceReduce s) run
    ⟨joined_initial forceReduce waits, ordered_initial forceReduce waits⟩
    fun _ _ _ before taken =>
      ⟨before.1.step taken, before.2.step before.1 taken⟩
  exact ⟨kept.2.prod, fun _ _ => kept.2.installed kept.1⟩

/-- The younger child returns first, and the older one merges its map and
completes the sync. -/
theorem keeps_order_after_two_children :
    ∃ trace s, Run (Step false) (initial false : Family (FreeMonoid ℕ) ℕ)
      trace s ∧ s.strand.map = some (FreeMonoid.ofList [1, 2, 3, 4, 5]) ∧
      KeepsOrder false s := by
  obtain ⟨trace, s, run, installed⟩ : ∃ trace s,
      Run (Step false) (initial false : Family (FreeMonoid ℕ) ℕ) trace s ∧
        s.strand.map = some (FreeMonoid.ofList [1, 2, 3, 4, 5]) :=
    ⟨_, _, ((((((((((((((((@Run.refl
      (Family (FreeMonoid ℕ) ℕ) _ (Step false) (initial false)).snoc
      (@Step.contributeTrace _ _ _ _ _ _ (FreeMonoid.of 1) rfl)).snoc
      (.steal rfl rfl)).snoc
      (@Step.contributeChild _ _ _ _ _ [] [] _ _ (FreeMonoid.of 2) rfl
        rfl)).snoc
      (.execute rfl rfl)).snoc
      (@Step.contributeTrace _ _ _ _ _ _ (FreeMonoid.of 3) rfl)).snoc
      (.steal rfl rfl)).snoc
      (@Step.contributeChild _ _ _ _ _ [] [_] _ _ (FreeMonoid.of 4) rfl
        rfl)).snoc
      (.execute rfl rfl)).snoc
      (@Step.contributeTrace _ _ _ _ _ _ (FreeMonoid.of 5) rfl)).snoc
      (@Step.sync _ _ _ _ _ _ none rfl rfl)).snoc
      (@Step.finishChild _ _ _ _ _ [] [_] _ _ none rfl rfl)).snoc
      (@Step.exceptionIteration _ _ _ _ _ [] [_] _ _ rfl rfl)).snoc
      (@Step.finishChild _ _ _ _ _ [] [] _ _ none rfl rfl)).snoc
      (@Step.exceptionIteration _ _ _ _ _ [] [] _ _ rfl rfl)).snoc
      (@Step.reducerReduce _ _ _ _ _ [] [] _ _ _ _ rfl rfl)).snoc
      (@Step.reducerIteration _ _ _ _ _ [] [] _ _ rfl rfl), rfl⟩
  exact ⟨trace, s, run, installed, keeps_order run⟩

end Multicilk.Join
