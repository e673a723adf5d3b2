import Mathlib.Algebra.FreeMonoid.Basic
import Multicilk.Join.LeftmostException

/-!
# When an exception is lost

A child that has left the exception loop can still get an exception into its
right slot, while its worker merges maps without the locks.  A frame that has
kept its own exception at a sync still has it in its slot at the next one.  The
exceptions of a family are kept if and only if no child is unlinked with an
exception in its right slot and no frame that throws nothing gets to a sync with
an exception in its own slot.
-/

namespace Multicilk.Join

open SiblingReduction TransitionSystem

variable {M E : Type*}

/-- What is known before and after the sync. -/
structure Settled (s : Family M E) : Prop where
  caught : s.syncs = 0 → Caught s
  passed : 0 < s.syncs → Passed s

theorem Settled.exceptionsKept {s : Family M E} (settled : Settled s) :
    ExceptionsKept s := by
  rcases Nat.eq_zero_or_pos s.syncs with round | past
  · exact (settled.caught round).exceptionsKept round
  · exact (settled.passed past).exceptionsKept past

theorem Caught.settled {s : Family M E} (caught : Caught s)
    (round : s.syncs = 0) : Settled s := by
  constructor
  · exact fun _ => caught
  · intro past
    rw [round] at past
    cases past

section Returns

variable {s middle next : Family M E} {younger older : List (Child M E)}
  {child : Child M E} {map : Option M}

theorem Caught.takeRmaps (caught : Caught s)
    (position : s.children = younger ++ child :: older)
    (here : child.pc = .reducerLoop map) :
    Caught (s.takeRmaps younger older child map) := by
  refine caught.replace position ?_ ?_ ?_
  · simp [storeLeftRmap_fst]
  · have same := @storeLeftRmap_exns _ _ none s.parent older
    simp only [exnsOf, List.map_cons, List.sum_cons, Child.exns, here] at same ⊢
    rw [same]
    simp [storeLeftRmap_fst, add_assoc]
  · intro high based
    rw [List.map_cons, storeLeftRmap_exnLink]
    simpa [storeLeftRmap_fst, Child.exnLink, ChildPc.isRunning, here]
      using based

/-- The child is unlinked with an empty right slot. -/
theorem Caught.depositRmap (caught : Caught s)
    (position : s.children = younger ++ child :: older)
    (here : child.pc = .reducerLoop map) (clean : child.rightExn = none) :
    Caught (s.depositRmap younger older map) := by
  refine caught.replace position ?_ ?_ ?_
  · simp [storeLeftRmap_fst]
  · rw [storeLeftRmap_exns]
    simp [storeLeftRmap_fst, Child.exns, here, clean]
  · intro high based
    rw [storeLeftRmap_exnLink]
    have unlinked := based.unlink (by simp [Child.exnLink, here])
      (by simp [Child.exnLink, clean])
    simpa [storeLeftRmap_fst] using unlinked

variable [Monoid M]

theorem Caught.finishReturn (caught : Caught middle)
    (joined : Joined false s) (same : SameJoin s middle)
    (sameStrand : middle.strand = s.strand)
    (linked : s.children.length = middle.children.length + 1)
    (round : middle.syncs = 0) : Settled middle.finishReturn := by
  rcases joined.finishReturn_cases same linked with
    ⟨-, -, result⟩ | ⟨parked, -, -, noChildren, unsynched, result⟩
  · rw [result]
    exact Caught.settled (caught.congr rfl rfl rfl rfl rfl rfl) round
  · have real : middle.parent.simulatedStolen = false := by
      cases stolen : middle.parent.simulatedStolen with
      | false => rfl
      | true => cases joined.simulated (same.simulated ▸ stolen)
    rw [result]
    constructor
    · intro zero
      simp [Family.resume, real] at zero
    · intro past
      have syncing : middle.strand.isIdle = false := by
        rw [sameStrand]
        exact Strand.isIdle_of_isParked parked
      exact caught.pass noChildren
        { middle.parent with joinCounter := 0, status := .ready, unsynched }
        rfl (ownExn_syncing syncing).symm past noChildren rfl rfl rfl rfl rfl
        rfl

theorem Caught.reducerIteration (caught : Caught s) (joined : Joined false s)
    (round : s.syncs = 0) (position : s.children = younger ++ child :: older)
    (here : child.pc = .reducerLoop map)
    (clean : leftRmap s.parent older = none → child.rightRmap = none →
      child.rightExn = none) :
    Settled (s.reducerIteration younger older child map) := by
  unfold Family.reducerIteration
  split
  next empty =>
    rw [Bool.and_eq_true, Option.isNone_iff_eq_none,
      Option.isNone_iff_eq_none] at empty
    refine Caught.finishReturn
      (caught.depositRmap position here (clean empty.1 empty.2)) joined
      (sameJoin_storeLeftRmap _) rfl ?_ round
    simp [Family.depositRmap, storeLeftRmap_snd, position, Nat.add_assoc]
  next => exact (caught.takeRmaps position here).settled round

/-- The last iteration of the exception loop has just emptied the right
slot. -/
theorem Caught.exceptionIteration (caught : Caught s)
    (joined : Joined false s) (round : s.syncs = 0)
    (position : s.children = younger ++ child :: older)
    (here : child.pc = .exceptionLoop map) :
    Settled (s.exceptionIteration younger older child map) := by
  unfold Family.exceptionIteration
  split
  next empty =>
    rw [Bool.and_eq_true, Option.isNone_iff_eq_none,
      Option.isNone_iff_eq_none] at empty
    exact (caught.depositExn position here empty.1 empty.2).reducerIteration
      (joined.depositExn position) round rfl rfl fun _ _ => empty.2
  next => exact (caught.takeExns position here).settled round

end Returns

section Indices

/-- A child is known by its index, and has no exception while it runs. -/
def Child.identity (child : Child M E) : ℕ × Bool × Option E :=
  (child.spawnIndex, child.pc.isRunning, child.userExn)

structure Indexed (s : Family M E) : Prop where
  nodup : (s.children.map Child.identity |>.map Prod.fst).Nodup
  member : ∀ identity ∈ s.children.map Child.identity,
    identity.1 < s.spawned ∧ (identity.2.1 = true → identity.2.2 = none)

theorem indexed_initial (waits : Bool) :
    Indexed (initial waits : Family M E) := by
  constructor
  · exact List.nodup_nil
  · exact nofun

variable {s next : Family M E} {younger older newOlder : List (Child M E)}
  {child newChild : Child M E} {map : Option M} {exn : Option E}

theorem identity_storeLeftRmap {parent : Parent M E} :
    (storeLeftRmap map parent older).2.map Child.identity =
      older.map Child.identity := by
  cases older <;> rfl

theorem identity_storeLeftExn {parent : Parent M E} :
    (storeLeftExn exn parent older).2.map Child.identity =
      older.map Child.identity := by
  cases older <;> rfl

theorem Indexed.congr (indexed : Indexed s)
    (sameChildren : next.children.map Child.identity =
      s.children.map Child.identity)
    (sameSpawned : next.spawned = s.spawned) : Indexed next := by
  constructor
  · rw [sameChildren]
    exact indexed.nodup
  · rw [sameChildren, sameSpawned]
    exact indexed.member

theorem Indexed.replace (indexed : Indexed s)
    (position : s.children = younger ++ child :: older)
    (newPosition : next.children = younger ++ newChild :: newOlder)
    (sameIndex : newChild.spawnIndex = child.spawnIndex)
    (notRunning : newChild.pc.isRunning = false)
    (sameOlder : newOlder.map Child.identity = older.map Child.identity)
    (sameSpawned : next.spawned = s.spawned) : Indexed next := by
  have nodup := indexed.nodup
  have member := indexed.member
  rw [position, List.map_append, List.map_cons] at nodup member
  constructor
  · rw [newPosition, List.map_append, List.map_cons, sameOlder]
    simpa [Child.identity, sameIndex] using nodup
  · rw [newPosition, List.map_append, List.map_cons, sameOlder, sameSpawned]
    intro identity found
    rcases List.mem_append.mp found with young | rest
    · exact member identity (List.mem_append_left _ young)
    · rcases List.mem_cons.mp rest with rfl | old
      · have own := member child.identity (by simp)
        exact ⟨by simpa [Child.identity, sameIndex] using own.1,
          by simp [Child.identity, notRunning]⟩
      · exact member identity (by simp [old])

theorem Indexed.remove (indexed : Indexed s)
    (position : s.children = younger ++ child :: older)
    (newPosition : next.children = younger ++ newOlder)
    (sameOlder : newOlder.map Child.identity = older.map Child.identity)
    (sameSpawned : next.spawned = s.spawned) : Indexed next := by
  have removed : (next.children.map Child.identity).Sublist
      (s.children.map Child.identity) := by
    rw [newPosition, position, List.map_append, sameOlder, List.map_append,
      List.map_cons]
    exact (List.sublist_cons_self _ _).append_left _
  constructor
  · exact indexed.nodup.sublist (removed.map _)
  · rw [sameSpawned]
    intro identity found
    exact indexed.member identity (removed.subset found)

theorem Indexed.promoteChild {status : ClosureStatus} {simulatedStolen : Bool}
    {strand : Strand M} (indexed : Indexed s) :
    Indexed (s.promoteChild map status simulatedStolen strand) := by
  constructor
  · apply List.nodup_cons.mpr
    refine ⟨?_, indexed.nodup⟩
    intro found
    obtain ⟨identity, member, same⟩ := List.mem_map.mp found
    have below := (indexed.member identity member).1
    rw [same] at below
    exact Nat.lt_irrefl _ below
  · intro identity found
    rcases List.mem_cons.mp found with rfl | older
    · exact ⟨Nat.lt_succ_self _, fun _ => rfl⟩
    · have own := indexed.member identity older
      exact ⟨Nat.lt_succ_of_lt own.1, own.2⟩

/-- Two ways to split a list at one key agree. -/
private theorem split_unique {Item Key : Type*} {key : Item → Key}
    {before after otherBefore otherAfter : List Item} {item other : Item}
    (nodup : ((before ++ item :: after).map key).Nodup)
    (same : before ++ item :: after = otherBefore ++ other :: otherAfter)
    (sameKey : key other = key item) :
    otherBefore = before ∧ other = item ∧ otherAfter = after := by
  induction before generalizing otherBefore with
  | nil =>
      cases otherBefore with
      | nil =>
          cases same
          exact ⟨rfl, rfl, rfl⟩
      | cons first rest =>
          cases same
          simp [sameKey] at nodup
  | cons first rest induction =>
      cases otherBefore with
      | nil =>
          cases same
          simp [sameKey] at nodup
      | cons otherFirst otherRest =>
          obtain ⟨rfl, sameRest⟩ := List.cons.inj same
          obtain ⟨rfl, sameItem⟩ := induction
            (List.nodup_cons.mp nodup).2 sameRest
          exact ⟨rfl, sameItem⟩

/-- The index of a child determines its place. -/
theorem Indexed.unique {otherYounger otherOlder : List (Child M E)}
    {other : Child M E} (indexed : Indexed s)
    (position : s.children = younger ++ child :: older)
    (otherPosition : s.children = otherYounger ++ other :: otherOlder)
    (sameIndex : other.spawnIndex = child.spawnIndex) :
    otherYounger = younger ∧ other = child ∧ otherOlder = older := by
  have nodup := indexed.nodup
  rw [position, List.map_map] at nodup
  exact split_unique nodup (position.symm.trans otherPosition) sameIndex

variable [Monoid M]

theorem finishReturn_children (s : Family M E) :
    s.finishReturn.children = s.children ∧
      s.finishReturn.spawned = s.spawned ∧
      s.finishReturn.thrown = s.thrown := by
  rcases finishReturn_cases s with
    ⟨-, -, result⟩ | ⟨-, result⟩ | ⟨-, -, -, -, result⟩ <;>
    rw [result] <;> exact ⟨rfl, rfl, rfl⟩

theorem Indexed.reducerIteration (indexed : Indexed s)
    (position : s.children = younger ++ child :: older) :
    Indexed (s.reducerIteration younger older child map) := by
  unfold Family.reducerIteration
  split
  · obtain ⟨sameChildren, sameSpawned, -⟩ :=
      finishReturn_children (s.depositRmap younger older map)
    exact indexed.remove position sameChildren identity_storeLeftRmap
      sameSpawned
  · exact indexed.replace position rfl rfl rfl identity_storeLeftRmap rfl

theorem Indexed.exceptionIteration (indexed : Indexed s)
    (position : s.children = younger ++ child :: older) :
    Indexed (s.exceptionIteration younger older child map) := by
  unfold Family.exceptionIteration
  split
  · refine Indexed.reducerIteration ?_ rfl
    exact indexed.replace position rfl rfl rfl identity_storeLeftExn rfl
  · exact indexed.replace position rfl rfl rfl identity_storeLeftExn rfl

theorem Indexed.step {forceReduce : Bool} {action : Action M E}
    (indexed : Indexed s) (taken : Step forceReduce s action next) :
    Indexed next := by
  cases taken
  case contributeChild younger older child map view position here =>
    refine indexed.congr ?_ rfl
    simp [position, Child.identity, ChildPc.isRunning, here]
  case finishChild younger older child map exn position here =>
    exact indexed.replace position rfl rfl rfl rfl rfl
  case exceptionIteration younger older child map position here =>
    exact indexed.exceptionIteration position
  case exceptionReduce younger older child map left right position here =>
    exact indexed.replace position rfl rfl rfl rfl rfl
  case reducerIteration younger older child map position here =>
    exact indexed.reducerIteration position
  case reducerReduce younger older child left active right position here =>
    exact indexed.replace position rfl rfl rfl rfl rfl
  case steal map notForced here => exact indexed.promoteChild
  case promoteOwnDeque map forced here => exact indexed.promoteChild
  case sync map exn here unsynched =>
    refine indexed.congr ?_ ?_ <;>
      (unfold Family.cilkSync; split <;> rfl)
  all_goals exact indexed.congr rfl rfl

end Indices

section Others

variable {s next : Family M E} {younger older : List (Child M E)}
  {child : Child M E} {map : Option M} {exn : Option E}

theorem Caught.finishChild (caught : Caught s) (indexed : Indexed s)
    (position : s.children = younger ++ child :: older)
    (here : child.pc = .running map) :
    Caught { s with
      children := younger ++
        { child with userExn := exn, pc := .exceptionLoop map } :: older
      thrown := s.thrown ++
        exn.toList.map (childPosition child.spawnIndex, ·) } := by
  have unthrown : child.userExn = none := by
    apply (indexed.member child.identity _).2
    · simp [Child.identity, here, ChildPc.isRunning]
    · rw [position]
      simp
  have live : child.exnLink.live = true := by
    simp [Child.exnLink, here, ChildPc.isRunning]
  have based := caught.based
  rw [position, List.map_append, List.map_cons] at based
  have atBound := (based.bound_le live).2
  constructor
  case accounted =>
    have before := caught.accounted
    rw [Family.exns, position, exnsOf_append] at before
    show kept s.parent.childExn + exnsOf (younger ++
      { child with userExn := exn, pc := .exceptionLoop map } :: older) +
        kept s.ownExn + s.deleted = _
    simp only [exnsOf_append, Child.exns, here, unthrown, kept_none, zero_add,
      List.map_append, ← Multiset.coe_add] at before ⊢
    rw [← before]
    have throws : ((exn.toList.map (childPosition child.spawnIndex, ·)).map
        Prod.snd : List E) = exn.toList := by
      simp
    rw [throws]
    simp only [kept]
    abel
  case bounded =>
    intro entry member
    rcases List.mem_append.mp member with earlier | last
    · exact caught.bounded entry earlier
    · obtain ⟨thrown, -, rfl⟩ := List.mem_map.mp last
      exact Nat.le_of_succ_le atBound
  case based =>
    have contributed := @Based.contributeLink _ _ _ _ ⟨exn⟩ _ _ _ _ based live
    rw [exceptionAt_append, List.map_append, List.map_cons]
    refine contributed.replace fun high thrown => ?_
    have retired := @Based.retire _ _ _ _ _ _ _ false thrown
      fun goesOn => absurd goesOn Bool.false_ne_true
    simpa [Child.exnLink, here, ChildPc.isRunning, unthrown, childPosition]
      using retired
  case trace =>
    rw [exceptionAt_append, contribute_of_ne]
    · exact caught.trace
    · exact Nat.ne_of_gt atBound

theorem Caught.promoteChild {status : ClosureStatus} {simulatedStolen : Bool}
    (caught : Caught s) (round : s.syncs = 0)
    (here : s.strand = .running map) :
    Caught (s.promoteChild map status simulatedStolen (.ready none)) := by
  have unthrown : s.ownExn = none := ownExn_idle round (by rw [here]; rfl)
  have stillUnthrown : Family.ownExn
      (s.promoteChild map status simulatedStolen (.ready none)) = none :=
    ownExn_idle round rfl
  have trace := caught.trace
  rw [unthrown, First.mk_none] at trace
  have later : ∀ position, tracePosition s.spawned < position →
      exceptionAt s.thrown position = 1 := by
    intro position after
    apply exceptionAt_eq_one
    intro entry member
    exact Nat.ne_of_lt (Nat.lt_of_le_of_lt (caught.bounded entry member) after)
  have more : tracePosition s.spawned < tracePosition (s.spawned + 1) := by
    simp only [tracePosition]
    omega
  constructor
  case accounted =>
    refine Eq.trans ?_ caught.accounted
    rw [Family.exns, Family.exns, unthrown, stillUnthrown]
    simp [Family.promoteChild, exnsOf, Child.exns]
  case bounded =>
    intro entry member
    exact Nat.le_of_lt
      (Nat.lt_of_le_of_lt (caught.bounded entry member) more)
  case based =>
    refine Based.spawn caught.based more fun position above => ?_
    rcases Nat.eq_or_lt_of_le above with rfl | after
    · exact trace
    · exact later position after
  case trace =>
    rw [stillUnthrown]
    exact later _ more

/-- A child goes on with the same exceptions. -/
theorem Caught.advance {pc : ChildPc M E} (caught : Caught s)
    (position : s.children = younger ++ child :: older)
    (sameExns : { child with pc }.exns = child.exns)
    (sameLink : { child with pc }.exnLink = child.exnLink) :
    Caught { s with children := younger ++ { child with pc } :: older } := by
  refine caught.replace position rfl ?_ ?_
  · simp only [exnsOf, List.map_cons, List.sum_cons, sameExns, add_assoc]
  · intro high based
    rwa [List.map_cons, sameLink]

theorem Caught.exceptionReduce {left right : Option E} (caught : Caught s)
    (position : s.children = younger ++ child :: older)
    (here : child.pc = .exceptionUnlocked map left right) :
    Caught { s with
      children := younger ++
        { child with
          userExn := (reduceExceptions left child.userExn right).1
          pc := .exceptionLoop map } :: older
      deleted :=
        s.deleted ++ (reduceExceptions left child.userExn right).2 } := by
  refine caught.replace position rfl ?_ ?_
  · have reduced := kept_reduceExceptions left child.userExn right
    simp only [exnsOf, List.map_cons, List.sum_cons, Child.exns, here,
      ← Multiset.coe_add]
    rw [← reduced]
    abel
  · intro high based
    have held : (⟨(reduceExceptions left child.userExn right).1⟩ : First E) =
        ⟨left⟩ * ⟨child.userExn⟩ * ⟨right⟩ := by
      apply First.ext
      cases left <;> cases child.userExn <;> rfl
    have idle : child.pc.isRunning = false := by rw [here]; rfl
    rw [List.map_cons]
    simpa [Child.exnLink, ChildPc.isRunning, here, held] using based

/-- The exception of the continuation is the last one of the round. -/
theorem Caught.throwTrace (caught : Caught s) (unthrown : s.ownExn = none)
    (ownExn : next.ownExn = exn)
    (thrown : next.thrown = s.thrown ++
      exn.toList.map (tracePosition s.spawned, ·))
    (sameChild : next.parent.childExn = s.parent.childExn)
    (sameChildren : next.children = s.children)
    (sameDeleted : next.deleted = s.deleted)
    (sameSpawned : next.spawned = s.spawned) : Caught next := by
  have contributed :
      exceptionAt next.thrown =
        contribute (exceptionAt s.thrown) (tracePosition s.spawned) ⟨exn⟩ := by
    rw [thrown, exceptionAt_append]
  constructor
  case accounted =>
    have before := caught.accounted
    have throws : ((exn.toList.map (tracePosition s.spawned, ·)).map
        Prod.snd : List E) = exn.toList := by
      simp
    rw [Family.exns, unthrown, kept_none, add_zero] at before
    rw [Family.exns, sameChild, sameChildren, sameDeleted, ownExn, thrown,
      List.map_append, ← Multiset.coe_add, ← before, throws]
    simp only [kept]
    abel
  case bounded =>
    rw [thrown, sameSpawned]
    intro entry member
    rcases List.mem_append.mp member with earlier | last
    · exact caught.bounded entry earlier
    · obtain ⟨exn, -, rfl⟩ := List.mem_map.mp last
      exact Nat.le_refl _
  case based =>
    rw [contributed, sameChild, sameChildren, sameSpawned]
    apply caught.based.congr
    intro position below
    exact contribute_of_ne (Nat.ne_of_lt below)
  case trace =>
    have trace := caught.trace
    rw [unthrown] at trace
    rw [contributed, sameSpawned, ownExn, contribute, Function.update_self,
      trace, First.mk_none, one_mul]

/-- The critical section of the sync is not about exceptions. -/
theorem cilkSync_exceptions :
    (s.cilkSync map).parent.childExn = s.parent.childExn ∧
      (s.cilkSync map).children = s.children ∧
      (s.cilkSync map).thrown = s.thrown ∧
      (s.cilkSync map).deleted = s.deleted ∧
      (s.cilkSync map).spawned = s.spawned := by
  unfold Family.cilkSync
  split <;> exact ⟨rfl, rfl, rfl, rfl, rfl⟩

theorem cilkSync_ownExn : (s.cilkSync map).ownExn = s.parent.userExn := by
  rw [ownExn_syncing]
  · unfold Family.cilkSync
    split <;> rfl
  · unfold Family.cilkSync
    split <;> rfl

theorem Caught.sync (caught : Caught s) (round : s.syncs = 0)
    (here : s.strand = .running map)
    (clean : exn = none → s.parent.userExn = none) :
    Caught ((s.leaveTrace exn).cilkSync map) := by
  have unthrown : s.ownExn = none := ownExn_idle round (by rw [here]; rfl)
  have stored : ((s.leaveTrace exn).cilkSync map).ownExn = exn := by
    rw [cilkSync_ownExn]
    cases exn with
    | none => exact clean rfl
    | some exn => rfl
  obtain ⟨sameChild, sameChildren, thrown, sameDeleted, sameSpawned⟩ :=
    @cilkSync_exceptions _ _ (s.leaveTrace exn) map
  exact caught.throwTrace unthrown stored thrown sameChild sameChildren
    sameDeleted sameSpawned

end Others

section Rounds

variable {s next : Family M E}

/-- A new round begins with slots that the children have left empty. -/
theorem caught_newRound (noChildren : s.children = [])
    (noChild : s.parent.childExn = none) (idle : s.strand.isIdle = true) :
    Caught s.newRound := by
  have unthrown : s.newRound.ownExn = none := ownExn_idle rfl idle
  constructor
  case accounted =>
    rw [Family.exns, unthrown]
    simp [Family.newRound, noChild, noChildren, exnsOf]
  case bounded => exact fun _ member => absurd member List.not_mem_nil
  case based =>
    show Based _ ⟨s.parent.childExn⟩ (s.children.map Child.exnLink) _
    rw [noChild, noChildren]
    exact (span_eq_one fun _ _ => rfl).symm
  case trace =>
    rw [unthrown]
    rfl

/-- What holds between the steps of a run without a loss. -/
structure Lossless (s : Family M E) : Prop where
  joined : Joined false s
  indexed : Indexed s
  settled : Settled s

theorem lossless_initial (waits : Bool) :
    Lossless (initial waits : Family M E) := by
  constructor
  case joined => exact joined_initial false waits
  case indexed => exact indexed_initial waits
  case settled => exact (caught_initial waits).settled rfl

/-- The exception in the right slot goes away with the child. -/
theorem exns_depositRmap {younger older : List (Child M E)}
    {child : Child M E} {map : Option M}
    (position : s.children = younger ++ child :: older)
    (here : child.pc = .reducerLoop map) :
    (s.depositRmap younger older map).exns + kept child.rightExn = s.exns := by
  have same := @storeLeftRmap_exns _ _ map s.parent older
  have sameOwn : (s.depositRmap younger older map).ownExn = s.ownExn := by
    simp [Family.ownExn, Family.depositRmap, storeLeftRmap_fst]
  rw [Family.exns, Family.exns, sameOwn, position, exnsOf_append]
  simp only [Family.depositRmap, exnsOf, List.map_append, List.sum_append,
    storeLeftRmap_fst, Child.exns, here, zero_add] at same ⊢
  rw [same]
  abel

/-- A step of a parent that is not at a sync, without an exception. -/
theorem Caught.congr_idle (caught : Caught s) (round : s.syncs = 0)
    (idle : s.strand.isIdle = true) (stillIdle : next.strand.isIdle = true)
    (sameSyncs : next.syncs = s.syncs) (sameThrown : next.thrown = s.thrown)
    (sameSpawned : next.spawned = s.spawned)
    (sameDeleted : next.deleted = s.deleted)
    (sameChild : next.parent.childExn = s.parent.childExn)
    (sameChildren : next.children = s.children) : Settled next := by
  have stillRound : next.syncs = 0 := sameSyncs.trans round
  have sameOwn : next.ownExn = s.ownExn := by
    rw [ownExn_idle stillRound stillIdle, ownExn_idle round idle]
  exact (caught.congr sameThrown sameSpawned sameDeleted sameChild sameOwn
    sameChildren).settled stillRound

variable [Monoid M] {action : Action M E}

theorem Caught.step (caught : Caught s) (joined : Joined false s)
    (indexed : Indexed s) (round : s.syncs = 0)
    (clean : SlotsClean s (.join action)) (taken : Step false s action next) :
    Settled next := by
  cases taken
  case exceptionIteration younger older child map position here =>
    exact caught.exceptionIteration joined round position here
  case reducerIteration younger older child map position here =>
    exact caught.reducerIteration joined round position here
      (clean.1 _ _ _ _ position here rfl)
  case finishSync map here =>
    constructor
    · exact nofun
    · intro past
      have noChildren := joined.noChildren_of_syncing here
      have own : s.ownExn = s.parent.userExn :=
        ownExn_syncing (by rw [here]; rfl)
      exact caught.pass noChildren s.parent rfl own.symm past noChildren rfl rfl
        rfl rfl rfl rfl
  case contributeChild younger older child map view position here =>
    have advanced := @Caught.advance _ _ _ _ _ _ (.running (updateViews map view))
      caught position (by simp [Child.exns, here])
      (by simp [Child.exnLink, ChildPc.isRunning, here])
    exact Caught.settled (advanced.congr rfl rfl rfl rfl rfl rfl) round
  case finishChild younger older child map exn position here =>
    exact (caught.finishChild indexed position here).settled round
  case exceptionReduce younger older child map left right position here =>
    exact (caught.exceptionReduce position here).settled round
  case reducerReduce younger older child left active right position here =>
    refine Caught.settled (caught.advance position ?_ ?_) round
    · simp [Child.exns, here]
    · simp [Child.exnLink, ChildPc.isRunning, here]
  case steal map notForced here =>
    exact (caught.promoteChild round here).settled round
  case promoteOwnDeque map forced here => cases forced
  case sync map exn here unsynched =>
    have slotClean : exn = none → s.parent.userExn = none :=
      fun nothing => clean.2 (by rw [nothing])
    refine Caught.settled (caught.sync round here slotClean) ?_
    unfold Family.cilkSync
    split <;> exact round
  -- The other steps are those of a parent that is not at a sync.
  case addCallee here =>
    exact caught.congr_idle round (by rw [here]; rfl) rfl rfl rfl rfl rfl rfl
      rfl
  case execute map here ready =>
    exact caught.congr_idle round (by rw [here]; rfl) rfl rfl rfl rfl rfl rfl
      rfl
  case checkException map here synched =>
    have idle : s.strand.isIdle = true := by rw [here]; rfl
    exact caught.congr_idle round idle idle rfl rfl rfl rfl rfl rfl
  all_goals
    rename_i here
    exact caught.congr_idle round (by rw [here]; rfl) rfl rfl rfl rfl rfl rfl
      rfl

/-- The worker that has been given the parent executes it. -/
theorem Passed.execute (passed : Passed s) (past : 0 < s.syncs)
    (taken : Step false s .execute next) : Settled next := by
  cases taken
  case execute map here ready =>
    constructor
    · intro round
      exact absurd round (Nat.ne_of_gt past)
    · intro _
      have sameOwn : Family.ownExn
          { s with
            parent := { s.parent with status := .running }
            strand := .running map } = s.ownExn := by
        refine Eq.trans ?_ (ownExn_passed past).symm
        exact ownExn_passed past
      constructor
      case accounted =>
        rw [Family.exns, sameOwn]
        exact passed.accounted
      case noChildren => exact passed.noChildren
      case noChild => exact passed.noChild
      case leftmost => exact passed.leftmost
      case nobody => exact passed.nobody
      case pending => exact passed.pending

variable {roundAction : RoundAction M E}

omit [Monoid M] in
theorem Lossless.newRound (joined : Joined false s) (indexed : Indexed s)
    (noChildren : s.children = []) (noChild : s.parent.childExn = none)
    (idle : s.strand.isIdle = true) : Lossless s.newRound := by
  constructor
  case joined =>
    exact ⟨joined.counter, joined.fits, joined.simulated, joined.alone,
      joined.suspensions⟩
  case indexed => exact indexed.congr rfl rfl
  case settled => exact (caught_newRound noChildren noChild idle).settled rfl

theorem Lossless.step (lossless : Lossless s)
    (clean : SlotsClean s roundAction) (taken : RoundStep s roundAction next) :
    Lossless next := by
  cases taken with
  | step round checked taken =>
      constructor
      case joined => exact lossless.joined.step taken
      case indexed => exact lossless.indexed.step taken
      case settled =>
        exact (lossless.settled.caught round).step lossless.joined
          lossless.indexed round clean taken
  | execute past taken =>
      constructor
      case joined => exact lossless.joined.step taken
      case indexed => exact lossless.indexed.step taken
      case settled => exact (lossless.settled.passed past).execute past taken
  | checkException past checks taken =>
      have joined := lossless.joined.step taken
      have indexed := lossless.indexed.step taken
      have passed := lossless.settled.passed past
      cases taken
      case checkException map here synched =>
        exact Lossless.newRound joined indexed passed.noChildren passed.noChild
          (by simp only [here]; rfl)
  | goOn past unchecked here =>
      have passed := lossless.settled.passed past
      exact Lossless.newRound lossless.joined lossless.indexed
        passed.noChildren passed.noChild (by rw [here]; rfl)

theorem Step.reducerIteration_cases {forceReduce : Bool} {spawnIndex : ℕ}
    (taken : Step forceReduce s action next)
    (isIteration : action = .reducerIteration spawnIndex) :
    ∃ younger child older map, s.children = younger ++ child :: older ∧
      child.pc = .reducerLoop map ∧ child.spawnIndex = spawnIndex ∧
      next = s.reducerIteration younger older child map := by
  cases taken
  case reducerIteration younger older child map position here =>
    cases isIteration
    exact ⟨younger, child, older, map, position, here, rfl, rfl⟩
  all_goals cases isIteration

theorem Step.sync_cases {forceReduce : Bool}
    (taken : Step forceReduce s (.sync none) next) :
    ∃ map, s.strand = .running map ∧
      next = (s.leaveTrace none).cilkSync map := by
  cases taken
  case sync map here unsynched => exact ⟨map, here, rfl⟩

/-- An exception that is unlinked with its child is neither kept nor
deleted. -/
theorem Lossless.unlinksClean (lossless : Lossless s)
    (taken : RoundStep s roundAction next) (kept : ExceptionsKept next) :
    UnlinksClean s roundAction := by
  intro younger child older map position here isIteration leftEmpty rightEmpty
  cases taken with
  | execute past taken => cases isIteration
  | checkException past checks taken => cases isIteration
  | goOn past unchecked running => cases isIteration
  | step round checked taken =>
      cases isIteration
      obtain ⟨before, unlinked, after, left, otherPosition, returns, sameIndex,
        rfl⟩ := taken.reducerIteration_cases rfl
      obtain ⟨rfl, rfl, rfl⟩ :=
        lossless.indexed.unique position otherPosition sameIndex
      have deposits : s.reducerIteration before after unlinked left =
          (s.depositRmap before after left).finishReturn := by
        rw [Family.reducerIteration, leftEmpty, rightEmpty]
        rfl
      have linked : s.children.length =
          (s.depositRmap before after left).children.length + 1 := by
        simp [Family.depositRmap, storeLeftRmap_snd, position, Nat.add_assoc]
      have same : SameJoin s (s.depositRmap before after left) :=
        sameJoin_storeLeftRmap _
      have accounted := kept.accounted
      have earlier := (lossless.settled.caught round).accounted
      rw [deposits, lossless.joined.exns_finishReturn same rfl linked,
        (finishReturn_children _).2.2] at accounted
      rw [← exns_depositRmap position returns] at earlier
      have lost : Join.kept unlinked.rightExn = 0 := by
        have balance := earlier.trans accounted.symm
        rw [add_right_comm] at balance
        exact add_eq_left.mp balance
      exact kept_eq_zero.mp lost

/-- The exception that a frame has in its slot when it gets to a sync without
throwing is not one of this round. -/
theorem Lossless.syncsClean (lossless : Lossless s)
    (taken : RoundStep s roundAction next) (kept : ExceptionsKept next) :
    SyncsClean s roundAction := by
  intro isSync
  cases taken with
  | execute past taken => cases isSync
  | checkException past checks taken => cases isSync
  | goOn past unchecked running => cases isSync
  | step round checked taken =>
      cases isSync
      obtain ⟨map, here, rfl⟩ := taken.sync_cases
      have unthrown : s.ownExn = none := ownExn_idle round (by rw [here]; rfl)
      have accounted := kept.accounted
      have earlier := (lossless.settled.caught round).accounted
      rw [Family.exns, unthrown, kept_none, add_zero] at earlier
      obtain ⟨sameChild, sameChildren, thrown, sameDeleted, -⟩ :=
        @cilkSync_exceptions _ _ (s.leaveTrace none) map
      have sameThrown : (s.leaveTrace none).thrown = s.thrown :=
        List.append_nil _
      rw [Family.exns, cilkSync_ownExn, sameChild, sameChildren, sameDeleted,
        thrown, sameThrown] at accounted
      have stale : Join.kept s.parent.userExn = 0 := by
        have balance := accounted.trans earlier.symm
        rw [add_right_comm] at balance
        exact add_eq_left.mp balance
      exact kept_eq_zero.mp stale

/-- The exceptions of a parent are kept in all states of a run if and only if
no child is unlinked with an exception in its right slot and no frame gets to a
sync with an exception that it has not thrown since the last one. -/
theorem exceptionsKept_iff_slotsClean {waits : Bool}
    {trace : List (Family M E × RoundAction M E)} {final : Family M E}
    (run : Run RoundStep (initial waits) trace final) :
    ((∀ entry ∈ trace, ExceptionsKept entry.1) ∧ ExceptionsKept final) ↔
      Meets SlotsClean trace := by
  apply @Run.property_iff _ _ _ _ _ _ SlotsClean Lossless _ run
  case initial => exact lossless_initial waits
  case sufficient => exact fun _ lossless => lossless.settled.exceptionsKept
  case preserved =>
    exact fun _ _ _ lossless clean taken => lossless.step clean taken
  case destroyed =>
    intro _ _ _ lossless unclean taken kept
    exact unclean
      ⟨lossless.unlinksClean taken kept, lossless.syncsClean taken kept⟩

end Rounds

/-- Slots are given up by the reducer loop, and taken over by a sync. -/
theorem slotsClean_of_ne {s : Family M E} {action : RoundAction M E}
    (noUnlink : ∀ spawnIndex, action ≠ .join (.reducerIteration spawnIndex))
    (noSync : action ≠ .join (.sync none)) : SlotsClean s action := by
  constructor
  · intro younger child older map position here isIteration
    exact absurd isIteration (noUnlink child.spawnIndex)
  · intro isSync
    exact absurd isSync noSync

/-- A child and the continuation throw.  The exception of the child is left, and
that of the continuation is deleted. -/
theorem exceptionsKept_after_throws :
    ∃ trace final, Run RoundStep
        (initial false : Family (FreeMonoid ℕ) ℕ) trace final ∧
      final.syncs = 1 ∧ final.parent.userExn = some 7 ∧
      final.parent.exceptionPending = true ∧ final.deleted = [9] ∧
      ExceptionsKept final := by
  obtain ⟨final, ⟨trace, run, clean⟩, passed, kept, pending, deleted⟩ :
      ∃ final, ReachableBy SlotsClean RoundStep
        (initial false : Family (FreeMonoid ℕ) ℕ) final ∧
        final.syncs = 1 ∧ final.parent.userExn = some 7 ∧
        final.parent.exceptionPending = true ∧ final.deleted = [9] :=
    ⟨_, ReachableBy.refl
      |>.snoc (.step rfl (by simp) (.steal rfl rfl))
        (slotsClean_of_ne (by simp) (by simp))
      |>.snoc (.step rfl (by simp) (.execute rfl rfl))
        (slotsClean_of_ne (by simp) (by simp))
      |>.snoc (.step rfl (by simp)
        (@Step.finishChild _ _ _ _ _ [] [] _ _ (some 7) rfl rfl))
        (slotsClean_of_ne (by simp) (by simp))
      |>.snoc (.step rfl (by simp)
        (@Step.exceptionIteration _ _ _ _ _ [] [] _ _ rfl rfl))
        (slotsClean_of_ne (by simp) (by simp))
      |>.snoc (.step rfl (by simp) (@Step.sync _ _ _ _ _ _ (some 9) rfl rfl))
        (slotsClean_of_ne (by simp) (by simp))
      |>.snoc (.step rfl (by simp) (.finishSync rfl))
        (slotsClean_of_ne (by simp) (by simp)),
      rfl, rfl, rfl, rfl⟩
  exact ⟨trace, final, run, passed, kept, pending, deleted,
    ((exceptionsKept_iff_slotsClean run).mpr clean).2⟩

/-- Three children that run, of which the first one has a map. -/
private def threeChildren : Family (FreeMonoid ℕ) ℕ where
  parent := { (initial false).parent with
    status := .ready
    joinCounter := 3
    unsynched := true }
  children :=
    [⟨2, none, none, none, .running none⟩,
      ⟨1, none, none, none, .running none⟩,
      ⟨0, none, none, none, .running (some (FreeMonoid.of 1))⟩]
  strand := .ready none
  spawned := 3
  contributions := [(0, FreeMonoid.of 1)]
  thrown := []
  deleted := []
  suspensions := 0
  completions := 0
  syncs := 0

/-- The first child has returned, and the second one merges its map. -/
private def merging : Family (FreeMonoid ℕ) ℕ :=
  { threeChildren with
    parent := { threeChildren.parent with joinCounter := 2 }
    children :=
      [⟨2, none, none, none, .running none⟩,
        ⟨1, none, none, none,
          .reducerUnlocked (some (FreeMonoid.of 1)) none none⟩] }

private theorem run_threeChildren :
    ∃ trace s, Run RoundStep (initial false) trace s ∧ s = threeChildren :=
  ⟨_, _, @Run.refl (Family (FreeMonoid ℕ) ℕ) _ RoundStep (initial false)
    |>.snoc (.step rfl (by simp)
      (@Step.contributeTrace _ _ _ _ _ _ (FreeMonoid.of 1) rfl))
    |>.snoc (.step rfl (by simp) (.steal rfl rfl))
    |>.snoc (.step rfl (by simp) (.execute rfl rfl))
    |>.snoc (.step rfl (by simp) (.steal rfl rfl))
    |>.snoc (.step rfl (by simp) (.execute rfl rfl))
    |>.snoc (.step rfl (by simp) (.steal rfl rfl)), rfl⟩

private theorem run_merging :
    ∃ trace s, Run RoundStep threeChildren trace s ∧ s = merging :=
  ⟨_, _, @Run.refl _ _ RoundStep threeChildren
    |>.snoc (.step rfl (by simp)
      (@Step.finishChild _ _ _ _ _ [_, _] [] _ _ none rfl rfl))
    |>.snoc (.step rfl (by simp)
      (@Step.exceptionIteration _ _ _ _ _ [_, _] [] _ _ rfl rfl))
    |>.snoc (.step rfl (by simp)
      (@Step.finishChild _ _ _ _ _ [_] [] _ _ none rfl rfl))
    |>.snoc (.step rfl (by simp)
      (@Step.exceptionIteration _ _ _ _ _ [_] [] _ _ rfl rfl)), rfl⟩

/-- The second child merges maps while the third one leaves its exception,
which is destroyed with the second child. -/
theorem exception_lost :
    ∃ trace final, Run RoundStep
        (initial false : Family (FreeMonoid ℕ) ℕ) trace final ∧
      final.syncs = 1 ∧ final.thrown = [(childPosition 2, 7)] ∧
      final.parent.userExn = none ∧ final.deleted = [] ∧
      ¬ ExceptionsKept final := by
  obtain ⟨spawns, _, spawned, rfl⟩ := run_threeChildren
  obtain ⟨returns, _, returned, rfl⟩ := run_merging
  obtain ⟨rest, final, run, passed, thrown, userExn, deleted⟩ :
      ∃ rest final, Run RoundStep merging rest final ∧
        final.syncs = 1 ∧ final.thrown = [(childPosition 2, 7)] ∧
        final.parent.userExn = none ∧ final.deleted = [] :=
    ⟨_, _, @Run.refl _ _ RoundStep merging
      |>.snoc (.step rfl (by simp)
        (@Step.finishChild _ _ _ _ _ [] [_] _ _ (some 7) rfl rfl))
      |>.snoc (.step rfl (by simp)
        (@Step.exceptionIteration _ _ _ _ _ [] [_] _ _ rfl rfl))
      |>.snoc (.step rfl (by simp)
        (@Step.reducerReduce _ _ _ _ _ [] [] _ _ _ _ rfl rfl))
      |>.snoc (.step rfl (by simp)
        (@Step.reducerIteration _ _ _ _ _ [] [] _ _ rfl rfl))
      |>.snoc (.step rfl (by simp) (.execute rfl rfl))
      |>.snoc (.step rfl (by simp) (@Step.sync _ _ _ _ _ _ none rfl rfl))
      |>.snoc (.step rfl (by simp) (.finishSync rfl)), rfl, rfl, rfl, rfl⟩
  refine ⟨_, final, (spawned.trans returned).trans run, passed, thrown,
    userExn, deleted, ?_⟩
  intro kept
  have nobody := (kept.nobody (passed ▸ Nat.one_pos)).mp userExn
  rw [thrown] at nobody
  cases nobody

/-- The frame handles its own exception after the sync, and gets to the next
sync with a child that throws nothing.  The exception is left there again. -/
theorem exception_stale :
    ∃ trace final, Run RoundStep
        (initial false : Family (FreeMonoid ℕ) ℕ) trace final ∧
      final.syncs = 1 ∧ final.thrown = [] ∧ final.parent.userExn = some 7 ∧
      final.parent.exceptionPending = false ∧ ¬ ExceptionsKept final := by
  obtain ⟨trace, final, run, passed, thrown, userExn, pending⟩ :
      ∃ trace final, Run RoundStep
        (initial false : Family (FreeMonoid ℕ) ℕ) trace final ∧
        final.syncs = 1 ∧ final.thrown = [] ∧ final.parent.userExn = some 7 ∧
        final.parent.exceptionPending = false :=
    ⟨_, _, @Run.refl (Family (FreeMonoid ℕ) ℕ) _ RoundStep (initial false)
      |>.snoc (.step rfl (by simp) (.steal rfl rfl))
      |>.snoc (.step rfl (by simp) (.execute rfl rfl))
      |>.snoc (.step rfl (by simp)
        (@Step.finishChild _ _ _ _ _ [] [] _ _ none rfl rfl))
      |>.snoc (.step rfl (by simp)
        (@Step.exceptionIteration _ _ _ _ _ [] [] _ _ rfl rfl))
      |>.snoc (.step rfl (by simp) (@Step.sync _ _ _ _ _ _ (some 7) rfl rfl))
      |>.snoc (.step rfl (by simp) (.finishSync rfl))
      -- `user_exn` is the exception that the personality function handles.
      |>.snoc (.goOn Nat.one_pos (fun checks => checks.2 rfl) rfl)
      |>.snoc (.step rfl (by simp) (.steal rfl rfl))
      |>.snoc (.step rfl (by simp) (.execute rfl rfl))
      |>.snoc (.step rfl (by simp)
        (@Step.finishChild _ _ _ _ _ [] [] _ _ none rfl rfl))
      |>.snoc (.step rfl (by simp)
        (@Step.exceptionIteration _ _ _ _ _ [] [] _ _ rfl rfl))
      |>.snoc (.step rfl (by simp) (@Step.sync _ _ _ _ _ _ none rfl rfl))
      |>.snoc (.step rfl (by simp) (.finishSync rfl)),
      rfl, rfl, rfl, rfl⟩
  refine ⟨trace, final, run, passed, thrown, userExn, pending, ?_⟩
  intro kept
  have nobody := (kept.nobody (passed ▸ Nat.one_pos)).mpr thrown
  rw [userExn] at nobody
  cases nobody

end Multicilk.Join
