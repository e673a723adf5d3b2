import Multicilk.Join.Exceptions

/-!
# The leftmost exception wins

Until the sync is passed, the exceptions of the family are in serial order, and
those that were deleted had another one on their left.
-/

namespace Multicilk.Join

open SiblingReduction TransitionSystem

variable {M E : Type*}

/-- The first exception that was thrown at a position. -/
def exceptionAt (thrown : List (ℕ × E)) (position : ℕ) : First E :=
  ⟨thrown.lookup position⟩

theorem exceptionAt_append (thrown : List (ℕ × E)) (position : ℕ)
    (exn : Option E) :
    exceptionAt (thrown ++ exn.toList.map (position, ·)) =
      contribute (exceptionAt thrown) position ⟨exn⟩ := by
  funext other
  by_cases same : other = position
  · subst other
    cases exn <;> simp [exceptionAt, contribute, List.lookup_append, First.ext_iff]
  · have different : (other == position) = false := by simpa using same
    rw [contribute_of_ne same]
    cases exn <;>
      simp [exceptionAt, List.lookup_append, List.lookup_cons, different]

theorem exceptionAt_eq_one {thrown : List (ℕ × E)} {position : ℕ}
    (absent : ∀ entry ∈ thrown, entry.1 ≠ position) :
    exceptionAt thrown position = 1 := by
  rw [First.eq_one_iff]
  apply List.lookup_eq_none_iff.mpr
  intro entry member
  simpa using Ne.symm (absent entry member)

theorem lookup_ne_none {thrown : List (ℕ × E)} {entry : ℕ × E}
    (member : entry ∈ thrown) : thrown.lookup entry.1 ≠ none := by
  intro absent
  have different := List.lookup_eq_none_iff.mp absent entry member
  simp at different

section Links

/-- A child as a member of an ordered reduction of exceptions. -/
def Child.exnLink (child : Child M E) : Link (First E) where
  bound := childPosition child.spawnIndex + 1
  live := child.pc.isRunning
  held :=
    match child.pc with
    | .running _ | .exceptionLoop _ => ⟨child.userExn⟩
    | .exceptionUnlocked _ left right => ⟨left⟩ * ⟨child.userExn⟩ * ⟨right⟩
    | .reducerLoop _ | .reducerUnlocked _ _ _ => 1
  right := ⟨child.rightExn⟩

variable {exn : Option E} {map : Option M} {parent : Parent M E}
  {older : List (Child M E)}

theorem leftSlot_exnLink :
    leftSlot ⟨parent.childExn⟩ (older.map Child.exnLink) =
      ⟨leftExn parent older⟩ := by
  cases older <;> rfl

theorem storeBase_exnLink :
    (⟨(storeLeftExn exn parent older).1.childExn⟩ : First E) =
      storeBase ⟨parent.childExn⟩ ⟨exn⟩ (older.map Child.exnLink) := by
  cases older <;> rfl

theorem storeLinks_exnLink :
    (storeLeftExn exn parent older).2.map Child.exnLink =
      storeLinks ⟨exn⟩ (older.map Child.exnLink) := by
  cases older <;> rfl

theorem storeLeftRmap_exnLink :
    (storeLeftRmap map parent older).2.map Child.exnLink =
      older.map Child.exnLink := by
  cases older <;> rfl

theorem storeLeftRmap_exns :
    exnsOf (storeLeftRmap map parent older).2 = exnsOf older := by
  cases older <;> rfl

end Links

/-- Before the sync has been passed. -/
structure Caught (s : Family M E) : Prop where
  accounted : s.exns + s.deleted = (s.thrown.map Prod.snd : List E)
  bounded : ∀ entry ∈ s.thrown, entry.1 ≤ tracePosition s.spawned
  based : Based (exceptionAt s.thrown) ⟨s.parent.childExn⟩
    (s.children.map Child.exnLink) (tracePosition s.spawned)
  trace : exceptionAt s.thrown (tracePosition s.spawned) = ⟨s.ownExn⟩

theorem caught_initial (waits : Bool) : Caught (initial waits : Family M E) := by
  constructor
  case accounted => cases waits <;> rfl
  case bounded => exact nofun
  case based => exact span_self.symm
  case trace => cases waits <;> rfl

/-- The exceptions of the children, when these have all returned, come before
that of the parent. -/
theorem Caught.joined {s : Family M E} (caught : Caught s)
    (noChildren : s.children = []) :
    s.parent.childExn.or s.ownExn = s.firstThrown ∧
      ∀ entry ∈ s.thrown, ∀ spawnIndex,
        entry.1 = childPosition spawnIndex →
        s.parent.childExn.isSome = true := by
  have based := caught.based
  have trace := caught.trace
  rw [noChildren] at based
  have children : s.parent.childExn =
      (List.range (tracePosition s.spawned)).findSome? fun position =>
        s.thrown.lookup position := by
    have children := congrArg First.value based
    rw [span_zero, First.value_prod_map] at children
    exact children
  constructor
  · have total := congrArg First.value
      (@span_succ _ _ (exceptionAt s.thrown) 0 (tracePosition s.spawned)
        (Nat.zero_le _))
    rw [span_zero, First.value_prod_map, ← based, trace] at total
    exact total.symm
  · intro entry member spawnIndex ofChild
    by_contra none
    rw [Option.not_isSome_iff_eq_none, children] at none
    have below : entry.1 < tracePosition s.spawned := by
      have bounded := caught.bounded entry member
      simp only [childPosition, tracePosition] at ofChild bounded ⊢
      omega
    have absent := List.findSome?_eq_none_iff.mp none entry.1
      (List.mem_range.mpr below)
    exact lookup_ne_none member absent

/-- Somebody has thrown if there is a first exception. -/
theorem Caught.nobody {s : Family M E} (caught : Caught s) :
    s.firstThrown = none ↔ s.thrown = [] := by
  constructor
  · intro none
    apply List.eq_nil_iff_forall_not_mem.mpr
    intro entry member
    have absent := List.findSome?_eq_none_iff.mp none entry.1
      (List.mem_range.mpr (Nat.lt_succ_of_le (caught.bounded entry member)))
    exact lookup_ne_none member absent
  · intro nothing
    apply List.findSome?_eq_none_iff.mpr
    intro position _
    rw [nothing]
    rfl

/-- After the sync has been passed. -/
structure Passed (s : Family M E) : Prop where
  accounted : s.exns + s.deleted = (s.thrown.map Prod.snd : List E)
  noChildren : s.children = []
  noChild : s.parent.childExn = none
  leftmost : s.parent.userExn = s.firstThrown
  nobody : s.parent.userExn = none ↔ s.thrown = []
  pending : ∀ entry ∈ s.thrown, ∀ spawnIndex,
    entry.1 = childPosition spawnIndex → s.parent.exceptionPending = true

theorem Passed.exceptionsKept {s : Family M E} (passed : Passed s)
    (past : 0 < s.syncs) : ExceptionsKept s := by
  constructor
  case accounted => exact passed.accounted
  case leftmost => exact fun _ => passed.leftmost
  case nobody => exact fun _ => passed.nobody
  case pending => exact fun _ => passed.pending
  case others =>
    intro _
    rw [← passed.accounted, Family.exns, ownExn_passed past, passed.noChild,
      passed.noChildren]
    simp [exnsOf]

theorem Caught.exceptionsKept {s : Family M E} (caught : Caught s)
    (round : s.syncs = 0) : ExceptionsKept s := by
  constructor
  case accounted => exact caught.accounted
  all_goals
    intro positive
    rw [round] at positive
    cases positive

section Steps

variable {s middle next : Family M E} {younger older : List (Child M E)}
  {child : Child M E} {map : Option M}

/-- The parent takes over what its children have left. -/
theorem Caught.pass (caught : Caught s) (noChildren : s.children = [])
    (parent : Parent M E)
    (sameChild : parent.childExn = s.parent.childExn)
    (sameOwn : parent.userExn = s.ownExn) (past : 0 < next.syncs)
    (stillNone : next.children = [])
    (childExn : next.parent.childExn = parent.reduceException.childExn)
    (userExn : next.parent.userExn = parent.reduceException.userExn)
    (exceptionPending : next.parent.exceptionPending =
      parent.reduceException.exceptionPending)
    (deleted : next.deleted = s.deleted ++ parent.replacedException)
    (sameThrown : next.thrown = s.thrown)
    (sameSpawned : next.spawned = s.spawned) : Passed next := by
  obtain ⟨first, pending⟩ := caught.joined noChildren
  have sameFirst : next.firstThrown = s.firstThrown := by
    rw [Family.firstThrown, sameThrown, sameSpawned]
    rfl
  have leftmost : next.parent.userExn = next.firstThrown := by
    rw [userExn, Parent.reduceException_eq, sameChild, sameOwn, sameFirst]
    exact first
  constructor
  case accounted =>
    have reduced := kept_reduceException parent
    rw [sameChild, sameOwn] at reduced
    rw [sameThrown, ← caught.accounted, Family.exns, Family.exns,
      ownExn_passed past, stillNone, noChildren, childExn, userExn, deleted,
      ← Multiset.coe_add]
    calc
      _ = kept parent.reduceException.childExn +
            kept parent.reduceException.userExn + parent.replacedException +
            exnsOf ([] : List (Child M E)) + s.deleted := by abel
      _ = _ := by
        rw [reduced]
        abel
  case noChildren => exact stillNone
  case noChild => rw [childExn, Parent.reduceException_eq]
  case leftmost => exact leftmost
  case nobody =>
    rw [leftmost, sameFirst, sameThrown]
    exact caught.nobody
  case pending =>
    intro entry member spawnIndex ofChild
    rw [sameThrown] at member
    have some := pending entry member spawnIndex ofChild
    rw [exceptionPending, Parent.reduceException_eq, sameChild, some]
    rfl

/-- A step that changes neither the exceptions nor the children. -/
theorem Caught.congr (caught : Caught s) (sameThrown : next.thrown = s.thrown)
    (sameSpawned : next.spawned = s.spawned)
    (sameDeleted : next.deleted = s.deleted)
    (sameChild : next.parent.childExn = s.parent.childExn)
    (sameOwn : next.ownExn = s.ownExn)
    (sameChildren : next.children = s.children) : Caught next := by
  constructor
  case accounted =>
    rw [Family.exns, sameThrown, sameDeleted, sameChild, sameOwn,
      sameChildren]
    exact caught.accounted
  case bounded =>
    rw [sameThrown, sameSpawned]
    exact caught.bounded
  case based =>
    rw [sameThrown, sameSpawned, sameChild, sameChildren]
    exact caught.based
  case trace =>
    rw [sameThrown, sameSpawned, sameOwn]
    exact caught.trace

/-- A step at one child in which nothing is thrown. -/
theorem Caught.replace {newOlder : List (Child M E)} {parent : Parent M E}
    {deleted : List E} (caught : Caught s)
    (position : s.children = younger ++ child :: older)
    (sameUser : parent.userExn = s.parent.userExn)
    (accounted : kept parent.childExn + exnsOf newOlder + deleted =
      kept s.parent.childExn + child.exns + exnsOf older + s.deleted)
    (replaced : ∀ high,
      Based (exceptionAt s.thrown) ⟨s.parent.childExn⟩
        (child.exnLink :: older.map Child.exnLink) high →
      Based (exceptionAt s.thrown) ⟨parent.childExn⟩
        (newOlder.map Child.exnLink) high) :
    Caught { s with parent, children := younger ++ newOlder, deleted } := by
  have sameOwn : Family.ownExn
      { s with parent, children := younger ++ newOlder, deleted } =
        s.ownExn := by
    rw [Family.ownExn, Family.ownExn, sameUser]
  constructor
  case accounted =>
    have before := caught.accounted
    rw [Family.exns, position, exnsOf_append] at before
    rw [← before]
    rw [Family.exns, sameOwn]
    simp only [exnsOf, List.map_append, List.sum_append]
    simp only [exnsOf] at accounted
    calc
      _ = kept parent.childExn + (newOlder.map Child.exns).sum + deleted +
            (younger.map Child.exns).sum + kept s.ownExn := by abel
      _ = _ := by
        rw [accounted]
        abel
  case bounded => exact caught.bounded
  case based =>
    have based := caught.based
    rw [position, List.map_append, List.map_cons] at based
    rw [List.map_append]
    exact based.replace replaced
  case trace =>
    rw [sameOwn]
    exact caught.trace

theorem Caught.takeExns (caught : Caught s)
    (position : s.children = younger ++ child :: older)
    (here : child.pc = .exceptionLoop map) :
    Caught (s.takeExns younger older child map) := by
  refine caught.replace position ?_ ?_ ?_
  · simp [storeLeftExn_fst]
  · have moved := @kept_storeLeftExn _ _ s.parent none older
    simp only [kept_none, add_zero] at moved
    simp only [exnsOf, List.map_cons, List.sum_cons, Child.exns, here,
      kept_none, add_zero] at moved ⊢
    calc
      _ = kept (storeLeftExn none s.parent older).1.childExn +
            ((storeLeftExn none s.parent older).2.map Child.exns).sum +
            kept (leftExn s.parent older) + kept child.userExn +
            kept child.rightExn + s.deleted := by abel
      _ = _ := by
        rw [moved]
        abel
  · intro high based
    have absorbed := based.absorb
    rw [leftSlot_exnLink] at absorbed
    rw [storeBase_exnLink, List.map_cons, storeLinks_exnLink]
    simpa [Child.exnLink, ChildPc.isRunning, here] using absorbed

theorem Caught.depositExn (caught : Caught s)
    (position : s.children = younger ++ child :: older)
    (here : child.pc = .exceptionLoop map)
    (leftEmpty : leftExn s.parent older = none)
    (rightEmpty : child.rightExn = none) :
    Caught (s.depositExn younger older child map) := by
  refine caught.replace position ?_ ?_ ?_
  · simp [storeLeftExn_fst]
  · have moved := @kept_storeLeftExn _ _ s.parent child.userExn older
    rw [leftEmpty, kept_none, add_zero] at moved
    simp only [exnsOf, List.map_cons, List.sum_cons, Child.exns, here,
      rightEmpty, kept_none, add_zero, zero_add] at moved ⊢
    rw [moved]
    abel
  · intro high based
    have deposited := based.deposit (by rw [leftSlot_exnLink, leftEmpty]; rfl)
      (by simp only [Child.exnLink, rightEmpty]; rfl)
    rw [storeBase_exnLink, List.map_cons, storeLinks_exnLink]
    simpa [Child.exnLink, ChildPc.isRunning, here, rightEmpty] using deposited

end Steps

end Multicilk.Join
