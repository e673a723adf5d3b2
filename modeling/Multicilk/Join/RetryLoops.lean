import Multicilk.Join.ExceptionLoss
import Multicilk.Join.SerialOrder
import Multicilk.Support.RetryLoops

/-!
# The loops of the return protocol end

A child that finds a deposit of a sibling on its left or on its right has to
try again.  Without new children there is an end to this, whatever the parent
and the other children do meanwhile.
-/

namespace Multicilk.Join

open RetryLoops TransitionSystem

variable {M E A : Type*}

/-- Where a deposit waits: in `child_rmap` of the parent or in `right_rmap` of
a child, and likewise for an exception. -/
inductive Slot where
  | parent
  | child (spawnIndex : ℕ)

/-- The slot is full unless it holds `NULL`. -/
def Slot.full (slot : Slot) (content : Option A) : Multiset Slot :=
  if content.isSome then {slot} else 0

def Slot.ofLeft : List (Child M E) → Slot
  | [] => .parent
  | sibling :: _ => .child sibling.spawnIndex

def Child.slot (child : Child M E) : Slot := .child child.spawnIndex

/-- The full ones of the slots of the parent and of the children. -/
def fullSlots (own : Option A) (right : Child M E → Option A)
    (children : List (Child M E)) : Multiset Slot :=
  Slot.parent.full own +
    (children.map fun child => child.slot.full (right child)).sum

/-- What an iteration does that finds these in the slots of the child. -/
def Child.iteration (child : Child M E) (older : List (Child M E))
    (left active right : Option A) : Iteration ℕ Slot :=
  if left.isNone && right.isNone then {
    party := child.spawnIndex
    ends := true
    taken := 0
    deposited := (Slot.ofLeft older).full active }
  else {
    party := child.spawnIndex
    ends := false
    taken := (Slot.ofLeft older).full left + child.slot.full right
    deposited := 0 }

/-- The map of a worker that is about to take the locks. -/
def ChildPc.active : ChildPc M E → Option M
  | .exceptionLoop map => map
  | .reducerLoop map => map
  | _ => none

/-- The child has not left the exception loop. -/
def ChildPc.beforeReducers : ChildPc M E → Bool
  | .running _ | .exceptionLoop _ | .exceptionUnlocked .. => true
  | _ => false

namespace Family

variable (family : Family M E)

/-- The children from this one on to the left. -/
def childrenFrom (spawnIndex : ℕ) : List (Child M E) :=
  family.children.dropWhile fun child => child.spawnIndex != spawnIndex

def leavesExceptionLoop (child : Child M E) (older : List (Child M E)) : Bool :=
  (leftExn family.parent older).isNone && child.rightExn.isNone

def iterationAt (child : Child M E) (older : List (Child M E)) :
    Iteration ℕ Slot :=
  child.iteration older (leftRmap family.parent older) child.pc.active
    child.rightRmap

/-- The iterations of the reducer loop in a step.  The last one of the other
loop is followed by one of this loop, with the same locks. -/
def reducerIterations : Action M E → List (Iteration ℕ Slot)
  | .reducerIteration spawnIndex =>
      match family.childrenFrom spawnIndex with
      | [] => []
      | child :: older => [family.iterationAt child older]
  | .exceptionIteration spawnIndex =>
      match family.childrenFrom spawnIndex with
      | [] => []
      | child :: older =>
          if family.leavesExceptionLoop child older then
            [family.iterationAt child older]
          else []
  | _ => []

def exceptionIterations : Action M E → List (Iteration ℕ Slot)
  | .exceptionIteration spawnIndex =>
      match family.childrenFrom spawnIndex with
      | [] => []
      | child :: older =>
          [child.iteration older (leftExn family.parent older) child.userExn
            child.rightExn]
  | _ => []

def linked : Multiset ℕ := (family.children.map Child.spawnIndex : List ℕ)

def inExceptionLoop : Multiset ℕ :=
  ((family.children.filter fun child => child.pc.beforeReducers).map
    Child.spawnIndex : List ℕ)

def fullRmaps : Multiset Slot :=
  fullSlots family.parent.childRmap Child.rightRmap family.children

def fullExns : Multiset Slot :=
  fullSlots family.parent.childExn Child.rightExn family.children

end Family

namespace Action

def isSpawn : Action M E → Bool
  | .steal | .promoteOwnDeque => true
  | _ => false

def isExceptionIteration : Action M E → Bool
  | .exceptionIteration _ => true
  | _ => false

def isReducerIteration : Action M E → Bool
  | .reducerIteration _ => true
  | _ => false

end Action

section Slots

variable {own : Option A} {right : Child M E → Option A}
  {younger older : List (Child M E)} {child : Child M E}
  {left active content : Option A}

@[simp] theorem Slot.full_none (slot : Slot) :
    slot.full (none : Option A) = 0 := rfl

theorem Slot.full_eq_zero {slot : Slot} :
    slot.full content = 0 ↔ content = none := by
  cases content <;> simp [Slot.full]

theorem Slot.card_full_le (slot : Slot) : (slot.full content).card ≤ 1 := by
  cases content <;> simp [Slot.full]

theorem fullSlots_append : fullSlots own right (younger ++ older) =
    (younger.map fun child => child.slot.full (right child)).sum +
      fullSlots own right older := by
  rw [fullSlots, fullSlots, List.map_append, List.sum_append, add_left_comm]

theorem fullSlots_cons : fullSlots own right (child :: older) =
    child.slot.full (right child) + fullSlots own right older := by
  rw [fullSlots, fullSlots, List.map_cons, List.sum_cons, add_left_comm]

theorem fullSlots_middle : fullSlots own right (younger ++ child :: older) =
    child.slot.full (right child) + fullSlots own right (younger ++ older) := by
  rw [fullSlots_append, fullSlots_append, fullSlots_cons, add_left_comm]

theorem Child.iteration_proper :
    (child.iteration older left active content).Proper := by
  unfold Child.iteration
  split
  case isTrue nothing => exact ⟨nofun, fun _ => ⟨rfl, Slot.card_full_le _⟩⟩
  case isFalse something =>
    refine ⟨fun _ => ⟨?_, rfl⟩, nofun⟩
    intro empty
    obtain ⟨noLeft, noRight⟩ := (add_eq_zero_iff_of_nonneg
      (Multiset.zero_le _) (Multiset.zero_le _)).mp empty
    rw [Slot.full_eq_zero] at noLeft noRight
    exact something (by rw [noLeft, noRight]; rfl)

/-- The slot on the left of a child is emptied, or filled. -/
theorem fullSlots_storeLeftRmap (map : Option M) (parent : Parent M E) :
    fullSlots (storeLeftRmap map parent older).1.childRmap Child.rightRmap
        (younger ++ (storeLeftRmap map parent older).2) +
      (Slot.ofLeft older).full (leftRmap parent older) =
    fullSlots parent.childRmap Child.rightRmap (younger ++ older) +
      (Slot.ofLeft older).full map := by
  cases older with
  | nil =>
      simp only [fullSlots, storeLeftRmap, leftRmap, Slot.ofLeft,
        List.append_nil]
      abel
  | cons sibling older =>
      simp only [storeLeftRmap, leftRmap, Slot.ofLeft, fullSlots_middle,
        Child.slot]
      abel

theorem fullSlots_storeLeftExn (exn : Option E) (parent : Parent M E) :
    fullSlots (storeLeftExn exn parent older).1.childExn Child.rightExn
        (younger ++ (storeLeftExn exn parent older).2) +
      (Slot.ofLeft older).full (leftExn parent older) =
    fullSlots parent.childExn Child.rightExn (younger ++ older) +
      (Slot.ofLeft older).full exn := by
  cases older with
  | nil =>
      simp only [fullSlots, storeLeftExn, leftExn, Slot.ofLeft,
        List.append_nil]
      abel
  | cons sibling older =>
      simp only [storeLeftExn, leftExn, Slot.ofLeft, fullSlots_middle,
        Child.slot]
      abel

end Slots

section Views

/-- What the reducer loops of the others see of a child. -/
def Child.mapView (child : Child M E) : ℕ × Option M :=
  (child.spawnIndex, child.rightRmap)

def Child.exnView (child : Child M E) : ℕ × Option E × Bool :=
  (child.spawnIndex, child.rightExn, child.pc.beforeReducers)

variable {s next : Family M E} {older : List (Child M E)}
  {parent : Parent M E} {map : Option M} {exn : Option E}

theorem mapView_storeLeftExn :
    (storeLeftExn exn parent older).2.map Child.mapView =
      older.map Child.mapView := by
  cases older <;> rfl

theorem exnView_storeLeftRmap :
    (storeLeftRmap map parent older).2.map Child.exnView =
      older.map Child.exnView := by
  cases older <;> rfl

/-- A slot of the parent may be emptied. -/
theorem fullSlots_le {own nextOwn : Option A} {right : Child M E → Option A}
    {children nextChildren : List (Child M E)}
    (sameOwn : nextOwn = own ∨ nextOwn = none)
    (sameRight : nextChildren.map (fun child => (child.slot, right child)) =
      children.map fun child => (child.slot, right child)) :
    fullSlots nextOwn right nextChildren ≤ fullSlots own right children := by
  have rights (children : List (Child M E)) :
      children.map (fun child => child.slot.full (right child)) =
        (children.map fun child => (child.slot, right child)).map
          fun view => view.1.full view.2 := by
    rw [List.map_map]
    rfl
  rw [fullSlots, fullSlots, rights children, rights nextChildren, sameRight]
  rcases sameOwn with rfl | rfl
  · exact le_rfl
  · exact add_le_add_left (Multiset.zero_le _) _

theorem accounts_of_mapView
    (sameOwn : next.parent.childRmap = s.parent.childRmap ∨
      next.parent.childRmap = none)
    (sameViews :
      next.children.map Child.mapView = s.children.map Child.mapView) :
    Accounts ([] : List (Iteration ℕ Slot)) s.linked s.fullRmaps next.linked
      next.fullRmaps := by
  refine .nil (le_of_eq ?_) (fullSlots_le sameOwn ?_)
  · have sameIndices := congrArg (List.map Prod.fst) sameViews
    rw [List.map_map, List.map_map] at sameIndices
    exact congrArg (fun indices : List ℕ => (indices : Multiset ℕ)) sameIndices
  · have sameSlots :=
      congrArg (List.map fun view => (Slot.child view.1, view.2)) sameViews
    rwa [List.map_map, List.map_map] at sameSlots

theorem accounts_of_exnView
    (sameOwn : next.parent.childExn = s.parent.childExn ∨
      next.parent.childExn = none)
    (sameViews :
      next.children.map Child.exnView = s.children.map Child.exnView) :
    Accounts ([] : List (Iteration ℕ Slot)) s.inExceptionLoop s.fullExns
      next.inExceptionLoop next.fullExns := by
  refine .nil (le_of_eq ?_) (fullSlots_le sameOwn ?_)
  · have sameIndices := congrArg (fun views =>
      (views.filter fun view => view.2.2).map Prod.fst) sameViews
    simp only [List.filter_map, List.map_map] at sameIndices
    exact congrArg (fun indices : List ℕ => (indices : Multiset ℕ)) sameIndices
  · have sameSlots :=
      congrArg (List.map fun view => (Slot.child view.1, view.2.1)) sameViews
    rwa [List.map_map, List.map_map] at sameSlots

end Views

section Iterations

variable {forceReduce : Bool} {s middle : Family M E}
  {younger older : List (Child M E)} {child : Child M E} {map : Option M}

theorem linked_append (position : s.children = younger ++ child :: older) :
    s.linked = {child.spawnIndex} +
      ((younger.map Child.spawnIndex ++ older.map Child.spawnIndex : List ℕ) :
        Multiset ℕ) := by
  rw [Family.linked, position, List.map_append, List.map_cons,
    Multiset.singleton_add, Multiset.cons_coe, Multiset.coe_eq_coe]
  exact List.perm_middle

theorem inExceptionLoop_append
    (position : s.children = younger ++ child :: older) :
    s.inExceptionLoop =
      (if child.pc.beforeReducers then {child.spawnIndex} else 0) +
        (((younger.filter fun child => child.pc.beforeReducers).map
            Child.spawnIndex ++
          (older.filter fun child => child.pc.beforeReducers).map
            Child.spawnIndex : List ℕ) : Multiset ℕ) := by
  rw [Family.inExceptionLoop, position, List.filter_append, List.map_append,
    List.filter_cons]
  split
  · rw [List.map_cons, Multiset.singleton_add, Multiset.cons_coe,
      Multiset.coe_eq_coe]
    exact List.perm_middle
  · rw [zero_add]

theorem childrenFrom_eq (indexed : Indexed s)
    (position : s.children = younger ++ child :: older) :
    s.childrenFrom child.spawnIndex = child :: older := by
  have nodup := indexed.nodup
  rw [position, List.map_map, List.map_append, List.nodup_append] at nodup
  rw [Family.childrenFrom, position, List.dropWhile_append_of_pos,
    List.dropWhile_cons_of_neg]
  · simp
  · intro other member
    have different := nodup.2.2 _ (List.mem_map_of_mem member) _
      (List.mem_map_of_mem List.mem_cons_self)
    exact bne_iff_ne.mpr different

theorem reducerIterations_reducerIteration (indexed : Indexed s)
    (position : s.children = younger ++ child :: older) :
    s.reducerIterations (.reducerIteration child.spawnIndex) =
      [s.iterationAt child older] := by
  simp only [Family.reducerIterations, childrenFrom_eq indexed position]

theorem reducerIterations_exceptionIteration (indexed : Indexed s)
    (position : s.children = younger ++ child :: older) :
    s.reducerIterations (.exceptionIteration child.spawnIndex) =
      if (leftExn s.parent older).isNone && child.rightExn.isNone then
        [s.iterationAt child older]
      else [] := by
  simp only [Family.reducerIterations, childrenFrom_eq indexed position]
  rfl

theorem exceptionIterations_exceptionIteration (indexed : Indexed s)
    (position : s.children = younger ++ child :: older) :
    s.exceptionIterations (.exceptionIteration child.spawnIndex) =
      [child.iteration older (leftExn s.parent older) child.userExn
        child.rightExn] := by
  simp only [Family.exceptionIterations, childrenFrom_eq indexed position]

variable [Monoid M]

/-- The parent may take its map when its last child is gone. -/
theorem fullRmaps_finishReturn (joined : Joined forceReduce s)
    (same : SameJoin s middle)
    (linked : s.children.length = middle.children.length + 1)
    (noUser : forceReduce = true → middle.parent.userRmap = none) :
    middle.finishReturn.fullRmaps ≤ middle.fullRmaps := by
  rcases joined.finishReturn_cases same linked with
    ⟨-, -, result⟩ | ⟨-, -, -, -, unsynched, result⟩
  · rw [result]
    exact le_rfl
  · rw [result]
    refine fullSlots_le ?_ rfl
    cases simulated : middle.parent.simulatedStolen with
    | true =>
        have forced := joined.simulated (same.simulated ▸ simulated)
        left
        simp only [Family.resume, simulated, noUser forced]
        cases middle.parent.childRmap <;> rfl
    | false =>
        right
        simp [Family.resume, simulated]

theorem fullExns_finishReturn (joined : Joined forceReduce s)
    (same : SameJoin s middle)
    (linked : s.children.length = middle.children.length + 1) :
    middle.finishReturn.fullExns ≤ middle.fullExns := by
  rcases joined.finishReturn_cases same linked with
    ⟨-, -, result⟩ | ⟨-, -, -, -, unsynched, result⟩
  · rw [result]
    exact le_rfl
  · rw [result]
    refine fullSlots_le (.inr ?_) rfl
    simp [Family.resume, Parent.reduceException_eq]

theorem accounts_reducerIteration (joined : Joined forceReduce s)
    (noUser : forceReduce = true → s.parent.userRmap = none)
    (position : s.children = younger ++ child :: older)
    (active : child.pc.active = map) :
    Accounts [s.iterationAt child older] s.linked s.fullRmaps
      (s.reducerIteration younger older child map).linked
      (s.reducerIteration younger older child map).fullRmaps := by
  have sameOlder (map : Option M) :
      (storeLeftRmap map s.parent older).2.map Child.spawnIndex =
        older.map Child.spawnIndex := by
    cases older <;> rfl
  have before : s.fullRmaps = child.slot.full child.rightRmap +
      fullSlots s.parent.childRmap Child.rightRmap (younger ++ older) := by
    rw [Family.fullRmaps, position, fullSlots_middle]
  have proper : ∀ iteration ∈ [s.iterationAt child older],
      iteration.Proper := by
    intro iteration member
    rw [List.mem_singleton.mp member]
    exact Child.iteration_proper
  unfold Family.reducerIteration
  split
  case isTrue nothing =>
    have ends : s.iterationAt child older =
        ⟨child.spawnIndex, true, 0, (Slot.ofLeft older).full map⟩ := by
      rw [Family.iterationAt, Child.iteration, if_pos nothing, active]
    rw [Bool.and_eq_true, Option.isNone_iff_eq_none,
      Option.isNone_iff_eq_none] at nothing
    constructor
    case proper => exact proper
    case parties =>
      rw [ends, linked_append position, Family.linked,
        (finishReturn_children _).1]
      simp only [Family.depositRmap, List.map_append, sameOlder]
      exact le_rfl
    case slots =>
      have stored :=
        @fullSlots_storeLeftRmap _ _ younger older map s.parent
      rw [nothing.1, Slot.full_none, add_zero] at stored
      have after : (s.depositRmap younger older map).fullRmaps =
          s.fullRmaps + (Slot.ofLeft older).full map := by
        rw [before, nothing.2, Slot.full_none, zero_add]
        exact stored
      rw [ends, taken_cons, taken_nil, deposited_cons, deposited_nil,
        add_zero, add_zero, zero_add, ← after]
      refine fullRmaps_finishReturn joined (sameJoin_storeLeftRmap _) ?_ ?_
      · simp [Family.depositRmap, storeLeftRmap_snd, position, Nat.add_assoc]
      · simpa [Family.depositRmap, storeLeftRmap_fst] using noUser
  case isFalse something =>
    have retries : s.iterationAt child older = ⟨child.spawnIndex, false,
        (Slot.ofLeft older).full (leftRmap s.parent older) +
          child.slot.full child.rightRmap, 0⟩ := by
      rw [Family.iterationAt, Child.iteration, if_neg something]
    constructor
    case proper => exact proper
    case parties =>
      have same : (s.takeRmaps younger older child map).linked = s.linked := by
        simp only [Family.linked, Family.takeRmaps, position, List.map_append,
          List.map_cons, sameOlder]
      rw [retries, same]
      exact (zero_add _).le
    case slots =>
      have stored :=
        @fullSlots_storeLeftRmap _ _ younger older none s.parent
      rw [Slot.full_none, add_zero] at stored
      have after : (s.takeRmaps younger older child map).fullRmaps =
          fullSlots (storeLeftRmap none s.parent older).1.childRmap
            Child.rightRmap
            (younger ++ (storeLeftRmap none s.parent older).2) := by
        rw [Family.fullRmaps, Family.takeRmaps, fullSlots_middle,
          Slot.full_none, zero_add]
      rw [retries, taken_cons, taken_nil, deposited_cons, deposited_nil, after,
        before, ← stored]
      dsimp only
      apply le_of_eq
      abel

/-- The reducer loop does not add exceptions. -/
theorem accounts_reducerIteration_exns (joined : Joined forceReduce s)
    (position : s.children = younger ++ child :: older)
    (left : child.pc.beforeReducers = false) :
    Accounts [] s.inExceptionLoop s.fullExns
      (s.reducerIteration younger older child map).inExceptionLoop
      (s.reducerIteration younger older child map).fullExns := by
  unfold Family.reducerIteration
  split
  case isTrue nothing =>
    have unlinked : Accounts [] s.inExceptionLoop s.fullExns
        (s.depositRmap younger older map).inExceptionLoop
        (s.depositRmap younger older map).fullExns := by
      have without : Accounts [] s.inExceptionLoop s.fullExns
          { s with children := younger ++ older }.inExceptionLoop
          { s with children := younger ++ older }.fullExns := by
        apply Accounts.nil
        · simp [Family.inExceptionLoop, position, left]
        · rw [Family.fullExns, Family.fullExns, position, fullSlots_middle]
          exact Multiset.le_add_left _ _
      refine without.append (accounts_of_exnView (.inl ?_) ?_)
      · simp [Family.depositRmap, storeLeftRmap_fst]
      · simp only [Family.depositRmap, List.map_append, exnView_storeLeftRmap]
    refine unlinked.append (.nil (le_of_eq ?_) ?_)
    · rw [Family.inExceptionLoop, (finishReturn_children _).1]
      rfl
    · refine fullExns_finishReturn joined
        (@sameJoin_storeLeftRmap _ _ s older map _) ?_
      simp [Family.depositRmap, storeLeftRmap_snd, position, Nat.add_assoc]
  case isFalse something =>
    apply accounts_of_exnView
    · simp [Family.takeRmaps, storeLeftRmap_fst]
    · simp only [Family.takeRmaps, position, List.map_append, List.map_cons,
        exnView_storeLeftRmap, Child.exnView, left]
      rfl

theorem accounts_exceptionIteration (joined : Joined forceReduce s)
    (position : s.children = younger ++ child :: older)
    (here : child.pc = .exceptionLoop map) :
    Accounts [child.iteration older (leftExn s.parent older) child.userExn
        child.rightExn] s.inExceptionLoop s.fullExns
      (s.exceptionIteration younger older child map).inExceptionLoop
      (s.exceptionIteration younger older child map).fullExns := by
  have before : s.fullExns = child.slot.full child.rightExn +
      fullSlots s.parent.childExn Child.rightExn (younger ++ older) := by
    rw [Family.fullExns, position, fullSlots_middle]
  have proper : ∀ iteration ∈ [child.iteration older
      (leftExn s.parent older) child.userExn child.rightExn],
      iteration.Proper := by
    intro iteration member
    rw [List.mem_singleton.mp member]
    exact Child.iteration_proper
  have inside : child.pc.beforeReducers = true := by rw [here]; rfl
  have sameOlder (exn : Option E) :
      ((storeLeftExn exn s.parent older).2.filter
        fun child => child.pc.beforeReducers).map Child.spawnIndex =
        (older.filter fun child => child.pc.beforeReducers).map
          Child.spawnIndex := by
    cases older with
    | nil => rfl
    | cons sibling older =>
        simp only [storeLeftExn, List.filter_cons]
        split <;> rfl
  unfold Family.exceptionIteration
  split
  case isTrue nothing =>
    have ends : child.iteration older (leftExn s.parent older) child.userExn
        child.rightExn = ⟨child.spawnIndex, true, 0,
          (Slot.ofLeft older).full child.userExn⟩ :=
      if_pos nothing
    have deposits : Accounts [child.iteration older (leftExn s.parent older)
        child.userExn child.rightExn] s.inExceptionLoop s.fullExns
        (s.depositExn younger older child map).inExceptionLoop
        (s.depositExn younger older child map).fullExns := by
      rw [Bool.and_eq_true, Option.isNone_iff_eq_none,
        Option.isNone_iff_eq_none] at nothing
      constructor
      case proper => exact proper
      case parties =>
        have after := @inExceptionLoop_append _ _
          (s.depositExn younger older child map) younger _ _ rfl
        rw [sameOlder, if_neg (by exact Bool.false_ne_true), zero_add] at after
        rw [ends, after, inExceptionLoop_append position, if_pos inside]
        exact le_rfl
      case slots =>
        have stored := @fullSlots_storeLeftExn _ _ younger older child.userExn
          s.parent
        rw [nothing.1, Slot.full_none, add_zero] at stored
        rw [ends, taken_cons, taken_nil, deposited_cons, deposited_nil,
          add_zero, add_zero, zero_add, before, nothing.2, Slot.full_none,
          zero_add, ← stored, Family.fullExns, Family.depositExn,
          fullSlots_middle]
        dsimp only
        rw [nothing.2, Slot.full_none, zero_add]
    exact deposits.append (accounts_reducerIteration_exns
      (joined.depositExn position) rfl rfl)
  case isFalse something =>
    have retries : child.iteration older (leftExn s.parent older)
        child.userExn child.rightExn = ⟨child.spawnIndex, false,
          (Slot.ofLeft older).full (leftExn s.parent older) +
            child.slot.full child.rightExn, 0⟩ :=
      if_neg something
    constructor
    case proper => exact proper
    case parties =>
      have same : (s.takeExns younger older child map).inExceptionLoop =
          s.inExceptionLoop := by
        have after := @inExceptionLoop_append _ _
          (s.takeExns younger older child map) younger _ _ rfl
        rw [sameOlder] at after
        rw [after, inExceptionLoop_append position, if_pos inside]
        rfl
      rw [retries, same]
      exact (zero_add _).le
    case slots =>
      have stored :=
        @fullSlots_storeLeftExn _ _ younger older none s.parent
      rw [Slot.full_none, add_zero] at stored
      have after : (s.takeExns younger older child map).fullExns =
          fullSlots (storeLeftExn none s.parent older).1.childExn
            Child.rightExn
            (younger ++ (storeLeftExn none s.parent older).2) := by
        rw [Family.fullExns, Family.takeExns, fullSlots_middle,
          Slot.full_none, zero_add]
      rw [retries, taken_cons, taken_nil, deposited_cons, deposited_nil, after,
        before, ← stored]
      dsimp only
      apply le_of_eq
      abel

end Iterations

section Steps

variable [Monoid M] {forceReduce : Bool} {s next : Family M E}
  {action : Action M E}

/-- The map and the exception of the parent may be given up. -/
theorem accounts_quiet (noSpawn : action.isSpawn = false)
    (notReturn : action.isReturn = false)
    (taken : Step forceReduce s action next) :
    Accounts ([] : List (Iteration ℕ Slot)) s.linked s.fullRmaps next.linked
        next.fullRmaps ∧
      Accounts ([] : List (Iteration ℕ Slot)) s.inExceptionLoop s.fullExns
        next.inExceptionLoop next.fullExns := by
  cases taken
  case steal | promoteOwnDeque => cases noSpawn
  case exceptionIteration | reducerIteration => cases notReturn
  case contributeChild younger older child map view position here =>
    refine ⟨accounts_of_mapView (.inl rfl) ?_,
      accounts_of_exnView (.inl rfl) ?_⟩
    · simp [position, Child.mapView]
    · simp [position, Child.exnView, ChildPc.beforeReducers, here]
  case finishChild younger older child map exn position here =>
    refine ⟨accounts_of_mapView (.inl rfl) ?_,
      accounts_of_exnView (.inl rfl) ?_⟩
    · simp [position, Child.mapView]
    · simp [position, Child.exnView, ChildPc.beforeReducers, here]
  case exceptionReduce younger older child map left right position here =>
    refine ⟨accounts_of_mapView (.inl rfl) ?_,
      accounts_of_exnView (.inl rfl) ?_⟩
    · simp [position, Child.mapView]
    · simp [position, Child.exnView, ChildPc.beforeReducers, here]
  case reducerReduce younger older child left active right position here =>
    refine ⟨accounts_of_mapView (.inl rfl) ?_,
      accounts_of_exnView (.inl rfl) ?_⟩
    · simp [position, Child.mapView]
    · simp [position, Child.exnView, ChildPc.beforeReducers, here]
  case sync map exn here unsynched =>
    unfold Family.cilkSync
    split <;> exact ⟨accounts_of_mapView (.inl rfl) rfl,
      accounts_of_exnView (.inl rfl) rfl⟩
  case finishSync map here =>
    refine ⟨accounts_of_mapView (.inr rfl) rfl,
      accounts_of_exnView (.inr ?_) rfl⟩
    simp [Family.finishSync, Parent.reduceException_eq]
  all_goals
    exact ⟨accounts_of_mapView (.inl rfl) rfl,
      accounts_of_exnView (.inl rfl) rfl⟩

theorem accounts_reducerIterations (joined : Joined forceReduce s)
    (ordered : Ordered forceReduce s) (indexed : Indexed s)
    (noSpawn : action.isSpawn = false)
    (taken : Step forceReduce s action next) :
    Accounts (s.reducerIterations action) s.linked s.fullRmaps next.linked
      next.fullRmaps := by
  have noUser : forceReduce = true → s.parent.userRmap = none :=
    fun forced => ordered.userRmap (.inr forced)
  cases isReturn : action.isReturn with
  | false =>
      have none : s.reducerIterations action = [] := by
        cases action <;> first | rfl | cases isReturn
      rw [none]
      exact (accounts_quiet noSpawn isReturn taken).1
  | true =>
      cases taken
      case reducerIteration younger older child map position here =>
        rw [reducerIterations_reducerIteration indexed position]
        exact accounts_reducerIteration joined noUser position
          (by rw [here]; rfl)
      case exceptionIteration younger older child map position here =>
        rw [reducerIterations_exceptionIteration indexed position]
        unfold Family.exceptionIteration
        split
        case isTrue nothing =>
          have deposits : Accounts ([] : List (Iteration ℕ Slot)) s.linked
              s.fullRmaps (s.depositExn younger older child map).linked
              (s.depositExn younger older child map).fullRmaps := by
            refine accounts_of_mapView (.inl ?_) ?_
            · simp [Family.depositExn, storeLeftExn_fst]
            · simp only [Family.depositExn, position, List.map_append,
                List.map_cons, mapView_storeLeftExn]
              rfl
          have same : (s.depositExn younger older child map).iterationAt
              { child with pc := .reducerLoop map }
              (storeLeftExn child.userExn s.parent older).2 =
                s.iterationAt child older := by
            have active : child.pc.active = map := by rw [here]; rfl
            rw [Family.iterationAt, Family.iterationAt, active]
            cases older <;> rfl
          rw [← same]
          refine deposits.append (accounts_reducerIteration
            (joined.depositExn position) ?_ rfl rfl)
          simpa [Family.depositExn, storeLeftExn_fst] using noUser
        case isFalse something =>
          refine accounts_of_mapView (.inl ?_) ?_
          · simp [Family.takeExns, storeLeftExn_fst]
          · simp only [Family.takeExns, position, List.map_append,
              List.map_cons, mapView_storeLeftExn]
            rfl
      all_goals cases isReturn

theorem accounts_exceptionIterations (joined : Joined forceReduce s)
    (indexed : Indexed s) (noSpawn : action.isSpawn = false)
    (taken : Step forceReduce s action next) :
    Accounts (s.exceptionIterations action) s.inExceptionLoop s.fullExns
      next.inExceptionLoop next.fullExns := by
  cases isReturn : action.isReturn with
  | false =>
      have none : s.exceptionIterations action = [] := by
        cases action <;> first | rfl | cases isReturn
      rw [none]
      exact (accounts_quiet noSpawn isReturn taken).2
  | true =>
      cases taken
      case reducerIteration younger older child map position here =>
        exact accounts_reducerIteration_exns joined position
          (by rw [here]; rfl)
      case exceptionIteration younger older child map position here =>
        rw [exceptionIterations_exceptionIteration indexed position]
        exact accounts_exceptionIteration joined position here
      all_goals cases isReturn

/-- No iteration is forgotten. -/
theorem iterations_counted (indexed : Indexed s)
    (taken : Step forceReduce s action next) :
    (s.exceptionIterations action).length =
        action.isExceptionIteration.toNat ∧
      (s.reducerIterations action).length =
        action.isReducerIteration.toNat +
          (ended (s.exceptionIterations action)).length := by
  cases taken
  case exceptionIteration younger older child map position here =>
    rw [exceptionIterations_exceptionIteration indexed position,
      reducerIterations_exceptionIteration indexed position]
    unfold Child.iteration
    split <;> exact ⟨rfl, rfl⟩
  case reducerIteration younger older child map position here =>
    rw [reducerIterations_reducerIteration indexed position]
    exact ⟨rfl, rfl⟩
  all_goals exact ⟨rfl, rfl⟩

end Steps

/-- While no child is spawned, each of the two loops has at most two iterations
for every linked child, and one for every deposit that was there. -/
theorem retry_loops_bounded [Monoid M] {forceReduce waits : Bool}
    {start final : Family M E}
    {before trace : List (Family M E × Action M E)}
    (reached : Run (Step forceReduce) (initial waits) before start)
    (run : Run (Step forceReduce) start trace final)
    (noSpawn : Meets (fun _ action => action.isSpawn = false) trace) :
    Bounded (trace.flatMap fun entry => entry.1.reducerIterations entry.2)
        start.linked start.fullRmaps final.fullRmaps ∧
      Bounded (trace.flatMap fun entry => entry.1.exceptionIterations entry.2)
        start.linked start.fullExns final.fullExns ∧
      start.linked.card = start.children.length ∧
      ∀ s action, (s, action) ∈ trace →
        (s.exceptionIterations action).length =
            action.isExceptionIteration.toNat ∧
          (s.reducerIterations action).length =
            action.isReducerIteration.toNat +
              (ended (s.exceptionIterations action)).length := by
  obtain ⟨invariant, isInvariant⟩ : ∃ invariant : Family M E → Prop,
      invariant = fun s =>
        Joined forceReduce s ∧ Ordered forceReduce s ∧ Indexed s := ⟨_, rfl⟩
  have preserved (source : Family M E) (action : Action M E)
      (target : Family M E) (holds : invariant source)
      (taken : Step forceReduce source action target) : invariant target := by
    subst isInvariant
    obtain ⟨joined, ordered, indexed⟩ := holds
    exact ⟨joined.step taken, ordered.step joined taken, indexed.step taken⟩
  have atStart : invariant start := by
    apply reached.invariant _ preserved
    subst isInvariant
    exact ⟨joined_initial .., ordered_initial .., indexed_initial waits⟩
  have nodup : start.linked.Nodup := by
    subst isInvariant
    have nodup := atStart.2.2.nodup
    rw [List.map_map] at nodup
    exact Multiset.coe_nodup.mpr nodup
  have inside : start.inExceptionLoop ≤ start.linked :=
    Multiset.coe_le.mpr (List.filter_sublist.map _).subperm
  refine ⟨?_, ?_, by simp [Family.linked], ?_⟩
  · have accounts := accounts_run run noSpawn atStart preserved
      fun source action target holds noSpawn taken => by
        subst isInvariant
        exact accounts_reducerIterations holds.1 holds.2.1 holds.2.2 noSpawn
          taken
    exact accounts.bounded nodup
  · have accounts := accounts_run run noSpawn atStart preserved
      fun source action target holds noSpawn taken => by
        subst isInvariant
        exact accounts_exceptionIterations holds.1 holds.2.2 noSpawn taken
    exact (accounts.bounded (Multiset.nodup_of_le inside nodup)).mono inside
  · intro s action member
    obtain ⟨_, _, target, -, earlier, taken, -⟩ := run.split_at_step member
    have holds := earlier.invariant atStart preserved
    subst isInvariant
    exact iterations_counted holds.2.2 taken

/-- Two thieves have taken the continuation, one after the other. -/
def stolenTwice : Family (FreeMonoid ℕ) ℕ :=
  let stolen := (initial false).promoteChild none .ready false (.ready none)
  { stolen with
    parent := { stolen.parent with status := .running }
    strand := .running none }.promoteChild none .ready false (.ready none)

/-- The older of two children finds the map of the younger one. -/
theorem retry_loops_bounded_stolenTwice :
    ∃ trace : List (Family (FreeMonoid ℕ) ℕ × Action (FreeMonoid ℕ) ℕ),
      (trace.flatMap fun entry => entry.1.reducerIterations entry.2).length =
          3 ∧
        (trace.flatMap fun entry =>
          entry.1.reducerIterations entry.2).length ≤
            2 * stolenTwice.linked.card + stolenTwice.fullRmaps.card := by
  have reached : Run (Step false) (initial false) _ stolenTwice :=
    ((Run.refl.snoc (.steal rfl rfl)).snoc (.execute rfl rfl)).snoc
      (.steal rfl rfl)
  have run := ((((((((@Run.refl _ _ (Step false) stolenTwice).snoc
      (@Step.contributeChild _ _ _ _ _ [] [_] _ _ (FreeMonoid.of 7) rfl
        rfl)).snoc
      (@Step.finishChild _ _ _ _ _ [] [_] _ _ none rfl rfl)).snoc
      (@Step.exceptionIteration _ _ _ _ _ [] [_] _ _ rfl rfl)).snoc
      (@Step.finishChild _ _ _ _ _ [] [] _ _ none rfl rfl)).snoc
      (@Step.exceptionIteration _ _ _ _ _ [] [] _ _ rfl rfl)).snoc
      (@Step.reducerReduce _ _ _ _ _ [] [] _ _ _ _ rfl rfl)).snoc
      (@Step.reducerIteration _ _ _ _ _ [] [] _ _ rfl rfl))
  obtain ⟨bounded, -⟩ := retry_loops_bounded reached run (by
    simp [Meets, Action.isSpawn])
  exact ⟨_, rfl, bounded.length⟩

end Multicilk.Join
