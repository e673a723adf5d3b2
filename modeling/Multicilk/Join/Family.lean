import Mathlib.Algebra.Group.Defs
import Mathlib.Data.Nat.Notation
import Multicilk.Scheduler.Status

/-!
# A parent closure and its spawned children

The parent runs, is stolen from, calls, returns and syncs, while any number of
its children return.  A reducer map is an element of a monoid, with `NULL` as
the unit.  What `Closure_return` and `Cilk_sync` do between taking and giving
back the locks is one step.  What they do without a lock is another one, and
others may come in between.
-/

namespace Multicilk.Join

section Maps

variable {M : Type*} [Monoid M]

/-- What a reducer map stands for. -/
def value (map : Option M) : M := map.getD 1

/-- `__cilkrts_internal_merge_two_rmaps`. -/
def mergeTwoRmaps : Option M → Option M → Option M
  | none, right => right
  | left, none => left
  | some left, some right => some (left * right)

/-- A strand updates its views; the map is made when it is first needed. -/
def updateViews (map : Option M) (view : M) : Option M :=
  some (value map * view)

@[simp] theorem value_none : value (none : Option M) = 1 := rfl

@[simp] theorem value_mergeTwoRmaps (left right : Option M) :
    value (mergeTwoRmaps left right) = value left * value right := by
  cases left <;> cases right <;> simp [mergeTwoRmaps, value]

@[simp] theorem value_updateViews (map : Option M) (view : M) :
    value (updateViews map view) = value map * view := rfl

end Maps

/-- Where the worker of a child is, and the maps it has for it. -/
inductive ChildPc (M E : Type*) where
  | running (map : Option M)
  /-- In `Closure_return`, before the locks are taken for the first loop. -/
  | exceptionLoop (map : Option M)
  | exceptionUnlocked (map : Option M) (left right : Option E)
  /-- Before the locks are taken again for the second loop. -/
  | reducerLoop (map : Option M)
  | reducerUnlocked (left active right : Option M)

def ChildPc.isRunning {M E : Type*} : ChildPc M E → Bool
  | .running _ => true
  | _ => false

structure Child (M E : Type*) where
  spawnIndex : ℕ
  rightRmap : Option M
  rightExn : Option E
  userExn : Option E
  pc : ChildPc M E

structure Parent (M E : Type*) where
  status : ClosureStatus
  joinCounter : ℕ
  hasCilkCallee : Bool
  simulatedStolen : Bool
  childRmap : Option M
  userRmap : Option M
  childExn : Option E
  userExn : Option E
  /-- `CILK_FRAME_UNSYNCHED` in the flags of the frame. -/
  unsynched : Bool
  /-- `CILK_FRAME_EXCEPTION_PENDING` in the flags of the frame. -/
  exceptionPending : Bool

/-- Who goes on with the parent, and the map that this worker has for it. -/
inductive Strand (M : Type*) where
  | running (map : Option M)
  /-- Next closure to execute of some worker. -/
  | ready (map : Option M)
  /-- `Cilk_sync` has found no children and has not merged yet. -/
  | syncing (map : Option M)
  /-- A closure for a frame inside a stolen stacklet, without its callee. -/
  | created
  /-- The callee runs. -/
  | callee (map : Option M)
  /-- Suspended by `Cilk_sync` or `promote_own_deque`. -/
  | parked

structure Family (M E : Type*) where
  parent : Parent M E
  /-- The linked children, from the right-most to the left-most. -/
  children : List (Child M E)
  strand : Strand M
  /-- The number of children that have been spawned. -/
  spawned : ℕ
  /-- The views that were contributed, with their serial positions. -/
  contributions : List (ℕ × M)
  /-- The exceptions that were thrown, with their serial positions. -/
  thrown : List (ℕ × E)
  /-- The exceptions passed to `_Unwind_DeleteException`. -/
  deleted : List E
  /-- How many syncs have suspended the parent, how many of these have been
  completed by a child, and how many syncs have been passed. -/
  suspensions : ℕ
  completions : ℕ
  syncs : ℕ

variable {M E : Type*}

/-- The position of what a child contributes, and of what the parent
contributes after so many spawns. -/
def childPosition (spawnIndex : ℕ) : ℕ := 2 * spawnIndex + 1

def tracePosition (spawned : ℕ) : ℕ := 2 * spawned

namespace Parent

/-- `Closure_has_children`. -/
def hasChildren (parent : Parent M E) : Bool :=
  parent.hasCilkCallee || parent.joinCounter != 0

/-- `Closure_make_ready`. -/
def makeReady (parent : Parent M E) : Parent M E :=
  { parent with status := .ready }

def setupForSync (parent : Parent M E) : Parent M E :=
  { parent with unsynched := false }

def childGone (parent : Parent M E) : Parent M E :=
  { parent with joinCounter := parent.joinCounter - 1 }

def unconditionalSteal (parent : Parent M E) : Parent M E :=
  parent.makeReady

def provablyGoodStealMaybe (parent : Parent M E) : Option (Parent M E) :=
  if !parent.hasChildren && parent.status = .suspended then
    some parent.setupForSync.makeReady
  else none

/-- The exceptions of the children replace that of the parent. -/
def reduceException (parent : Parent M E) : Parent M E :=
  match parent.childExn with
  | none => parent
  | some exn =>
      { parent with
        childExn := none
        userExn := some exn
        exceptionPending := true }

theorem reduceException_eq (parent : Parent M E) :
    parent.reduceException = { parent with
      childExn := none
      userExn := parent.childExn.or parent.userExn
      exceptionPending :=
        parent.childExn.isSome || parent.exceptionPending } := by
  unfold reduceException
  cases parent
  split <;> simp_all

/-- What `reduceException` deletes. -/
def replacedException (parent : Parent M E) : List E :=
  match parent.childExn with
  | none => []
  | some _ => parent.userExn.toList

end Parent

section LeftSlots

/-- The slots on the left of a child: those of its left sibling, or those of
the parent. -/
def leftRmap (parent : Parent M E) : List (Child M E) → Option M
  | [] => parent.childRmap
  | sibling :: _ => sibling.rightRmap

def leftExn (parent : Parent M E) : List (Child M E) → Option E
  | [] => parent.childExn
  | sibling :: _ => sibling.rightExn

def storeLeftRmap (map : Option M) (parent : Parent M E) :
    List (Child M E) → Parent M E × List (Child M E)
  | [] => ({ parent with childRmap := map }, [])
  | sibling :: older => (parent, { sibling with rightRmap := map } :: older)

def storeLeftExn (exn : Option E) (parent : Parent M E) :
    List (Child M E) → Parent M E × List (Child M E)
  | [] => ({ parent with childExn := exn }, [])
  | sibling :: older => (parent, { sibling with rightExn := exn } :: older)

variable {map : Option M} {exn : Option E} {parent : Parent M E}
  {older : List (Child M E)}

theorem storeLeftRmap_fst : (storeLeftRmap map parent older).1 =
    { parent with
      childRmap := if older = [] then map else parent.childRmap } := by
  cases older <;> rfl

theorem storeLeftRmap_snd : (storeLeftRmap map parent older).2 =
    older.modifyHead fun sibling => { sibling with rightRmap := map } := by
  cases older <;> rfl

theorem storeLeftExn_fst : (storeLeftExn exn parent older).1 =
    { parent with
      childExn := if older = [] then exn else parent.childExn } := by
  cases older <;> rfl

theorem storeLeftExn_snd : (storeLeftExn exn parent older).2 =
    older.modifyHead fun sibling => { sibling with rightExn := exn } := by
  cases older <;> rfl

end LeftSlots

/-- What the first loop does without the locks: the exception that is kept,
and those that are deleted. -/
def reduceExceptions (left user right : Option E) : Option E × List E :=
  match left, user with
  | some left, user => (some left, user.toList ++ right.toList)
  | none, some user => (some user, right.toList)
  | none, none => (right, [])

namespace Family

variable [Monoid M]

/-- The end of `Closure_return` when it returns the parent. -/
def resume (family : Family M E) (parent : Parent M E) : Family M E :=
  let merged := mergeTwoRmaps parent.childRmap parent.userRmap
  { family with
    parent := { parent.reduceException with
      childRmap := if parent.simulatedStolen then merged else none
      userRmap := none }
    strand := .ready (if parent.simulatedStolen then none else merged)
    deleted := family.deleted ++ parent.replacedException
    completions :=
      if parent.simulatedStolen then family.completions
      else family.completions + 1
    syncs :=
      if parent.simulatedStolen then family.syncs else family.syncs + 1 }

/-- The end of `Closure_return`, after the child has been unlinked. -/
def finishReturn (family : Family M E) : Family M E :=
  if family.parent.simulatedStolen then
    family.resume family.parent.childGone.unconditionalSteal
  else
    match family.parent.childGone.provablyGoodStealMaybe with
    | some ready => family.resume ready
    | none => { family with parent := family.parent.childGone }

section Iterations

variable (family : Family M E) (younger older : List (Child M E))

/-- The child between these siblings leaves its map on the left and is
unlinked. -/
def depositRmap (map : Option M) : Family M E :=
  { family with
    parent := (storeLeftRmap map family.parent older).1
    children := younger ++ (storeLeftRmap map family.parent older).2 }

def takeRmaps (child : Child M E) (map : Option M) : Family M E :=
  { family with
    parent := (storeLeftRmap none family.parent older).1
    children := younger ++
      { child with
        rightRmap := none
        pc := .reducerUnlocked (leftRmap family.parent older) map
          child.rightRmap } :: (storeLeftRmap none family.parent older).2 }

/-- One iteration of the reducer loop, with the locks of the parent and of the
child. -/
def reducerIteration (child : Child M E) (map : Option M) : Family M E :=
  if (leftRmap family.parent older).isNone && child.rightRmap.isNone then
    (family.depositRmap younger older map).finishReturn
  else family.takeRmaps younger older child map

def takeExns (child : Child M E) (map : Option M) : Family M E :=
  { family with
    parent := (storeLeftExn none family.parent older).1
    children := younger ++
      { child with
        rightExn := none
        pc := .exceptionUnlocked map (leftExn family.parent older)
          child.rightExn } :: (storeLeftExn none family.parent older).2 }

def depositExn (child : Child M E) (map : Option M) : Family M E :=
  { family with
    parent := (storeLeftExn child.userExn family.parent older).1
    children := younger ++
      { child with pc := .reducerLoop map } ::
        (storeLeftExn child.userExn family.parent older).2 }

/-- One iteration of the exception loop.  The last one leaves the exception on
the left and goes on to the reducer loop with the locks. -/
def exceptionIteration (child : Child M E) (map : Option M) : Family M E :=
  if (leftExn family.parent older).isNone && child.rightExn.isNone then
    (family.depositExn younger older child map).reducerIteration younger
      (storeLeftExn child.userExn family.parent older).2
      { child with pc := .reducerLoop map } map
  else family.takeExns younger older child map

end Iterations

/-- `promote_child`: the worker of the parent goes on with the child. -/
def promoteChild (family : Family M E) (map : Option M)
    (status : ClosureStatus) (simulatedStolen : Bool) (strand : Strand M) :
    Family M E :=
  { family with
    parent := { family.parent with
      status
      joinCounter := family.parent.joinCounter + 1
      simulatedStolen := simulatedStolen || family.parent.simulatedStolen
      unsynched := true }
    children :=
      { spawnIndex := family.spawned
        rightRmap := none
        rightExn := none
        userExn := none
        pc := .running map } :: family.children
    strand
    spawned := family.spawned + 1 }

/-- The continuation gets to the next sync, maybe by an exception, which the
personality function stores before it calls `__cilkrts_sync`. -/
def leaveTrace (family : Family M E) (exn : Option E) : Family M E :=
  { family with
    parent := { family.parent with
      userExn := if exn.isSome then exn else family.parent.userExn }
    thrown := family.thrown ++
      exn.toList.map (tracePosition family.spawned, ·) }

/-- The critical section of `Cilk_sync`. -/
def cilkSync (family : Family M E) (map : Option M) : Family M E :=
  if family.parent.hasChildren then
    { family with
      parent := { family.parent with
        status := .suspended
        userRmap := map }
      strand := .parked
      suspensions := family.suspensions + 1 }
  else
    { family with
      parent := family.parent.setupForSync
      strand := .syncing map }

/-- What `Cilk_sync` does after it has given back the locks. -/
def finishSync (family : Family M E) (map : Option M) : Family M E :=
  { family with
    parent := { family.parent.reduceException with
      childRmap := none
      simulatedStolen := false }
    strand := .running (mergeTwoRmaps family.parent.childRmap map)
    deleted := family.deleted ++ family.parent.replacedException
    syncs := family.syncs + 1 }

end Family

inductive Action (M E : Type*) where
  | contributeTrace (view : M)
  | contributeChild (spawnIndex : ℕ) (view : M)
  | steal
  | promoteOwnDeque
  | execute
  | promoteCallee
  | addCallee
  | setReturn
  | finishChild (spawnIndex : ℕ) (exn : Option E)
  | exceptionIteration (spawnIndex : ℕ)
  | exceptionReduce (spawnIndex : ℕ)
  | reducerIteration (spawnIndex : ℕ)
  | reducerReduce (spawnIndex : ℕ)
  | sync (exn : Option E)
  | finishSync
  | checkException

section Step

variable [Monoid M] (forceReduce : Bool)

/-- The steps of the family.  With `CILK_FORCE_REDUCE` there is one worker,
which steals from itself. -/
inductive Step : Family M E → Action M E → Family M E → Prop where
  | contributeTrace {s : Family M E} {map : Option M} {view : M} :
      s.strand = .running map →
      Step s (.contributeTrace view) { s with
        strand := .running (updateViews map view)
        contributions :=
          s.contributions ++ [(tracePosition s.spawned, view)] }
  | contributeCallee {s : Family M E} {map : Option M} {view : M} :
      s.strand = .callee map →
      Step s (.contributeTrace view) { s with
        strand := .callee (updateViews map view)
        contributions :=
          s.contributions ++ [(tracePosition s.spawned, view)] }
  | contributeChild {s : Family M E} {younger older : List (Child M E)}
      {child : Child M E} {map : Option M} {view : M} :
      s.children = younger ++ child :: older → child.pc = .running map →
      Step s (.contributeChild child.spawnIndex view) { s with
        children := younger ++
          { child with pc := .running (updateViews map view) } :: older
        contributions :=
          s.contributions ++ [(childPosition child.spawnIndex, view)] }
  | steal {s : Family M E} {map : Option M} :
      forceReduce = false → s.strand = .running map →
      Step s .steal (s.promoteChild map .ready false (.ready none))
  | promoteOwnDeque {s : Family M E} {map : Option M} :
      forceReduce = true → s.strand = .running map →
      Step s .promoteOwnDeque (s.promoteChild map .suspended true .parked)
  | execute {s : Family M E} {map : Option M} :
      s.strand = .ready map → s.parent.status = .ready →
      Step s .execute { s with
        parent := { s.parent with status := .running }
        strand := .running map }
  | promoteCallee {s : Family M E} {map : Option M} :
      s.strand = .running map →
      Step s .promoteCallee { s with
        parent := { s.parent with status := .suspended, hasCilkCallee := true }
        strand := .callee map }
  | addCallee {s : Family M E} :
      s.strand = .created →
      Step s .addCallee { s with
        parent := { s.parent with hasCilkCallee := true }
        strand := .callee none }
  | setReturn {s : Family M E} {map : Option M} :
      s.strand = .callee map →
      Step s .setReturn { s with
        parent := { s.parent with status := .running, hasCilkCallee := false }
        strand := .running map }
  | finishChild {s : Family M E} {younger older : List (Child M E)}
      {child : Child M E} {map : Option M} {exn : Option E} :
      s.children = younger ++ child :: older → child.pc = .running map →
      Step s (.finishChild child.spawnIndex exn) { s with
        children := younger ++
          { child with userExn := exn, pc := .exceptionLoop map } :: older
        thrown := s.thrown ++
          exn.toList.map (childPosition child.spawnIndex, ·) }
  | exceptionIteration {s : Family M E} {younger older : List (Child M E)}
      {child : Child M E} {map : Option M} :
      s.children = younger ++ child :: older →
      child.pc = .exceptionLoop map →
      Step s (.exceptionIteration child.spawnIndex)
        (s.exceptionIteration younger older child map)
  | exceptionReduce {s : Family M E} {younger older : List (Child M E)}
      {child : Child M E} {map : Option M} {left right : Option E} :
      s.children = younger ++ child :: older →
      child.pc = .exceptionUnlocked map left right →
      Step s (.exceptionReduce child.spawnIndex) { s with
        children := younger ++
          { child with
            userExn := (reduceExceptions left child.userExn right).1
            pc := .exceptionLoop map } :: older
        deleted :=
          s.deleted ++ (reduceExceptions left child.userExn right).2 }
  | reducerIteration {s : Family M E} {younger older : List (Child M E)}
      {child : Child M E} {map : Option M} :
      s.children = younger ++ child :: older → child.pc = .reducerLoop map →
      Step s (.reducerIteration child.spawnIndex)
        (s.reducerIteration younger older child map)
  | reducerReduce {s : Family M E} {younger older : List (Child M E)}
      {child : Child M E} {left active right : Option M} :
      s.children = younger ++ child :: older →
      child.pc = .reducerUnlocked left active right →
      Step s (.reducerReduce child.spawnIndex) { s with
        children := younger ++
          { child with
            pc := .reducerLoop
              (mergeTwoRmaps (mergeTwoRmaps left active) right) } :: older }
  | sync {s : Family M E} {map : Option M} {exn : Option E} :
      s.strand = .running map → s.parent.unsynched = true →
      Step s (.sync exn) ((s.leaveTrace exn).cilkSync map)
  | finishSync {s : Family M E} {map : Option M} :
      s.strand = .syncing map →
      Step s .finishSync (s.finishSync map)
  /-- `__cilkrts_check_exception_raise`, after a sync. -/
  | checkException {s : Family M E} {map : Option M} :
      s.strand = .running map → s.parent.unsynched = false →
      Step s .checkException { s with
        parent := { s.parent with
          userExn := none
          exceptionPending := false } }

end Step

/-- A closure that has just been created, for a frame that runs or for a frame
that waits for its callee. -/
def initial (waits : Bool) : Family M E where
  parent :=
    { status := if waits then .suspended else .running
      joinCounter := 0
      hasCilkCallee := false
      simulatedStolen := false
      childRmap := none
      userRmap := none
      childExn := none
      userExn := none
      unsynched := false
      exceptionPending := false }
  children := []
  strand := if waits then .created else .running none
  spawned := 0
  contributions := []
  thrown := []
  deleted := []
  suspensions := 0
  completions := 0
  syncs := 0

end Multicilk.Join
