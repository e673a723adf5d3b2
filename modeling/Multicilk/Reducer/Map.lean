import Mathlib.Data.Finset.Card
import Mathlib.Data.Finset.Range
import Mathlib.Logic.Function.Basic
import Multicilk.Reducer.Abort

/-!
# Reducer maps

A map is an array of view slots indexed by reducer ID, a count of the occupied
slots and a log of the IDs that were inserted.  The log holds at most half as
many IDs as the map has slots; a length of one more says that it overflowed.

Hyperobjects are named by their address.  The view embedded in a hyperobject is
told apart from those that `allocate_fn` returned.
-/

namespace Multicilk

abbrev Key := ℕ

inductive View where
  | leftmost (key : Key)
  | allocated (serial : ℕ)
  deriving DecidableEq, Repr

/-- Calls through the function pointers of a reducer's monoid. -/
inductive MonoidCall where
  | reduce (key : Key) (left right : Option View)
  | destroy (key : Key) (view : Option View)
  | deallocate (key : Key) (view : Option View)
  deriving DecidableEq, Repr

inductive MergeKind where
  | mergeUnordered
  | mergeIntoLeft
  | mergeIntoRight
  deriving DecidableEq, Repr

structure ViewInfo where
  val : Option View
  key : Option Key
  deriving DecidableEq, Repr

def ViewInfo.empty : ViewInfo := { val := none, key := none }

structure CilkredMap where
  spaCap : ℕ
  numOfVinfo : ℕ
  numOfLogs : ℕ
  merging : Bool
  log : List ℕ
  vinfo : ℕ → ViewInfo

namespace CilkredMap

def setSlot (map : CilkredMap) (id : ℕ) (info : ViewInfo) : CilkredMap :=
  { map with vinfo := Function.update map.vinfo id info }

/-- `cilkred_map_make_map`; both arrays come from `calloc`. -/
def makeMap (size : ℕ) : CilkredMap :=
  { spaCap := size
    numOfVinfo := 0
    numOfLogs := 0
    merging := false
    log := List.replicate (size / 2) 0
    vinfo := fun _ => .empty }

/-- `cilkred_map_log_id`. -/
def logId (map : CilkredMap) (id : ℕ) : Except Abort CilkredMap :=
  if ¬ map.numOfLogs ≤ map.spaCap / 2 + 1 then .error .assertionFailed
  else if ¬ map.numOfVinfo ≤ map.spaCap then .error .assertionFailed
  else if map.numOfVinfo = map.spaCap then .error (.spaFull map.spaCap)
  else if map.numOfLogs < map.spaCap / 2 then
    .ok { map with
      log := map.log.set map.numOfLogs id
      numOfLogs := map.numOfLogs + 1
      numOfVinfo := map.numOfVinfo + 1 }
  else if map.numOfLogs = map.spaCap / 2 then
    -- invalidate the log
    .ok { map with
      numOfLogs := map.numOfLogs + 1
      numOfVinfo := map.numOfVinfo + 1 }
  else
    .ok { map with numOfVinfo := map.numOfVinfo + 1 }

/-- `cilkred_map_unlog_id`.  The count is a 32-bit unsigned integer. -/
def unlogId (map : CilkredMap) (id : ℕ) : Except Abort CilkredMap :=
  if ¬ map.numOfLogs ≤ map.spaCap / 2 + 1 then .error .assertionFailed
  else if ¬ map.numOfVinfo ≤ map.spaCap then .error .assertionFailed
  else if ¬ id < map.spaCap then .error .assertionFailed
  else
    let remaining := (map.numOfVinfo + 4294967295) % 4294967296
    .ok { map.setSlot id .empty with
      numOfVinfo := remaining
      numOfLogs := if remaining = 0 then 0 else map.numOfLogs }

/-- `cilkred_map_lookup` for a key whose `__id_num` carries the valid bit and
the given ID. -/
def lookup (map : CilkredMap) (id : ℕ) : Option ViewInfo :=
  if id ≥ map.spaCap then none
  else if (map.vinfo id).key = none ∧ (map.vinfo id).val = none then none
  else some (map.vinfo id)

/-- `cilkred_map_is_leftmost`. -/
def isLeftmost (_map : CilkredMap) : Bool := false

/-- The view is put into the slot and the slot is logged. -/
def install (map : CilkredMap) (id : ℕ) (key : Key) (view : View) :
    Except Abort CilkredMap :=
  (map.setSlot id { val := some view, key := some key }).logId id

/-- `__cilkrts_hyper_create` on the current map, once the ID is allocated.  The
view embedded in the hyperobject becomes the leftmost one. -/
def hyperCreate (map : CilkredMap) (id : ℕ) (key : Key) :
    Except Abort CilkredMap :=
  if map.lookup id ≠ none then .error .assertionFailed
  else if map.merging then .error .usedByAnother
  else map.install id key (.leftmost key)

/-- `__cilkrts_hyper_lookup` on the current map for a registered key with the
given ID.  A view that is allocated in the call has the given serial number. -/
def hyperLookup (map : CilkredMap) (id : ℕ) (key : Key) (serial : ℕ) :
    Except Abort (Option View × CilkredMap) :=
  if map.merging then .error .usedByAnother
  else
    match map.lookup id with
    | some info => .ok (info.val, map)
    | none =>
        if ¬ id < map.spaCap then .error .assertionFailed
        else if map.vinfo id ≠ .empty then .error .assertionFailed
        else
          match map.install id key (.allocated serial) with
          | .error abort => .error abort
          | .ok updated => .ok (some (.allocated serial), updated)

/-- `__cilkrts_hyper_destroy` on the current map, before the ID is freed. -/
def hyperDestroy (map : CilkredMap) (id : ℕ) : Except Abort CilkredMap :=
  if map.merging then .error .usedByAnother
  else map.unlogId id

end CilkredMap

/-- The two maps of a running merge and the calls it has made. -/
structure MergeState where
  this : CilkredMap
  other : CilkredMap
  calls : List MonoidCall

section Merge

-- Whether the `destroy_fn` of a reducer is set.
variable (hasDestroy : Key → Bool)

/-- `clear_view`, as the calls made for the view; the slot becomes empty. -/
def clearView (info : ViewInfo) : List MonoidCall :=
  match info.key with
  | none => []
  | some key =>
      (if hasDestroy key then [.destroy key info.val] else []) ++
        [.deallocate key info.val]

/-- Both sides have a view: the reduced one stays in `this` and the other is
cleared.  For `MERGE_INTO_RIGHT` the values were swapped before. -/
def reduceSlot (kind : MergeKind) (id : ℕ) (key : Key) (state : MergeState) :
    MergeState :=
  let mine := state.this.vinfo id
  let theirs := state.other.vinfo id
  let (mine, theirs) :=
    match kind with
    | .mergeIntoRight =>
        ({ mine with val := theirs.val }, { theirs with val := mine.val })
    | _ => (mine, theirs)
  { this := state.this.setSlot id mine
    other := state.other.setSlot id .empty
    calls := state.calls ++ .reduce key mine.val theirs.val ::
      clearView hasDestroy theirs }

/-- One pass through the body of a loop of `cilkred_map_merge`. -/
def mergeSlot (kind : MergeKind) (id : ℕ) (state : MergeState) :
    Except Abort MergeState :=
  match (state.this.vinfo id).key with
  | some mine =>
      match (state.other.vinfo id).key with
      -- the assertion that the keys agree fails, or the call does
      | none => .error .nullKey
      | some key =>
          if key ≠ mine then .error .assertionFailed
          else .ok (reduceSlot hasDestroy kind id key state)
  | none =>
      if (state.this.vinfo id).val ≠ none then .error .assertionFailed
      else
        -- `swap_views`
        match (state.this.setSlot id (state.other.vinfo id)).logId id with
        | .error abort => .error abort
        | .ok this =>
            .ok { state with
              this := this
              other := state.other.setSlot id (state.this.vinfo id) }

/-- The body of the loop over all slots, which tests the slot first. -/
def mergeScannedSlot (kind : MergeKind) (id : ℕ) (state : MergeState) :
    Except Abort MergeState :=
  if (state.other.vinfo id).key = none then .ok state
  else mergeSlot hasDestroy kind id state

/-- Run a loop body over the IDs in order. -/
def forEachId (body : ℕ → MergeState → Except Abort MergeState) :
    List ℕ → MergeState → Except Abort MergeState
  | [], state => .ok state
  | id :: ids, state =>
      match body id state with
      | .error abort => .error abort
      | .ok next => forEachId body ids next

/-- The loop that is chosen by the state of the log of `other`. -/
def mergeLoop (kind : MergeKind) (state : MergeState) :
    Except Abort MergeState :=
  if state.other.numOfLogs ≤ state.other.spaCap / 2 then
    forEachId (mergeSlot hasDestroy kind)
      (state.other.log.take state.other.numOfLogs) state
  else
    forEachId (mergeScannedSlot hasDestroy kind)
      (List.range state.other.spaCap) state

/-- `cilkred_map_merge`.  The result is `this_map` and the calls made;
`other_map` is destroyed. -/
def cilkredMapMerge (this other : CilkredMap) (kind : MergeKind) :
    Except Abort (CilkredMap × List MonoidCall) :=
  let this := { this with merging := true }
  let other := { other with merging := true }
  if other.numOfVinfo = 0 then
    .ok (this, [])
  else
    match mergeLoop hasDestroy kind { this, other, calls := [] } with
    | .error abort => .error abort
    | .ok final => .ok ({ final.this with merging := false }, final.calls)

/-- `__cilkrts_internal_merge_two_rmaps` for two maps that are not null. -/
def mergeMaps (left right : CilkredMap) :
    Except Abort (CilkredMap × List MonoidCall) :=
  if left.isLeftmost ∨ left.numOfVinfo > right.numOfVinfo then
    cilkredMapMerge hasDestroy left right .mergeIntoLeft
  else
    cilkredMapMerge hasDestroy right left .mergeIntoRight

/-- `__cilkrts_internal_merge_two_rmaps`. -/
def mergeTwoRmaps :
    Option CilkredMap → Option CilkredMap →
      Except Abort (Option CilkredMap × List MonoidCall)
  | none, right => .ok (right, [])
  | left, none => .ok (left, [])
  | some left, some right =>
      match mergeMaps hasDestroy left right with
      | .error abort => .error abort
      | .ok (map, calls) => .ok (some map, calls)

end Merge

end Multicilk
