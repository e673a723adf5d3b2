import Multicilk.Reducer.MapMerge
import Multicilk.Reducer.IdManager

/-!
# Reducers at run time

All maps share one ID manager.  A map is held by the `reducer_map` of a worker
or by one of the three places that a closure has for one.  Creating, looking up
and destroying a reducer work on the map of the calling worker; the scheduler
moves maps between the places and merges them.
-/

namespace Multicilk

/-- The places that hold a reducer map. -/
inductive RmapSlot where
  | reducerMap (worker : ℕ)
  | childRmap (closure : ℕ)
  | rightRmap (closure : ℕ)
  | userRmap (closure : ℕ)
  deriving DecidableEq, Repr

/-- The `__id_num` of a hyperobject: an ID and `HYPER_ID_VALID`. -/
structure IdNum where
  valid : Bool
  id : ℕ
  deriving DecidableEq, Repr

structure ReducerState where
  idManager : ReducerIdManager
  idNum : Key → IdNum
  maps : RmapSlot → Option CilkredMap
  /-- The next serial number of an allocated view. -/
  serial : ℕ

inductive ReducerAction where
  | create (worker : ℕ) (key : Key)
  | lookup (worker : ℕ) (key : Key)
  | destroy (worker : ℕ) (key : Key)
  | move (source target : RmapSlot)
  | merge (left right target : RmapSlot)
  deriving DecidableEq, Repr

namespace ReducerState

/-- No hyperobject is registered and no map has been made. -/
def initial (idManager : ReducerIdManager) : ReducerState :=
  { idManager
    idNum := fun _ => { valid := false, id := 0 }
    maps := fun _ => none
    serial := 0 }

def setMap (state : ReducerState) (slot : RmapSlot) (map : CilkredMap) :
    ReducerState :=
  { state with maps := Function.update state.maps slot (some map) }

/-- The map of the worker; `install_new_reducer_map` makes one if need be. -/
def currentMap (state : ReducerState) (worker : ℕ) : CilkredMap :=
  match state.maps (.reducerMap worker) with
  | some map => map
  | none => .makeMap state.idManager.spaCap

/-- `__cilkrts_hyper_create`. -/
def hyperCreate (state : ReducerState) (worker : ℕ) (key : Key) :
    Except Abort ReducerState :=
  match state.idManager.get with
  | .error abort => .error abort
  | .ok (id, idManager) =>
      match (state.currentMap worker).hyperCreate id key with
      | .error abort => .error abort
      | .ok map =>
          .ok ({ state with
            idManager
            idNum := Function.update state.idNum key { valid := true, id }
          }.setMap (.reducerMap worker) map)

/-- `__cilkrts_hyper_lookup`. -/
def hyperLookup (state : ReducerState) (worker : ℕ) (key : Key) :
    Except Abort (Option View × ReducerState) :=
  if (state.idNum key).valid = false then .error .referenceToUnregistered
  else
    match (state.currentMap worker).hyperLookup (state.idNum key).id key
        state.serial with
    | .error abort => .error abort
    | .ok (view, map) =>
        .ok (view, { state with
          serial := state.serial + 1 }.setMap (.reducerMap worker) map)

/-- `__cilkrts_hyper_destroy`. -/
def hyperDestroy (state : ReducerState) (worker : ℕ) (key : Key) :
    Except Abort ReducerState :=
  if (state.idNum key).valid = false then .error .unregisteringUnregistered
  else
    match state.maps (.reducerMap worker) with
    | none => .error .unsyncedReducer
    | some current =>
        match current.hyperDestroy (state.idNum key).id with
        | .error abort => .error abort
        | .ok map =>
            match state.idManager.free (state.idNum key).id with
            | .error abort => .error abort
            | .ok idManager =>
                .ok ({ state with
                  idManager
                  idNum := Function.update state.idNum key
                    { valid := false, id := (state.idNum key).id }
                }.setMap (.reducerMap worker) map)

section Inversion

variable {state next : ReducerState} {worker : ℕ} {key : Key}

theorem hyperCreate_cases (success : state.hyperCreate worker key = .ok next) :
    ∃ id idManager map, state.idManager.get = .ok (id, idManager) ∧
      (state.currentMap worker).hyperCreate id key = .ok map ∧
      next = { state with
        idManager
        idNum := Function.update state.idNum key { valid := true, id }
      }.setMap (.reducerMap worker) map := by
  simp only [hyperCreate] at success
  split at success
  · cases success
  · rename_i id idManager got
    split at success
    · cases success
    · rename_i map created
      exact ⟨id, idManager, map, got, created, (Except.ok.inj success).symm⟩

theorem hyperLookup_cases {view : Option View}
    (success : state.hyperLookup worker key = .ok (view, next)) :
    (state.idNum key).valid = true ∧
      ∃ map, (state.currentMap worker).hyperLookup (state.idNum key).id key
          state.serial = .ok (view, map) ∧
        next = { state with
          serial := state.serial + 1 }.setMap (.reducerMap worker) map := by
  simp only [hyperLookup] at success
  split at success
  · cases success
  · rename_i valid
    refine ⟨by simpa using valid, ?_⟩
    split at success
    · cases success
    · rename_i found map lookedUp
      simp only [Except.ok.injEq, Prod.mk.injEq] at success
      exact ⟨map, success.1 ▸ lookedUp, success.2.symm⟩

theorem hyperDestroy_cases
    (success : state.hyperDestroy worker key = .ok next) :
    (state.idNum key).valid = true ∧
      ∃ current map idManager,
        state.maps (.reducerMap worker) = some current ∧
        current.merging = false ∧
        current.unlogId (state.idNum key).id = .ok map ∧
        state.idManager.free (state.idNum key).id = .ok idManager ∧
        next = { state with
          idManager
          idNum := Function.update state.idNum key
            { valid := false, id := (state.idNum key).id }
        }.setMap (.reducerMap worker) map := by
  simp only [hyperDestroy] at success
  split at success
  · cases success
  · rename_i valid
    refine ⟨by simpa using valid, ?_⟩
    split at success
    · cases success
    · rename_i current held
      split at success
      · cases success
      · rename_i map destroyed
        split at success
        · cases success
        · rename_i idManager freed
          simp only [CilkredMap.hyperDestroy] at destroyed
          split at destroyed
          · cases destroyed
          · rename_i idle
            exact ⟨current, map, idManager, held, by simpa using idle,
              destroyed, freed, (Except.ok.inj success).symm⟩

end Inversion

/-- The scheduler takes a map out of one place and puts it into another. -/
def moveMap (state : ReducerState) (source target : RmapSlot) : ReducerState :=
  { state with
    maps := Function.update (Function.update state.maps source none) target
      (state.maps source) }

/-- The scheduler merges the maps of two places and keeps the result. -/
def keepMerged (state : ReducerState) (left right target : RmapSlot)
    (merged : Option CilkredMap) : ReducerState :=
  { state with
    maps := Function.update (Function.update
      (Function.update state.maps left none) right none) target merged }

/-- A step is one operation that does not stop the program.  The scheduler
keeps a map only in a place that is free. -/
inductive Step (hasDestroy : Key → Bool) :
    ReducerState → ReducerAction → ReducerState → Prop where
  | create {state next : ReducerState} {worker : ℕ} {key : Key} :
      state.hyperCreate worker key = .ok next →
      Step hasDestroy state (.create worker key) next
  | lookup {state next : ReducerState} {worker : ℕ} {key : Key}
      {view : Option View} :
      state.hyperLookup worker key = .ok (view, next) →
      Step hasDestroy state (.lookup worker key) next
  | destroy {state next : ReducerState} {worker : ℕ} {key : Key} :
      state.hyperDestroy worker key = .ok next →
      Step hasDestroy state (.destroy worker key) next
  | move {state : ReducerState} {source target : RmapSlot} :
      state.maps target = none →
      Step hasDestroy state (.move source target)
        (state.moveMap source target)
  | merge {state : ReducerState} {left right target : RmapSlot}
      {merged : Option CilkredMap} {calls : List MonoidCall} :
      left ≠ right →
      target = left ∨ target = right ∨ state.maps target = none →
      mergeTwoRmaps hasDestroy (state.maps left) (state.maps right) =
        .ok (merged, calls) →
      Step hasDestroy state (.merge left right target)
        (state.keepMerged left right target merged)

end ReducerState

end Multicilk
