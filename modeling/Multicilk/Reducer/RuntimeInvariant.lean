import Multicilk.Reducer.Runtime
import Multicilk.Support.Run

/-!
# When runs keep the representation of reducer maps

An ID belongs to at most one hyperobject at a time.  As long as every map is
well formed and holds views of the owners only, merging any two of them is
slot-wise.  A view that is unregistered while the log of its map is in use
breaks this: its ID stays in the log.
-/

namespace Multicilk

open CilkredMap TransitionSystem

/-- The map is well formed and its views belong to the owners of their IDs. -/
structure MapOwned (owner : ℕ → Option Key) (cap : ℕ) (map : CilkredMap) :
    Prop where
  wellFormed : map.WellFormed
  spaCap : map.spaCap = cap
  owned : ∀ id key, (map.vinfo id).key = some key → owner id = some key

section MapOwned

variable {owner updatedOwner : ℕ → Option Key} {cap id : ℕ} {key : Key}
  {map updated left right : CilkredMap}

theorem mapOwned_makeMap (owner : ℕ → Option Key) (cap : ℕ) :
    MapOwned owner cap (makeMap cap) :=
  ⟨wellFormed_makeMap cap, rfl, by simp [makeMap, ViewInfo.empty]⟩

theorem MapOwned.mono (mapOwned : MapOwned owner cap map)
    (extension : ∀ id key, owner id = some key → updatedOwner id = some key) :
    MapOwned updatedOwner cap map :=
  ⟨mapOwned.wellFormed, mapOwned.spaCap,
    fun id key occupied => extension id key (mapOwned.owned id key occupied)⟩

theorem MapOwned.install {view : View} (mapOwned : MapOwned owner cap map)
    (bound : id < map.spaCap) (unused : (map.vinfo id).key = none)
    (success : map.install id key view = .ok updated)
    (owns : owner id = some key) : MapOwned owner cap updated := by
  obtain ⟨wellFormed, spaCap, -, vinfo⟩ :=
    install_spec mapOwned.wellFormed bound unused success
  refine ⟨wellFormed, spaCap.trans mapOwned.spaCap, ?_⟩
  intro other otherKey occupied
  rw [vinfo] at occupied
  by_cases same : other = id
  · subst other
    rw [Function.update_self, Option.some.injEq] at occupied
    rw [owns, occupied]
  · rw [Function.update_of_ne same] at occupied
    exact mapOwned.owned other otherKey occupied

/-- An ID without a view in the map may lose its owner. -/
theorem MapOwned.disown (mapOwned : MapOwned owner cap map)
    (vacant : (map.vinfo id).key = none) :
    MapOwned (Function.update owner id none) cap map := by
  refine ⟨mapOwned.wellFormed, mapOwned.spaCap, ?_⟩
  intro other otherKey occupied
  have different : other ≠ id := by
    rintro rfl
    rw [vacant] at occupied
    cases occupied
  rw [Function.update_of_ne different]
  exact mapOwned.owned other otherKey occupied

theorem MapOwned.keysAgree (leftOwned : MapOwned owner cap left)
    (rightOwned : MapOwned owner cap right) : KeysAgree left right := by
  intro id leftKey rightKey onLeft onRight
  have fromLeft := leftOwned.owned id leftKey onLeft
  have fromRight := rightOwned.owned id rightKey onRight
  exact Option.some.inj (fromLeft.symm.trans fromRight)

/-- Maps with the same owners can be merged. -/
theorem MapOwned.mergeMaps (hasDestroy : Key → Bool)
    (leftOwned : MapOwned owner cap left)
    (rightOwned : MapOwned owner cap right) :
    ∃ merged calls, mergeMaps hasDestroy left right = .ok (merged, calls) ∧
      OrderedReduction hasDestroy left right merged calls ∧
      MapOwned owner cap merged := by
  obtain ⟨merged, calls, success, reduction, -⟩ :=
    mergeMaps_spec hasDestroy leftOwned.wellFormed rightOwned.wellFormed
      (leftOwned.spaCap.trans rightOwned.spaCap.symm)
      (leftOwned.keysAgree rightOwned)
  refine ⟨merged, calls, success, reduction, reduction.wellFormed,
    reduction.spaCap.trans leftOwned.spaCap, ?_⟩
  intro id key occupied
  rw [reduction.slots, ViewInfo.orElse] at occupied
  split at occupied
  · exact rightOwned.owned id key occupied
  · exact leftOwned.owned id key occupied

end MapOwned

namespace ReducerState

variable {state next : ReducerState} {worker : ℕ} {key : Key}
  {hasDestroy : Key → Bool}

/-- Every map is owned, IDs with an owner are in use, and a registered
hyperobject owns its ID. -/
structure OwnedBy (owner : ℕ → Option Key) (state : ReducerState) : Prop where
  manager : state.idManager.WellFormed
  maps : ∀ slot map, state.maps slot = some map →
    MapOwned owner state.idManager.spaCap map
  inUse : ∀ id, owner id ≠ none → state.idManager.InUse id
  registered : ∀ key, (state.idNum key).valid = true →
    owner (state.idNum key).id = some key

theorem ownedBy_initial {limit : ℕ} {manager : ReducerIdManager}
    (initialised : ReducerIdManager.init limit = .ok manager) :
    OwnedBy (fun _ => none) (initial manager) := by
  obtain ⟨wellFormed, -⟩ := ReducerIdManager.init_spec initialised
  constructor
  case manager => exact wellFormed
  all_goals simp [initial]

section Steps

variable {owner updatedOwner : ℕ → Option Key} {slot target left right : RmapSlot}

theorem OwnedBy.currentMap (owned : OwnedBy owner state) (worker : ℕ) :
    MapOwned owner state.idManager.spaCap (state.currentMap worker) := by
  unfold ReducerState.currentMap
  split
  · rename_i map held
    exact owned.maps _ map held
  · exact mapOwned_makeMap owner state.idManager.spaCap

theorem OwnedBy.setMap {map : CilkredMap} (owned : OwnedBy owner state)
    (mapOwned : MapOwned owner state.idManager.spaCap map) :
    OwnedBy owner (state.setMap slot map) := by
  constructor
  case manager => exact owned.manager
  case maps =>
    intro other held holds
    by_cases same : other = slot
    · subst other
      simp only [ReducerState.setMap, Function.update_self,
        Option.some.injEq] at holds
      exact holds ▸ mapOwned
    · simp only [ReducerState.setMap, Function.update_of_ne same] at holds
      exact owned.maps other held holds
  case inUse => exact owned.inUse
  case registered => exact owned.registered

theorem OwnedBy.hyperCreate (owned : OwnedBy owner state)
    (success : state.hyperCreate worker key = .ok next) :
    ∃ updatedOwner, OwnedBy updatedOwner next := by
  obtain ⟨id, idManager, map, got, created, rfl⟩ := hyperCreate_cases success
  obtain ⟨bound, unused, inUse, spaCap, wellFormed⟩ :=
    ReducerIdManager.get_spec owned.manager got
  have free : owner id = none := by
    by_contra taken
    exact unused (owned.inUse id taken)
  have extended : ∀ other otherKey, owner other = some otherKey →
      Function.update owner id (some key) other = some otherKey := by
    intro other otherKey holds
    have different : other ≠ id := by
      rintro rfl
      rw [free] at holds
      cases holds
    rw [Function.update_of_ne different, holds]
  have current := (owned.currentMap worker).mono extended
  obtain ⟨vacant, -, installed⟩ :=
    hyperCreate_spec current.wellFormed created
  refine ⟨Function.update owner id (some key), OwnedBy.setMap ?_ ?_⟩
  · constructor
    case manager => exact wellFormed
    case maps =>
      intro other held holds
      rw [spaCap]
      exact (owned.maps other held holds).mono extended
    case inUse =>
      intro other hasOwner
      rw [inUse]
      by_cases same : other = id
      · exact .inr same
      · rw [Function.update_of_ne same] at hasOwner
        exact .inl (owned.inUse other hasOwner)
    case registered =>
      intro other valid
      by_cases same : other = key
      · subst other
        simp
      · simp only [Function.update_of_ne same] at valid ⊢
        exact extended _ _ (owned.registered other valid)
  · rw [spaCap]
    apply current.install _ vacant installed (Function.update_self id _ owner)
    rw [current.spaCap]
    exact bound

theorem OwnedBy.hyperLookup {view : Option View}
    (owned : OwnedBy owner state)
    (success : state.hyperLookup worker key = .ok (view, next)) :
    OwnedBy owner next := by
  obtain ⟨valid, map, lookedUp, rfl⟩ := hyperLookup_cases success
  have current := owned.currentMap worker
  have counted : OwnedBy owner { state with serial := state.serial + 1 } :=
    ⟨owned.manager, owned.maps, owned.inUse, owned.registered⟩
  apply counted.setMap
  obtain ⟨-, ⟨-, rfl⟩ | ⟨bound, unused, -, installed⟩⟩ :=
    hyperLookup_spec current.wellFormed lookedUp
  · exact current
  · exact current.install bound unused installed (owned.registered key valid)

theorem OwnedBy.withMaps {maps : RmapSlot → Option CilkredMap}
    (owned : OwnedBy owner state)
    (mapsOwned : ∀ slot map, maps slot = some map →
      MapOwned owner state.idManager.spaCap map) :
    OwnedBy owner { state with maps } :=
  ⟨owned.manager, mapsOwned, owned.inUse, owned.registered⟩

theorem OwnedBy.moveMap (owned : OwnedBy owner state) (source target) :
    OwnedBy owner (state.moveMap source target) := by
  apply owned.withMaps
  intro slot map holds
  by_cases here : slot = target
  · subst slot
    rw [Function.update_self] at holds
    exact owned.maps source map holds
  · rw [Function.update_of_ne here] at holds
    by_cases emptied : slot = source
    · subst slot
      simp at holds
    · rw [Function.update_of_ne emptied] at holds
      exact owned.maps slot map holds

theorem OwnedBy.keepMerged {merged : Option CilkredMap}
    {calls : List MonoidCall} (owned : OwnedBy owner state)
    (success : mergeTwoRmaps hasDestroy (state.maps left) (state.maps right) =
      .ok (merged, calls)) :
    OwnedBy owner (state.keepMerged left right target merged) := by
  have mergedOwned : ∀ map, merged = some map →
      MapOwned owner state.idManager.spaCap map := by
    rintro map rfl
    cases onLeft : state.maps left with
    | none =>
        simp only [onLeft, mergeTwoRmaps, Except.ok.injEq,
          Prod.mk.injEq] at success
        exact owned.maps right map success.1
    | some leftMap =>
        cases onRight : state.maps right with
        | none =>
            simp only [onLeft, onRight, mergeTwoRmaps, Except.ok.injEq,
              Prod.mk.injEq] at success
            exact owned.maps left map (onLeft.trans success.1)
        | some rightMap =>
            obtain ⟨result, resultCalls, merge, -, resultOwned⟩ :=
              (owned.maps left leftMap onLeft).mergeMaps hasDestroy
                (owned.maps right rightMap onRight)
            simp only [onLeft, onRight, mergeTwoRmaps, merge, Except.ok.injEq,
              Prod.mk.injEq, Option.some.injEq] at success
            exact success.1 ▸ resultOwned
  apply owned.withMaps
  intro slot map holds
  by_cases here : slot = target
  · subst slot
    rw [Function.update_self] at holds
    exact mergedOwned map holds
  · rw [Function.update_of_ne here] at holds
    by_cases onRight : slot = right
    · subst slot
      simp at holds
    · rw [Function.update_of_ne onRight] at holds
      by_cases onLeft : slot = left
      · subst slot
        simp at holds
      · rw [Function.update_of_ne onLeft] at holds
        exact owned.maps slot map holds

/-- The map has a view of the hyperobject, and no map elsewhere does. -/
def ViewOnlyIn (state : ReducerState) (slot : RmapSlot) (key : Key) : Prop :=
  (∃ map, state.maps slot = some map ∧
    (map.vinfo (state.idNum key).id).key = some key) ∧
  ∀ other map, other ≠ slot → state.maps other = some map →
    (map.vinfo (state.idNum key).id).key ≠ some key

/-- What a successful unregistration as documented does to the current map. -/
theorem OwnedBy.hyperDestroy_map (owned : OwnedBy owner state)
    (documented : state.ViewOnlyIn (.reducerMap worker) key)
    (success : state.hyperDestroy worker key = .ok next) :
    ∃ current map, state.maps (.reducerMap worker) = some current ∧
      next.maps (.reducerMap worker) = some map ∧
      map.vinfo = Function.update current.vinfo (state.idNum key).id .empty ∧
      map.spaCap = current.spaCap ∧
      (current.UnlogSafe → map.WellFormed) ∧
      (¬ current.UnlogSafe → ¬ map.LogExact) := by
  obtain ⟨-, current, map, idManager, held, -, unlogged, -, rfl⟩ :=
    hyperDestroy_cases success
  obtain ⟨⟨holder, holderHeld, occupied⟩, -⟩ := documented
  have same : holder = current := Option.some.inj (holderHeld.symm.trans held)
  subst holder
  have currentOwned := owned.maps _ current held
  have bounded : current.spaCap < 4294967296 := by
    rw [currentOwned.spaCap]
    exact Nat.lt_trans owned.manager.bounded (by decide)
  obtain ⟨vinfo, spaCap, -, safe, damaged⟩ :=
    unlogId_spec currentOwned.wellFormed bounded (by simp [occupied]) unlogged
  exact ⟨current, map, held, by simp [ReducerState.setMap], vinfo, spaCap,
    safe, damaged⟩

theorem OwnedBy.hyperDestroy (owned : OwnedBy owner state)
    (documented : state.ViewOnlyIn (.reducerMap worker) key)
    (safe : ∀ map, state.maps (.reducerMap worker) = some map → map.UnlogSafe)
    (success : state.hyperDestroy worker key = .ok next) :
    OwnedBy (Function.update owner (state.idNum key).id none) next := by
  obtain ⟨current, map, held, kept, vinfo, spaCap, wellFormed, -⟩ :=
    owned.hyperDestroy_map documented success
  obtain ⟨valid, _, updated, idManager, -, -, -, freed, rfl⟩ :=
    hyperDestroy_cases success
  have sameMap : updated = map := by
    simpa [ReducerState.setMap] using kept
  subst updated
  obtain ⟨inUse, sameCap, managerWellFormed⟩ :=
    ReducerIdManager.free_spec owned.manager freed
  have ownsId := owned.registered key valid
  constructor
  case manager => exact managerWellFormed
  case maps =>
    intro slot other holds
    rw [show (ReducerState.setMap _ _ _).idManager = idManager from rfl,
      sameCap]
    by_cases same : slot = .reducerMap worker
    · subst slot
      rw [kept, Option.some.injEq] at holds
      subst other
      have currentOwned := owned.maps _ current held
      refine ⟨wellFormed (safe current held),
        spaCap.trans currentOwned.spaCap, ?_⟩
      intro other otherKey occupied
      rw [vinfo] at occupied
      by_cases cleared : other = (state.idNum key).id
      · subst other
        simp [ViewInfo.empty] at occupied
      · rw [Function.update_of_ne cleared] at occupied ⊢
        exact currentOwned.owned other otherKey occupied
    · simp only [ReducerState.setMap, Function.update_of_ne same] at holds
      have otherOwned := owned.maps slot other holds
      apply otherOwned.disown
      cases occupied : (other.vinfo (state.idNum key).id).key with
      | none => rfl
      | some otherKey =>
          have owns := otherOwned.owned _ otherKey occupied
          rw [ownsId] at owns
          exact absurd (occupied.trans owns.symm)
            (documented.2 slot other same holds)
  case inUse =>
    intro other hasOwner
    rw [show (ReducerState.setMap _ _ _).idManager = idManager from rfl, inUse]
    by_cases same : other = (state.idNum key).id
    · subst other
      simp at hasOwner
    · rw [Function.update_of_ne same] at hasOwner
      exact ⟨owned.inUse other hasOwner, same⟩
  case registered =>
    intro other otherValid
    by_cases same : other = key
    · subst other
      simp [ReducerState.setMap] at otherValid
    · simp only [ReducerState.setMap, Function.update_of_ne same]
        at otherValid ⊢
      have owns := owned.registered other otherValid
      have different : (state.idNum other).id ≠ (state.idNum key).id := by
        intro sameId
        rw [sameId, ownsId, Option.some.injEq] at owns
        exact same owns.symm
      rw [Function.update_of_ne different]
      exact owns

end Steps

/-- A reducer is destroyed only when its view is in the current map and in no
other. -/
def Documented (state : ReducerState) : ReducerAction → Prop
  | .destroy worker key => state.ViewOnlyIn (.reducerMap worker) key
  | _ => True

/-- No log that is in use goes on listing the view that is destroyed. -/
def SafeDestroy (state : ReducerState) : ReducerAction → Prop
  | .destroy worker _ => ∀ map,
      state.maps (.reducerMap worker) = some map → map.UnlogSafe
  | _ => True

def DocumentedStep (hasDestroy : Key → Bool) (state : ReducerState)
    (action : ReducerAction) (next : ReducerState) : Prop :=
  state.Documented action ∧ Step hasDestroy state action next

/-- Counts and logs describe the slots, and any two maps can be merged. -/
structure Represented (hasDestroy : Key → Bool) (state : ReducerState) :
    Prop where
  maps : ∀ slot map, state.maps slot = some map →
    map.CountExact ∧ map.LogExact
  merges : ∀ left right leftMap rightMap, left ≠ right →
    state.maps left = some leftMap → state.maps right = some rightMap →
    ∃ merged calls, mergeMaps hasDestroy leftMap rightMap =
      .ok (merged, calls) ∧ merged.CountExact ∧ merged.LogExact

theorem OwnedBy.represented {owner : ℕ → Option Key}
    (owned : OwnedBy owner state) : Represented hasDestroy state := by
  constructor
  · intro slot map held
    have wellFormed := (owned.maps slot map held).wellFormed
    exact ⟨wellFormed.countExact, wellFormed.logExact⟩
  · intro left right leftMap rightMap _ onLeft onRight
    obtain ⟨merged, calls, success, -, mergedOwned⟩ :=
      (owned.maps left leftMap onLeft).mergeMaps hasDestroy
        (owned.maps right rightMap onRight)
    exact ⟨merged, calls, success, mergedOwned.wellFormed.countExact,
      mergedOwned.wellFormed.logExact⟩

/-- One step keeps every map owned, unless it destroys an unsafe view. -/
theorem OwnedBy.step {owner : ℕ → Option Key} {action : ReducerAction}
    (owned : OwnedBy owner state) (safe : state.SafeDestroy action)
    (taken : DocumentedStep hasDestroy state action next) :
    ∃ updatedOwner, OwnedBy updatedOwner next := by
  obtain ⟨documented, taken⟩ := taken
  cases taken with
  | create success => exact owned.hyperCreate success
  | lookup success => exact ⟨owner, owned.hyperLookup success⟩
  | destroy success => exact ⟨_, owned.hyperDestroy documented safe success⟩
  | move _ => exact ⟨owner, owned.moveMap _ _⟩
  | merge _ _ success => exact ⟨owner, owned.keepMerged success⟩

theorem OwnedBy.not_represented {owner : ℕ → Option Key}
    {action : ReducerAction} (owned : OwnedBy owner state)
    (violated : ¬ state.SafeDestroy action)
    (taken : DocumentedStep hasDestroy state action next) :
    ¬ Represented hasDestroy next := by
  obtain ⟨documented, taken⟩ := taken
  cases taken with
  | destroy success =>
      intro represented
      apply violated
      intro map held
      obtain ⟨current, updated, currentHeld, kept, -, -, -, damaged⟩ :=
        owned.hyperDestroy_map documented success
      have same : map = current := Option.some.inj (held.symm.trans currentHeld)
      subst map
      by_contra notSafe
      exact damaged notSafe (represented.maps _ updated kept).2
  | _ => exact absurd trivial violated

/-- In every run in which reducers are destroyed as documented, the counts and
logs of all maps stay exact if and only if every reducer is destroyed when the
log of its map has overflowed or it has the only view of the map. -/
theorem represented_iff_safeDestroys {limit : ℕ} {manager : ReducerIdManager}
    {trace : List (ReducerState × ReducerAction)} {final : ReducerState}
    (initialised : ReducerIdManager.init limit = .ok manager)
    (run : Run (DocumentedStep hasDestroy) (initial manager) trace final) :
    ((∀ entry ∈ trace, Represented hasDestroy entry.1) ∧
        Represented hasDestroy final) ↔ Meets SafeDestroy trace := by
  apply @Run.property_iff _ _ _ _ _ _ SafeDestroy
    (fun state => ∃ owner, OwnedBy owner state) _ run
  · exact ⟨_, ownedBy_initial initialised⟩
  · rintro state ⟨owner, owned⟩
    exact owned.represented
  · rintro source action target ⟨owner, owned⟩ safe taken
    exact owned.step safe taken
  · rintro source action target ⟨owner, owned⟩ violated taken
    exact owned.not_represented violated taken

theorem DocumentedStep.create
    (success : state.hyperCreate worker key = .ok next) :
    DocumentedStep hasDestroy state (.create worker key) next :=
  ⟨trivial, .create success⟩

theorem DocumentedStep.destroy
    (documented : state.ViewOnlyIn (.reducerMap worker) key)
    (success : state.hyperDestroy worker key = .ok next) :
    DocumentedStep hasDestroy state (.destroy worker key) next :=
  ⟨documented, .destroy success⟩

/-- A reducer that has the only view of a map may be destroyed. -/
theorem represented_after_only_view :
    ∃ manager trace final, ReducerIdManager.init 1024 = .ok manager ∧
      Run (DocumentedStep fun _ => true) (initial manager) trace final ∧
      trace.map Prod.snd = [.create 0 7, .destroy 0 7] ∧
      Represented (fun _ => true) final := by
  have run : ∃ trace final, Run (DocumentedStep fun _ => true)
      (initial { spaCap := 1024, next := 0, hwm := 0, used := fun _ => 0 })
      trace final ∧ trace.map Prod.snd = [.create 0 7, .destroy 0 7] ∧
      Meets SafeDestroy trace := by
    refine ⟨_, _, (Run.refl.snoc (@DocumentedStep.create _ _ 0 7 _ rfl)).snoc
      (@DocumentedStep.destroy _ _ 0 7 _ ⟨⟨_, rfl, rfl⟩, ?_⟩ rfl), rfl, ?_⟩
    · intro other map different held
      simp [setMap, initial, different] at held
    · refine meets_cons.mpr ⟨trivial, meets_cons.mpr ⟨?_, meets_nil _⟩⟩
      intro map held
      cases held
      exact .inr rfl
  obtain ⟨trace, final, run, actions, safe⟩ := run
  exact ⟨_, trace, final, rfl, run, actions,
    ((@represented_iff_safeDestroys _ 1024 _ _ _ rfl run).mpr safe).2⟩

set_option maxRecDepth 4000 in
/-- Two reducers are made in one map and the first one is destroyed.  Its ID
is used again in another map, and merging the two calls through a null key. -/
theorem stale_log_entry :
    ∃ manager trace final leftMap rightMap,
      ReducerIdManager.init 1024 = .ok manager ∧
      Run (DocumentedStep fun _ => true) (initial manager) trace final ∧
      trace.map Prod.snd = [.create 0 7, .create 0 8, .destroy 0 7,
        .create 1 9, .create 1 10] ∧
      final.maps (.reducerMap 0) = some leftMap ∧
      final.maps (.reducerMap 1) = some rightMap ∧
      leftMap.liveLog = [0, 1] ∧ (leftMap.vinfo 0).key = none ∧
      mergeMaps (fun _ => true) leftMap rightMap = .error .nullKey := by
  refine ⟨{ spaCap := 1024, next := 0, hwm := 0, used := fun _ => 0 }, _, _,
    _, _, rfl, (((((Run.refl.snoc
      (@DocumentedStep.create _ _ 0 7 _ rfl)).snoc
      (@DocumentedStep.create _ _ 0 8 _ rfl)).snoc
      (@DocumentedStep.destroy _ _ 0 7 _ ⟨⟨_, rfl, rfl⟩, ?_⟩ rfl)).snoc
      (@DocumentedStep.create _ _ 1 9 _ rfl)).snoc
      (@DocumentedStep.create _ _ 1 10 _ rfl)), rfl, rfl, rfl, rfl, rfl, ?_⟩
  case refine_2 =>
    exact mergeMaps_stale (by decide) (by decide) (by decide) rfl rfl rfl
  intro other map different held
  simp [setMap, initial, different] at held

end ReducerState

end Multicilk
