import Multicilk.Reducer.Slots
import Multicilk.Support.Run

/-!
# Reducers in several runtimes

Every runtime has an ID manager and maps of its own, but the ID is kept in the
hyperobject, and a lookup compares no keys.  It returns the view of the right
reducer as long as reducers of different runtimes that have the same ID are not
used in one runtime.
-/

namespace Multicilk

open TransitionSystem CilkredMap

variable {G : Type}

/-- The reducers of a process.  The last two components record what has
happened. -/
structure ReducerProcess (G : Type) where
  managers : G → ReducerIdManager
  maps : G → RmapSlot → Option CilkredMap
  idNum : Key → IdNum
  serial : ℕ
  /-- The runtime in which a reducer has been registered. -/
  home : Key → G
  /-- Whether the workers of a runtime have registered the reducer or looked it
  up, since it was registered. -/
  used : G → Key → Bool

namespace ReducerProcess

/-- The process, as the workers of one runtime see it. -/
def runtime (s : ReducerProcess G) (g : G) : ReducerState where
  idManager := s.managers g
  idNum := s.idNum
  maps := s.maps g
  serial := s.serial

section Recording

variable [DecidableEq G]

def record (s : ReducerProcess G) (g : G) : ReducerAction → ReducerProcess G
  | .create _ key =>
      { s with
        home := Function.update s.home key g
        used := fun h other =>
          if other = key then decide (h = g) else s.used h other }
  | .lookup _ key =>
      { s with
        used := fun h other =>
          s.used h other || decide (h = g) && decide (other = key) }
  | .destroy _ key =>
      { s with used := fun h other => s.used h other && decide (other ≠ key) }
  | .move .. => s
  | .merge .. => s

def withRuntime (s : ReducerProcess G) (g : G) (next : ReducerState) :
    ReducerProcess G :=
  { s with
    managers := Function.update s.managers g next.idManager
    maps := Function.update s.maps g next.maps
    idNum := next.idNum
    serial := next.serial }

/-- An operation in one runtime that does not stop the program. -/
inductive Step (hasDestroy : Key → Bool) :
    ReducerProcess G → G × ReducerAction → ReducerProcess G → Prop where
  | step {s : ReducerProcess G} {g : G} {action : ReducerAction}
      {next : ReducerState} :
      ReducerState.Step hasDestroy (s.runtime g) action next →
      Step hasDestroy s (g, action) ((s.withRuntime g next).record g action)

end Recording

/-- A reducer is registered once, and destroyed when no map but the current one
has a view of it. -/
def Documented (s : ReducerProcess G) : G × ReducerAction → Prop
  | (_, .create _ key) => (s.idNum key).valid = false
  | (g, .destroy worker key) =>
      ∀ h slot map, (h, slot) ≠ (g, .reducerMap worker) →
        s.maps h slot = some map →
        (map.vinfo (s.idNum key).id).key ≠ some key
  | _ => True

/-- A reducer is not looked up where one with the same ID from another runtime
is in use, and is destroyed where it has been registered. -/
def KeptApart (s : ReducerProcess G) : G × ReducerAction → Prop
  | (g, .lookup _ key) =>
      ∀ other, (s.idNum other).valid = true → s.used g other = true →
        s.home other ≠ s.home key → (s.idNum other).id ≠ (s.idNum key).id
  | (g, .destroy _ key) => s.home key = g
  | _ => True

def DocumentedStep [DecidableEq G] (hasDestroy : Key → Bool) (s : ReducerProcess G)
    (action : G × ReducerAction) (next : ReducerProcess G) : Prop :=
  s.Documented action ∧ Step hasDestroy s action next

def initial (managers : G → ReducerIdManager) (home : G) : ReducerProcess G where
  managers
  maps := fun _ _ => none
  idNum := fun _ => { valid := false, id := 0 }
  serial := 0
  home := fun _ => home
  used := fun _ _ => false

/-- IDs are unique in each runtime, and the views in its maps are those of
registered reducers that are in use there. -/
structure Resolved (s : ReducerProcess G) : Prop where
  managers : ∀ g, (s.managers g).WellFormed
  inUse : ∀ key, (s.idNum key).valid = true →
    (s.managers (s.home key)).InUse (s.idNum key).id
  distinct : ∀ key other, (s.idNum key).valid = true →
    (s.idNum other).valid = true → s.home key = s.home other →
    (s.idNum key).id = (s.idNum other).id → key = other
  slots : ∀ g slot map, s.maps g slot = some map →
    map.Slots fun id key => s.idNum key = ⟨true, id⟩ ∧ s.used g key = true

section Steps

variable {s target : ReducerProcess G} {g : G} {worker : ℕ} {key : Key}
  {next : ReducerState} {hasDestroy : Key → Bool}

theorem resolved_initial {managers : G → ReducerIdManager} {home : G}
    (wellFormed : ∀ g, (managers g).WellFormed) :
    Resolved (initial managers home) := by
  constructor
  case managers => exact wellFormed
  case inUse => exact nofun
  case distinct => exact nofun
  case slots => exact nofun

theorem Resolved.currentMap (resolved : Resolved s) :
    ((s.runtime g).currentMap worker).Slots
      fun id key => s.idNum key = ⟨true, id⟩ ∧ s.used g key = true := by
  unfold ReducerState.currentMap
  split
  next map held => exact resolved.slots g _ map held
  next => exact slots_makeMap _

theorem idNum_eq_of_valid (valid : (s.idNum key).valid = true) :
    s.idNum key = ⟨true, (s.idNum key).id⟩ := by
  cases shape : s.idNum key with
  | mk isValid id =>
      rw [shape] at valid
      cases valid
      rfl

variable [DecidableEq G]

/-- One map of a runtime is replaced. -/
theorem slots_of_setMap {allowed : G → ℕ → Key → Prop} {slot : RmapSlot}
    {map : CilkredMap} {maps : G → RmapSlot → Option CilkredMap}
    (mapSlots : map.Slots (allowed g))
    (others : ∀ h other held, (h, other) ≠ (g, slot) → maps h other = some held →
      held.Slots (allowed h)) :
    ∀ h other held,
      Function.update maps g (Function.update (maps g) slot (some map)) h other =
        some held → held.Slots (allowed h) := by
  intro h other held found
  by_cases sameRuntime : h = g
  · subst h
    rw [Function.update_self] at found
    by_cases sameSlot : other = slot
    · subst other
      rw [Function.update_self] at found
      cases found
      exact mapSlots
    · rw [Function.update_of_ne sameSlot] at found
      exact others _ other held (fun same => sameSlot (congrArg Prod.snd same))
        found
  · rw [Function.update_of_ne sameRuntime] at found
    exact others h other held
      (fun same => sameRuntime (congrArg Prod.fst same)) found

theorem Resolved.create (resolved : Resolved s)
    (unregistered : (s.idNum key).valid = false)
    (created : (s.runtime g).hyperCreate worker key = .ok next) :
    Resolved ((s.withRuntime g next).record g (.create worker key)) := by
  obtain ⟨id, idManager, map, got, isCreated, rfl⟩ :=
    ReducerState.hyperCreate_cases created
  obtain ⟨-, unused, inUse, -, wellFormed⟩ :=
    ReducerIdManager.get_spec (resolved.managers g) got
  -- No registered reducer of this runtime has the new ID.
  have fresh : ∀ other, (s.idNum other).valid = true → s.home other = g →
      (s.idNum other).id ≠ id := by
    rintro other valid rfl rfl
    exact unused (resolved.inUse other valid)
  -- What is held in a map is not the new reducer.
  have held : ∀ h (map : CilkredMap),
      map.Slots (fun id key => s.idNum key = ⟨true, id⟩ ∧ s.used h key = true) →
      map.Slots fun otherId other =>
        Function.update s.idNum key ⟨true, id⟩ other = ⟨true, otherId⟩ ∧
          (if other = key then decide (h = g) else s.used h other) = true := by
    intro h map slots
    apply slots.mono
    rintro otherId other - ⟨registered, used⟩
    have different : other ≠ key := by
      rintro rfl
      rw [registered] at unregistered
      cases unregistered
    rw [Function.update_of_ne different, if_neg different]
    exact ⟨registered, used⟩
  constructor
  case managers =>
    intro h
    by_cases same : h = g
    · subst h
      simpa [record, withRuntime, ReducerState.setMap] using wellFormed
    · simpa [record, withRuntime, same] using resolved.managers h
  case inUse =>
    intro other valid
    by_cases isKey : other = key
    · subst other
      simp [record, withRuntime, ReducerState.setMap, inUse]
    · simp only [record, withRuntime, ReducerState.setMap, runtime,
        Function.update_of_ne isKey] at valid ⊢
      have old := resolved.inUse other valid
      by_cases same : s.home other = g
      · rw [same] at old ⊢
        rw [Function.update_self, inUse]
        exact .inl old
      · rwa [Function.update_of_ne same]
  case distinct =>
    intro other third valid thirdValid sameHome sameId
    by_cases isKey : other = key <;> by_cases isThird : third = key
    · rw [isKey, isThird]
    · subst other
      simp only [record, withRuntime, ReducerState.setMap, runtime,
        Function.update_of_ne isThird, Function.update_self]
        at thirdValid sameHome sameId
      exact absurd sameId.symm (fresh third thirdValid sameHome.symm)
    · subst third
      simp only [record, withRuntime, ReducerState.setMap, runtime,
        Function.update_of_ne isKey, Function.update_self]
        at valid sameHome sameId
      exact absurd sameId (fresh other valid sameHome)
    · simp only [record, withRuntime, ReducerState.setMap, runtime,
        Function.update_of_ne isKey, Function.update_of_ne isThird]
        at valid thirdValid sameHome sameId
      exact resolved.distinct other third valid thirdValid sameHome sameId
  case slots =>
    refine slots_of_setMap ?_ fun h slot map _ found =>
      held h map (resolved.slots h slot map found)
    have current := held g _ (@Resolved.currentMap _ s g worker resolved)
    refine current.hyperCreate ⟨Function.update_self .., ?_⟩ isCreated
    rw [if_pos rfl, decide_eq_true rfl]

theorem Resolved.lookup {view : Option View} (resolved : Resolved s)
    (found : (s.runtime g).hyperLookup worker key = .ok (view, next)) :
    Resolved ((s.withRuntime g next).record g (.lookup worker key)) := by
  obtain ⟨valid, map, isFound, rfl⟩ := ReducerState.hyperLookup_cases found
  have sameManagers : Function.update s.managers g (s.managers g) = s.managers :=
    Function.update_eq_self ..
  have held : ∀ h (map : CilkredMap),
      map.Slots (fun id key => s.idNum key = ⟨true, id⟩ ∧ s.used h key = true) →
      map.Slots fun id other => s.idNum other = ⟨true, id⟩ ∧
        (s.used h other || decide (h = g) && decide (other = key)) = true := by
    intro h map slots
    apply slots.mono
    rintro id other - ⟨registered, used⟩
    exact ⟨registered, by rw [used, Bool.true_or]⟩
  constructor
  case managers =>
    simp only [record, withRuntime, ReducerState.setMap, runtime, sameManagers]
    exact resolved.managers
  case inUse =>
    simp only [record, withRuntime, ReducerState.setMap, runtime, sameManagers]
    exact resolved.inUse
  case distinct => exact resolved.distinct
  case slots =>
    refine slots_of_setMap ?_ fun h slot map _ found =>
      held h map (resolved.slots h slot map found)
    have current := held g _ (@Resolved.currentMap _ s g worker resolved)
    refine current.hyperLookup ⟨idNum_eq_of_valid valid, ?_⟩ isFound
    rw [decide_eq_true rfl, decide_eq_true rfl, Bool.and_true, Bool.or_true]

theorem Resolved.destroy (resolved : Resolved s)
    (documented : s.Documented (g, .destroy worker key))
    (isHome : s.home key = g)
    (destroyed : (s.runtime g).hyperDestroy worker key = .ok next) :
    Resolved ((s.withRuntime g next).record g (.destroy worker key)) := by
  obtain ⟨valid, current, map, idManager, isCurrent, -, unlogged, freed, rfl⟩ :=
    ReducerState.hyperDestroy_cases destroyed
  obtain ⟨inUse, -, wellFormed⟩ :=
    ReducerIdManager.free_spec (resolved.managers g) freed
  have stillValid : ∀ other, (Function.update s.idNum key
      ⟨false, (s.idNum key).id⟩ other).valid = true → other ≠ key := by
    rintro other otherValid rfl
    rw [Function.update_self] at otherValid
    cases otherValid
  constructor
  case managers =>
    intro h
    by_cases same : h = g
    · subst h
      simpa [record, withRuntime, ReducerState.setMap] using wellFormed
    · simpa [record, withRuntime, same] using resolved.managers h
  case inUse =>
    intro other otherValid
    have different := stillValid other otherValid
    simp only [record, withRuntime, ReducerState.setMap, runtime,
      Function.update_of_ne different] at otherValid ⊢
    have old := resolved.inUse other otherValid
    by_cases same : s.home other = g
    · rw [same] at old ⊢
      rw [Function.update_self, inUse]
      refine ⟨old, fun sameId => different ?_⟩
      exact resolved.distinct other key otherValid valid
        (same.trans isHome.symm) sameId
    · rwa [Function.update_of_ne same]
  case distinct =>
    intro other third otherValid thirdValid sameHome sameId
    have notKey := stillValid other otherValid
    have thirdNotKey := stillValid third thirdValid
    simp only [record, withRuntime, ReducerState.setMap, runtime,
      Function.update_of_ne notKey, Function.update_of_ne thirdNotKey]
      at otherValid thirdValid sameHome sameId
    exact resolved.distinct other third otherValid thirdValid sameHome sameId
  case slots =>
    have kept : ∀ h id other, other ≠ key →
        s.idNum other = ⟨true, id⟩ ∧ s.used h other = true →
        Function.update s.idNum key ⟨false, (s.idNum key).id⟩ other =
            ⟨true, id⟩ ∧
          (s.used h other && decide (other ≠ key)) = true := by
      rintro h id other different ⟨registered, used⟩
      rw [Function.update_of_ne different]
      exact ⟨registered, by simp [used, different]⟩
    apply slots_of_setMap
    · refine Slots.of_vinfo ?_ (unlogId_vinfo unlogged)
      apply (resolved.slots g _ current isCurrent).clearSlot.mono
      rintro id other - ⟨registered, elsewhere⟩
      refine kept g id other ?_ registered
      rintro rfl
      exact elsewhere (congrArg IdNum.id registered.1).symm
    · intro h slot map different found
      apply (resolved.slots h slot map found).mono
      intro id other isHeld registered
      refine kept h id other ?_ registered
      rintro rfl
      have sameId := congrArg IdNum.id registered.1
      exact documented h slot map different found (sameId ▸ isHeld)

/-- The scheduler moves the maps of a runtime, and merges them. -/
theorem Resolved.withMaps {maps : RmapSlot → Option CilkredMap}
    (resolved : Resolved s)
    (slots : ∀ slot map, maps slot = some map → map.Slots fun id key =>
      s.idNum key = ⟨true, id⟩ ∧ s.used g key = true) :
    Resolved (s.withRuntime g { s.runtime g with maps }) := by
  have sameManagers : Function.update s.managers g (s.managers g) = s.managers :=
    Function.update_eq_self ..
  constructor
  case managers =>
    simp only [withRuntime, runtime, sameManagers]
    exact resolved.managers
  case inUse =>
    simp only [withRuntime, runtime, sameManagers]
    exact resolved.inUse
  case distinct => exact resolved.distinct
  case slots =>
    intro h slot map found
    by_cases same : h = g
    · subst h
      simp only [withRuntime, Function.update_self] at found
      exact slots slot map found
    · simp only [withRuntime, Function.update_of_ne same] at found
      exact resolved.slots h slot map found

theorem Resolved.step {action : G × ReducerAction} (resolved : Resolved s)
    (apart : s.KeptApart action)
    (taken : DocumentedStep hasDestroy s action target) :
    Resolved target := by
  obtain ⟨documented, step⟩ := taken
  cases step with
  | step taken =>
      rename_i g action next
      cases taken with
      | create created => exact resolved.create documented created
      | lookup found => exact resolved.lookup found
      | destroy destroyed => exact resolved.destroy documented apart destroyed
      | move free =>
          rename_i source target
          apply resolved.withMaps
          intro slot map found
          by_cases isTarget : slot = target
          · subst slot
            rw [Function.update_self] at found
            exact resolved.slots g source map found
          · rw [Function.update_of_ne isTarget] at found
            by_cases isSource : slot = source
            · subst slot
              rw [Function.update_self] at found
              cases found
            · rw [Function.update_of_ne isSource] at found
              exact resolved.slots g slot map found
      | merge different free merged =>
          rename_i left right target merged calls
          have slots := Slots.mergeTwoRmaps (resolved.slots g left)
            (resolved.slots g right) ‹_›
          apply resolved.withMaps
          intro slot map found
          by_cases isTarget : slot = target
          · subst slot
            rw [Function.update_self] at found
            exact slots map found
          · rw [Function.update_of_ne isTarget] at found
            by_cases isRight : slot = right
            · subst slot
              rw [Function.update_self] at found
              cases found
            · rw [Function.update_of_ne isRight] at found
              by_cases isLeft : slot = left
              · subst slot
                rw [Function.update_self] at found
                cases found
              · rw [Function.update_of_ne isLeft] at found
                exact resolved.slots g slot map found

end Steps

section Lookups

variable [DecidableEq G] {managers : G → ReducerIdManager} {home : G}
  {trace : List (ReducerProcess G × G × ReducerAction)}
  {s source : ReducerProcess G} {hasDestroy : Key → Bool} {g : G} {worker : ℕ}
  {key : Key}

/-- What a worker finds in its map is a view of the reducer it asks for. -/
def ResolvesTo (s : ReducerProcess G) (g : G) (worker : ℕ) (key : Key) : Prop :=
  ∀ info, ((s.runtime g).currentMap worker).lookup (s.idNum key).id =
    some info → info.key = some key

theorem Resolved.resolvesTo (resolved : Resolved s)
    (apart : s.KeptApart (g, .lookup worker key))
    (valid : (s.idNum key).valid = true) : s.ResolvesTo g worker key := by
  intro info found
  obtain ⟨other, held, registered, used⟩ := resolved.currentMap.lookup found
  have otherValid : (s.idNum other).valid = true := by rw [registered]
  have sameId : (s.idNum other).id = (s.idNum key).id := by rw [registered]
  have sameHome : s.home other = s.home key := by
    by_contra different
    exact apart other otherValid used different sameId
  rw [held, resolved.distinct other key otherValid valid sameHome sameId]

theorem Resolved.of_run
    (initialised : ∀ g, ∃ limit,
      ReducerIdManager.init limit = .ok (managers g))
    (run : Run (DocumentedStep hasDestroy) (initial managers home) trace s)
    (apart : Meets KeptApart trace) : Resolved s := by
  apply run.invariant_of_meets apart
  · apply resolved_initial
    intro g
    obtain ⟨limit, success⟩ := initialised g
    exact (ReducerIdManager.init_spec success).1
  · intro source action target resolved condition taken
    exact resolved.step condition taken

/-- In any number of runtimes, every lookup returns a view of the reducer that
was asked for, in every run in which reducers of different runtimes with the
same ID are kept apart. -/
theorem lookups_resolve
    (initialised : ∀ g, ∃ limit,
      ReducerIdManager.init limit = .ok (managers g))
    (run : Run (DocumentedStep hasDestroy) (initial managers home) trace s)
    (apart : Meets KeptApart trace)
    (member : (source, g, ReducerAction.lookup worker key) ∈ trace) :
    source.ResolvesTo g worker key := by
  obtain ⟨before, after, target, shape, earlier, taken, -⟩ :=
    run.split_at_step member
  have apartBefore : Meets KeptApart before := by
    intro entry isBefore
    apply apart
    rw [shape]
    exact List.mem_append_left _ isBefore
  have resolved := Resolved.of_run initialised earlier apartBefore
  have valid : (source.idNum key).valid = true := by
    obtain ⟨-, ⟨step⟩⟩ := taken
    cases step with
    | lookup found => exact (ReducerState.hyperLookup_cases found).1
  exact resolved.resolvesTo (apart _ member) valid

end Lookups

section TwoRuntimes

/-- Two runtimes, each with an ID manager of its own. -/
private abbrev twoRuntimes : ReducerProcess Bool :=
  initial (fun _ => { spaCap := 1024, next := 0, hwm := 0, used := fun _ => 0 })
    false

private theorem twoRuntimes_initialised : ∀ g, ∃ limit,
    ReducerIdManager.init limit = .ok (twoRuntimes.managers g) :=
  fun _ => ⟨1024, rfl⟩

/-- A reducer is registered in each runtime.  Both have the first ID, and a
worker of the first runtime looks one of them up. -/
private theorem registered_run (key : Key) (isKey : key = 7 ∨ key = 8) :
    ∃ trace source s,
      Run (DocumentedStep fun _ => true) twoRuntimes trace s ∧
        (source, false, .lookup 0 key) ∈ trace ∧
        (key = 7 → Meets KeptApart trace) ∧
        source.idNum key = ⟨true, 0⟩ ∧
        ((source.runtime false).currentMap 0).lookup 0 =
          some ⟨some (.leftmost 7), some 7⟩ := by
  have first := Run.refl.snoc (show DocumentedStep (fun _ => true) twoRuntimes
    (false, .create 0 7) _ from ⟨rfl, .step (.create rfl)⟩)
  have second := first.snoc (show DocumentedStep (fun _ => true) _
    (true, .create 0 8) _ from ⟨rfl, .step (.create rfl)⟩)
  rcases isKey with rfl | rfl
  · refine ⟨_, _, _, second.snoc (show DocumentedStep (fun _ => true) _
      (false, .lookup 0 7) _ from ⟨trivial, .step (.lookup rfl)⟩),
      List.mem_append_right _ (List.mem_singleton_self _), ?_, rfl, rfl⟩
    intro _
    refine meets_cons.mpr ⟨trivial, meets_cons.mpr ⟨trivial,
      meets_cons.mpr ⟨?_, meets_nil _⟩⟩⟩
    intro other valid used foreign
    by_cases isEight : other = 8
    · subst other
      cases used
    · by_cases isSeven : other = 7
      · subst other
        exact absurd rfl foreign
      · have unused : (if other = 8 then false
            else if other = 7 then true else false) = false :=
          (if_neg isEight).trans (if_neg isSeven)
        exact absurd (unused.symm.trans used) Bool.false_ne_true
  · exact ⟨_, _, _, second.snoc (show DocumentedStep (fun _ => true) _
      (false, .lookup 0 8) _ from ⟨trivial, .step (.lookup rfl)⟩),
      List.mem_append_right _ (List.mem_singleton_self _), nofun, rfl, rfl⟩

theorem lookups_resolve_own : ∃ trace source s,
    Run (DocumentedStep fun _ => true) twoRuntimes trace s ∧
      (source, false, ReducerAction.lookup 0 7) ∈ trace ∧
      source.ResolvesTo false 0 7 := by
  obtain ⟨trace, source, s, run, member, apart, -⟩ := registered_run 7 (.inl rfl)
  exact ⟨trace, source, s, run, member,
    lookups_resolve twoRuntimes_initialised run (apart rfl) member⟩

/-- The reducer of the second runtime resolves to the view of the first one's
reducer. -/
theorem lookup_finds_other_reducer :
    ¬ ∀ trace (s : ReducerProcess Bool),
      Run (DocumentedStep fun _ => true) twoRuntimes trace s →
      ∀ source g worker key,
        (source, g, ReducerAction.lookup worker key) ∈ trace →
        source.ResolvesTo g worker key := by
  intro resolves
  obtain ⟨trace, source, s, run, member, -, hasId, found⟩ :=
    registered_run 8 (.inr rfl)
  have isEight := resolves trace s run source false 0 8 member _
    (by rw [hasId]; exact found)
  cases isEight

end TwoRuntimes

end ReducerProcess

end Multicilk
