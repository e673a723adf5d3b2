import Multicilk.Reducer.Runtime

/-!
# What may be in the slots of a map

A property of the keys in the slots is kept by all operations on maps, whatever
the logs and counts say.
-/

namespace Multicilk

namespace CilkredMap

/-- Every key in a slot is allowed there, and a slot without a key has no
view. -/
def Slots (allowed : ℕ → Key → Prop) (map : CilkredMap) : Prop :=
  ∀ id, (∀ key, (map.vinfo id).key = some key → allowed id key) ∧
    ((map.vinfo id).key = none → (map.vinfo id).val = none)

variable {allowed weaker : ℕ → Key → Prop} {map updated left right : CilkredMap}
  {id serial : ℕ} {key : Key} {info : ViewInfo}

theorem slots_makeMap (size : ℕ) : (makeMap size).Slots allowed :=
  fun _ => ⟨nofun, fun _ => rfl⟩

theorem Slots.mono (slots : map.Slots allowed)
    (weaken : ∀ id key, (map.vinfo id).key = some key → allowed id key →
      weaker id key) : map.Slots weaker :=
  fun id => ⟨fun key held => weaken id key held ((slots id).1 key held),
    (slots id).2⟩

theorem Slots.of_vinfo (slots : map.Slots allowed)
    (same : updated.vinfo = map.vinfo) : updated.Slots allowed := by
  intro id
  rw [same]
  exact slots id

theorem Slots.setSlot (slots : map.Slots allowed)
    (isAllowed : ∀ key, info.key = some key → allowed id key)
    (noView : info.key = none → info.val = none) :
    (map.setSlot id info).Slots allowed := by
  intro other
  by_cases same : other = id
  · subst other
    simp only [CilkredMap.setSlot, Function.update_self]
    exact ⟨isAllowed, noView⟩
  · simp only [CilkredMap.setSlot, Function.update_of_ne same]
    exact slots other

/-- Where a key goes whose slot is emptied. -/
theorem Slots.clearSlot (slots : map.Slots allowed) :
    (map.setSlot id .empty).Slots
      fun other key => allowed other key ∧ other ≠ id := by
  intro other
  by_cases same : other = id
  · subst other
    simp only [CilkredMap.setSlot, Function.update_self]
    constructor
    · intro key held
      cases held
    · exact fun _ => rfl
  · simp only [CilkredMap.setSlot, Function.update_of_ne same]
    exact ⟨fun key held => ⟨(slots other).1 key held, same⟩, (slots other).2⟩

theorem logId_vinfo (logged : map.logId id = .ok updated) :
    updated.vinfo = map.vinfo := by
  unfold logId at logged
  split at logged
  · cases logged
  · split at logged
    · cases logged
    · split at logged
      · cases logged
      · split at logged
        · cases logged
          rfl
        · split at logged <;> cases logged <;> rfl

theorem unlogId_vinfo (unlogged : map.unlogId id = .ok updated) :
    updated.vinfo = (map.setSlot id .empty).vinfo := by
  unfold unlogId at unlogged
  split at unlogged
  · cases unlogged
  · split at unlogged
    · cases unlogged
    · split at unlogged
      · cases unlogged
      · cases unlogged
        rfl

theorem Slots.install {view : View} (slots : map.Slots allowed)
    (isAllowed : allowed id key)
    (installed : map.install id key view = .ok updated) :
    updated.Slots allowed := by
  have set : (map.setSlot id ⟨some view, some key⟩).Slots allowed :=
    slots.setSlot (fun other held => Option.some.inj held ▸ isAllowed) nofun
  exact set.of_vinfo (logId_vinfo installed)

theorem Slots.hyperCreate (slots : map.Slots allowed)
    (isAllowed : allowed id key)
    (created : map.hyperCreate id key = .ok updated) :
    updated.Slots allowed := by
  unfold CilkredMap.hyperCreate at created
  split at created
  · cases created
  · split at created
    · cases created
    · exact slots.install isAllowed created

theorem Slots.hyperLookup {view : Option View} (slots : map.Slots allowed)
    (isAllowed : allowed id key)
    (found : map.hyperLookup id key serial = .ok (view, updated)) :
    updated.Slots allowed := by
  unfold CilkredMap.hyperLookup at found
  split at found
  · cases found
  · split at found
    next => cases found; exact slots
    next =>
      split at found
      · cases found
      · split at found
        · cases found
        · split at found
          next => cases found
          next installed =>
            cases found
            exact slots.install isAllowed installed

/-- What a lookup that finds a view returns. -/
theorem Slots.lookup (slots : map.Slots allowed)
    (found : map.lookup id = some info) :
    ∃ key, info.key = some key ∧ allowed id key := by
  unfold CilkredMap.lookup at found
  split at found
  · cases found
  · split at found
    · cases found
    next occupied =>
      cases found
      cases held : (map.vinfo id).key with
      | none => exact absurd ⟨held, (slots id).2 held⟩ occupied
      | some key => exact ⟨key, rfl, (slots id).1 key held⟩

section Merge

variable {hasDestroy : Key → Bool} {kind : MergeKind}
  {state next : MergeState}

def BothSlots (allowed : ℕ → Key → Prop) (state : MergeState) : Prop :=
  state.this.Slots allowed ∧ state.other.Slots allowed

theorem BothSlots.mergeSlot (slots : BothSlots allowed state)
    (merged : mergeSlot hasDestroy kind id state = .ok next) :
    BothSlots allowed next := by
  obtain ⟨thisSlots, otherSlots⟩ := slots
  unfold Multicilk.mergeSlot at merged
  split at merged
  next mine held =>
    split at merged
    next => cases merged
    next key otherHeld =>
      split at merged
      · cases merged
      next same =>
        cases merged
        refine ⟨thisSlots.setSlot ?_ ?_,
          otherSlots.setSlot nofun fun _ => rfl⟩
        · have unchanged := (thisSlots id).1
          cases kind <;> exact unchanged
        · intro none
          have noKey : (state.this.vinfo id).key = Option.none := by
            cases kind <;> exact none
          rw [held] at noKey
          cases noKey
  next =>
    split at merged
    · cases merged
    · split at merged
      next => cases merged
      next this logged =>
        cases merged
        refine ⟨Slots.of_vinfo ?_ (logId_vinfo logged), ?_⟩
        · exact thisSlots.setSlot (otherSlots id).1 (otherSlots id).2
        · exact otherSlots.setSlot (thisSlots id).1 (thisSlots id).2

theorem BothSlots.forEachId
    {body : ℕ → MergeState → Except Abort MergeState} (ids : List ℕ)
    (slots : BothSlots allowed state)
    (each : ∀ {id state next}, BothSlots allowed state →
      body id state = .ok next → BothSlots allowed next)
    (merged : forEachId body ids state = .ok next) :
    BothSlots allowed next := by
  induction ids generalizing state with
  | nil =>
      cases merged
      exact slots
  | cons id ids ih =>
      unfold Multicilk.forEachId at merged
      split at merged
      next => cases merged
      next found => exact ih (each slots found) merged

theorem BothSlots.mergeLoop (slots : BothSlots allowed state)
    (merged : mergeLoop hasDestroy kind state = .ok next) :
    BothSlots allowed next := by
  unfold Multicilk.mergeLoop at merged
  split at merged
  · exact slots.forEachId _ (fun slots => slots.mergeSlot) merged
  · refine slots.forEachId _ ?_ merged
    intro id state next slots scanned
    unfold mergeScannedSlot at scanned
    split at scanned
    · cases scanned
      exact slots
    · exact slots.mergeSlot scanned

theorem Slots.cilkredMapMerge {calls : List MonoidCall}
    (leftSlots : left.Slots allowed) (rightSlots : right.Slots allowed)
    (merged : cilkredMapMerge hasDestroy left right kind =
      .ok (map, calls)) : map.Slots allowed := by
  unfold Multicilk.cilkredMapMerge at merged
  dsimp only at merged
  split at merged
  · cases merged
    exact leftSlots
  · split at merged
    next => cases merged
    next final looped =>
      cases merged
      have both : BothSlots allowed final :=
        BothSlots.mergeLoop ⟨leftSlots, rightSlots⟩ looped
      exact both.1

/-- A merged map has no keys but those of the two maps. -/
theorem Slots.mergeTwoRmaps {leftMap rightMap merged : Option CilkredMap}
    {calls : List MonoidCall}
    (leftSlots : ∀ map, leftMap = some map → map.Slots allowed)
    (rightSlots : ∀ map, rightMap = some map → map.Slots allowed)
    (success : mergeTwoRmaps hasDestroy leftMap rightMap =
      .ok (merged, calls)) :
    ∀ map, merged = some map → map.Slots allowed := by
  rintro map rfl
  cases leftMap with
  | none =>
      cases success
      exact rightSlots map rfl
  | some left =>
      cases rightMap with
      | none =>
          cases success
          exact leftSlots map rfl
      | some right =>
          simp only [Multicilk.mergeTwoRmaps] at success
          split at success
          next => cases success
          next merge =>
            cases success
            unfold mergeMaps at merge
            split at merge
            · exact (leftSlots left rfl).cilkredMapMerge (rightSlots right rfl)
                merge
            · exact (rightSlots right rfl).cilkredMapMerge (leftSlots left rfl)
                merge

end Merge

end CilkredMap

end Multicilk
