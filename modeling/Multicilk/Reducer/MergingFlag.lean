import Multicilk.Reducer.Runtime
import Multicilk.Support.Run

/-!
# The flag of a merge in progress

A merge sets the flags of both maps.  It clears them at its end, but not where
it returns early because the map that is merged away has no view.
-/

namespace Multicilk

open TransitionSystem

variable {hasDestroy : Key → Bool}

section Map

variable {map updated : CilkredMap} {id serial : ℕ} {key : Key}

@[simp] theorem CilkredMap.merging_makeMap (size : ℕ) :
    (CilkredMap.makeMap size).merging = false := rfl

theorem CilkredMap.logId_merging (success : map.logId id = .ok updated) :
    updated.merging = map.merging := by
  simp only [CilkredMap.logId] at success
  split_ifs at success
  all_goals
    cases success
    rfl

theorem CilkredMap.install_merging {view : View}
    (success : map.install id key view = .ok updated) :
    updated.merging = map.merging :=
  @CilkredMap.logId_merging (map.setSlot id _) updated id success

theorem CilkredMap.hyperCreate_merging
    (success : map.hyperCreate id key = .ok updated) :
    updated.merging = map.merging := by
  simp only [CilkredMap.hyperCreate] at success
  split_ifs at success
  exact CilkredMap.install_merging success

theorem CilkredMap.hyperLookup_merging {view : Option View}
    (success : map.hyperLookup id key serial = .ok (view, updated)) :
    updated.merging = map.merging := by
  simp only [CilkredMap.hyperLookup] at success
  split at success
  · cases success
  · split at success
    · cases success
      rfl
    · split_ifs at success
      split at success
      · cases success
      · rename_i result installed
        cases success
        exact CilkredMap.install_merging installed

theorem CilkredMap.hyperDestroy_merging
    (success : map.hyperDestroy id = .ok updated) :
    updated.merging = map.merging := by
  simp only [CilkredMap.hyperDestroy, CilkredMap.unlogId] at success
  split_ifs at success <;>
    cases success <;>
    rfl

theorem CilkredMap.logId_error {abort : Abort}
    (failure : map.logId id = .error abort) : abort ≠ .usedByAnother := by
  rintro rfl
  simp only [CilkredMap.logId] at failure
  split_ifs at failure <;>
    cases failure

theorem CilkredMap.install_error {view : View} {abort : Abort}
    (failure : map.install id key view = .error abort) :
    abort ≠ .usedByAnother :=
  @CilkredMap.logId_error (map.setSlot id _) id abort failure

/-- Operations complain about another one only when the flag is set. -/
theorem CilkredMap.hyperCreate_idle (idle : map.merging = false) :
    map.hyperCreate id key ≠ .error .usedByAnother := by
  intro failure
  simp only [CilkredMap.hyperCreate, idle] at failure
  split at failure
  · cases failure
  · exact CilkredMap.install_error failure rfl

theorem CilkredMap.hyperLookup_idle (idle : map.merging = false) :
    map.hyperLookup id key serial ≠ .error .usedByAnother := by
  intro failure
  simp only [CilkredMap.hyperLookup, idle, Bool.false_eq_true,
    if_false] at failure
  split at failure
  · cases failure
  · split at failure
    · cases failure
    · split at failure
      · cases failure
      · split at failure
        · rename_i abort installed
          cases failure
          exact CilkredMap.install_error installed rfl
        · cases failure

theorem CilkredMap.hyperDestroy_idle (idle : map.merging = false) :
    map.hyperDestroy id ≠ .error .usedByAnother := by
  intro failure
  simp only [CilkredMap.hyperDestroy, idle, Bool.false_eq_true, if_false,
    CilkredMap.unlogId] at failure
  split_ifs at failure <;>
    cases failure

/-- A merge leaves the flag set exactly when it returns early. -/
theorem mergeMaps_merging {left right merged : CilkredMap}
    {calls : List MonoidCall}
    (success : mergeMaps hasDestroy left right = .ok (merged, calls)) :
    merged.merging = false ↔ left.numOfVinfo ≠ 0 ∧ right.numOfVinfo ≠ 0 := by
  have flag : ∀ {this other : CilkredMap} {kind : MergeKind},
      cilkredMapMerge hasDestroy this other kind = .ok (merged, calls) →
        (merged.merging = false ↔ other.numOfVinfo ≠ 0) := by
    intro this other kind success
    simp only [cilkredMapMerge] at success
    split at success
    · rename_i empty
      cases success
      simp [empty]
    · rename_i nonempty
      split at success
      · cases success
      · cases success
        simp [nonempty]
  unfold mergeMaps at success
  split at success
  · rename_i larger
    have nonempty : left.numOfVinfo ≠ 0 := by
      rcases larger with leftmost | larger
      · cases leftmost
      · omega
    rw [flag success]
    simp [nonempty]
  · rename_i smaller
    rw [not_or] at smaller
    rw [flag success]
    constructor
    · intro nonempty
      exact ⟨nonempty, by omega⟩
    · exact And.left

end Map

namespace ReducerState

variable {state next : ReducerState}

/-- No map that is held anywhere looks as if it were being merged, so no
operation stops because of that. -/
structure FlagsClear (state : ReducerState) : Prop where
  clear : ∀ slot map, state.maps slot = some map → map.merging = false
  create : ∀ worker key, state.hyperCreate worker key ≠ .error .usedByAnother
  lookup : ∀ worker key, state.hyperLookup worker key ≠ .error .usedByAnother
  destroy : ∀ worker key, state.hyperDestroy worker key ≠ .error .usedByAnother

theorem flagsClear_of_clear
    (clear : ∀ slot map, state.maps slot = some map → map.merging = false) :
    FlagsClear state := by
  have current : ∀ worker, (state.currentMap worker).merging = false := by
    intro worker
    unfold currentMap
    split
    · rename_i map held
      exact clear _ map held
    · rfl
  constructor
  case clear => exact clear
  case create =>
    intro worker key failure
    simp only [hyperCreate] at failure
    split at failure
    · rename_i abort refused
      cases failure
      simp only [ReducerIdManager.get] at refused
      split_ifs at refused
      cases refused
    · split at failure
      · rename_i abort refused
        cases failure
        exact CilkredMap.hyperCreate_idle (current worker) refused
      · cases failure
  case lookup =>
    intro worker key failure
    simp only [hyperLookup] at failure
    split_ifs at failure
    · cases failure
    · split at failure
      · rename_i abort refused
        cases failure
        exact CilkredMap.hyperLookup_idle (current worker) refused
      · cases failure
  case destroy =>
    intro worker key failure
    simp only [hyperDestroy] at failure
    split_ifs at failure
    · cases failure
    · split at failure
      · cases failure
      · rename_i map held
        split at failure
        · rename_i abort refused
          cases failure
          exact CilkredMap.hyperDestroy_idle (clear _ map held) refused
        · split at failure
          · rename_i abort refused
            cases failure
            simp only [ReducerIdManager.free] at refused
            split_ifs at refused <;> cases refused
          · cases failure

/-- Two maps are merged only when both have a view. -/
def NonemptyMerge (state : ReducerState) : ReducerAction → Prop
  | .merge left right _ => ∀ leftMap rightMap,
      state.maps left = some leftMap → state.maps right = some rightMap →
      leftMap.numOfVinfo ≠ 0 ∧ rightMap.numOfVinfo ≠ 0
  | _ => True

theorem FlagsClear.currentMap (flagsClear : FlagsClear state) (worker : ℕ) :
    (state.currentMap worker).merging = false := by
  unfold ReducerState.currentMap
  split
  · rename_i map held
    exact flagsClear.clear _ map held
  · rfl

theorem clear_setMap {slot : RmapSlot} {map : CilkredMap}
    (clear : ∀ slot map, state.maps slot = some map → map.merging = false)
    (idle : map.merging = false) :
    ∀ other held, (state.setMap slot map).maps other = some held →
      held.merging = false := by
  intro other held holds
  by_cases same : other = slot
  · subst other
    simp only [setMap, Function.update_self, Option.some.injEq] at holds
    exact holds ▸ idle
  · simp only [setMap, Function.update_of_ne same] at holds
    exact clear other held holds

/-- The flag of what a merge yields, where a missing map counts as clear. -/
theorem mergeTwoRmaps_merging {left right merged : Option CilkredMap}
    {calls : List MonoidCall}
    (leftClear : ∀ map, left = some map → map.merging = false)
    (rightClear : ∀ map, right = some map → map.merging = false)
    (success : mergeTwoRmaps hasDestroy left right = .ok (merged, calls)) :
    (∀ map, merged = some map → map.merging = false) ↔
      ∀ leftMap rightMap, left = some leftMap → right = some rightMap →
        leftMap.numOfVinfo ≠ 0 ∧ rightMap.numOfVinfo ≠ 0 := by
  cases left with
  | none =>
      simp only [mergeTwoRmaps, Except.ok.injEq, Prod.mk.injEq] at success
      obtain ⟨rfl, -⟩ := success
      simpa using rightClear
  | some leftMap =>
      cases right with
      | none =>
          simp only [mergeTwoRmaps, Except.ok.injEq, Prod.mk.injEq] at success
          obtain ⟨rfl, -⟩ := success
          simpa using leftClear
      | some rightMap =>
          simp only [mergeTwoRmaps] at success
          split at success
          · cases success
          · rename_i map mapCalls merge
            simp only [Except.ok.injEq, Prod.mk.injEq] at success
            obtain ⟨rfl, -⟩ := success
            simpa using mergeMaps_merging merge

/-- A step keeps the flags clear exactly when it is not a merge that returns
early. -/
theorem FlagsClear.step_iff {action : ReducerAction}
    (flagsClear : FlagsClear state)
    (taken : Step hasDestroy state action next) :
    FlagsClear next ↔ state.NonemptyMerge action := by
  cases taken with
  | @create _ worker key success =>
      obtain ⟨id, idManager, map, -, created, rfl⟩ := hyperCreate_cases success
      refine iff_of_true (flagsClear_of_clear ?_) trivial
      apply clear_setMap flagsClear.clear
      rw [CilkredMap.hyperCreate_merging created]
      exact flagsClear.currentMap worker
  | @lookup _ worker key view success =>
      obtain ⟨-, map, lookedUp, rfl⟩ := hyperLookup_cases success
      refine iff_of_true (flagsClear_of_clear ?_) trivial
      apply clear_setMap flagsClear.clear
      rw [CilkredMap.hyperLookup_merging lookedUp]
      exact flagsClear.currentMap worker
  | @destroy _ worker key success =>
      obtain ⟨-, current, map, idManager, -, idle, unlogged, -, rfl⟩ :=
        hyperDestroy_cases success
      refine iff_of_true (flagsClear_of_clear ?_) trivial
      apply clear_setMap flagsClear.clear
      have destroyed : current.hyperDestroy (state.idNum key).id = .ok map := by
        simp [CilkredMap.hyperDestroy, idle, unlogged]
      rw [CilkredMap.hyperDestroy_merging destroyed, idle]
  | @move source target vacant =>
      refine iff_of_true (flagsClear_of_clear ?_) trivial
      intro slot map holds
      simp only [moveMap, Function.update_apply] at holds
      split_ifs at holds
      · exact flagsClear.clear source map holds
      · exact flagsClear.clear slot map holds
  | @merge left right target merged calls different vacant success =>
      have flag := mergeTwoRmaps_merging (flagsClear.clear left)
        (flagsClear.clear right) success
      rw [NonemptyMerge, ← flag]
      constructor
      · intro nextClear map held
        apply nextClear.clear target map
        simpa [keepMerged] using held
      · intro mergedClear
        apply flagsClear_of_clear
        intro slot map holds
        simp only [keepMerged, Function.update_apply] at holds
        split_ifs at holds
        · exact mergedClear map holds
        · exact flagsClear.clear slot map holds

/-- In every run the flags of all held maps are clear in every state if and
only if no map without a view takes part in a merge of two maps.  The result of
the first of the two merges in `Closure_return` is a held map as well, although a
second merge can still clear its flag. -/
theorem flagsClear_iff_nonemptyMerges {manager : ReducerIdManager}
    {trace : List (ReducerState × ReducerAction)} {final : ReducerState}
    (run : Run (Step hasDestroy) (initial manager) trace final) :
    ((∀ entry ∈ trace, FlagsClear entry.1) ∧ FlagsClear final) ↔
      Meets NonemptyMerge trace := by
  apply @Run.property_iff _ _ _ _ _ _ NonemptyMerge FlagsClear _ run
  · exact flagsClear_of_clear (by simp [initial])
  · exact fun _ flagsClear => flagsClear
  · intro source action target flagsClear nonempty taken
    exact (flagsClear.step_iff taken).mpr nonempty
  · intro source action target flagsClear violated taken targetClear
    exact violated ((flagsClear.step_iff taken).mp targetClear)

/-- Two workers make a reducer each, and their maps are merged. -/
theorem flagsClear_after_merge :
    ∃ manager trace final,
      Run (Step fun _ => true) (initial manager) trace final ∧
      trace.map Prod.snd = [.create 0 7, .create 1 8,
        .merge (.reducerMap 0) (.reducerMap 1) (.reducerMap 1)] ∧
      FlagsClear final := by
  obtain ⟨trace, final, run, actions, nonempty⟩ : ∃ trace final,
      Run (Step fun _ => true) (initial
        { spaCap := 64, next := 0, hwm := 0, used := fun _ => 0 }) trace final ∧
      trace.map Prod.snd = [.create 0 7, .create 1 8,
        .merge (.reducerMap 0) (.reducerMap 1) (.reducerMap 1)] ∧
      Meets NonemptyMerge trace := by
    refine ⟨_, _, ((Run.refl.snoc (@Step.create _ _ _ 0 7 rfl)).snoc
      (@Step.create _ _ _ 1 8 rfl)).snoc
      (@Step.merge _ _ (.reducerMap 0) (.reducerMap 1) (.reducerMap 1) _ _
        (by decide) (.inr (.inl rfl)) rfl), rfl, ?_⟩
    refine meets_cons.mpr ⟨trivial, meets_cons.mpr ⟨trivial,
      meets_cons.mpr ⟨?_, meets_nil _⟩⟩⟩
    intro leftMap rightMap onLeft onRight
    cases onLeft
    cases onRight
    exact ⟨by decide, by decide⟩
  exact ⟨_, trace, final, run, actions,
    ((flagsClear_iff_nonemptyMerges run).mpr nonempty).2⟩

/-- A strand registers and unregisters its only reducer.  Merging its map into
another one leaves that map unusable. -/
theorem flag_stuck_after_empty_merge :
    ∃ manager trace final map,
      ReducerIdManager.init 1024 = .ok manager ∧
      Run (Step fun _ => true) (initial manager) trace final ∧
      trace.map Prod.snd = [.create 0 7, .destroy 0 7, .create 1 8,
        .move (.reducerMap 0) (.childRmap 0),
        .merge (.childRmap 0) (.reducerMap 1) (.reducerMap 1)] ∧
      final.maps (.reducerMap 1) = some map ∧ map.merging = true ∧
      final.hyperLookup 1 8 = .error .usedByAnother := by
  refine ⟨{ spaCap := 1024, next := 0, hwm := 0, used := fun _ => 0 }, _, _, _,
    rfl, ((((Run.refl.snoc (@Step.create _ _ _ 0 7 rfl)).snoc
      (@Step.destroy _ _ _ 0 7 rfl)).snoc
      (@Step.create _ _ _ 1 8 rfl)).snoc
      (@Step.move _ _ (.reducerMap 0) (.childRmap 0) rfl)).snoc
      (@Step.merge _ _ (.childRmap 0) (.reducerMap 1) (.reducerMap 1) _ _
        (by decide) (.inr (.inl rfl)) rfl), rfl, rfl, rfl, rfl⟩

end ReducerState

end Multicilk
