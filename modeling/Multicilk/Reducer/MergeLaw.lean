import Mathlib.Data.Set.BooleanAlgebra
import Mathlib.Data.Set.Insert
import Mathlib.Order.CompletePartialOrder
import Mathlib.Order.Disjoint
import Multicilk.Reducer.MapMerge

/-!
# Merging maps that were built by insertions and merges

Every view of such a map is an object of its own.  Two maps without a view in
common therefore merge into the slot-wise reduction, and exactly the right
views of the common slots are given up.
-/

namespace Multicilk

open CilkredMap

section Built

variable (hasDestroy : Key → Bool)

/-- The maps that insertions and merges build out of empty ones, with the views
that went into them. -/
inductive Built (cap : ℕ) : Set View → CilkredMap → Prop where
  | makeMap : Built cap ∅ (makeMap cap)
  | create {views : Set View} {map updated : CilkredMap} {id : ℕ} {key : Key} :
      Built cap views map → id < cap → .leftmost key ∉ views →
      map.hyperCreate id key = .ok updated →
      Built cap (insert (.leftmost key) views) updated
  | lookup {views : Set View} {map updated : CilkredMap} {id serial : ℕ}
      {key : Key} {view : Option View} :
      Built cap views map → .allocated serial ∉ views →
      map.hyperLookup id key serial = .ok (view, updated) →
      Built cap (insert (.allocated serial) views) updated
  | merge {leftViews rightViews : Set View} {left right merged : CilkredMap}
      {calls : List MonoidCall} :
      Built cap leftViews left → Built cap rightViews right →
      Disjoint leftViews rightViews → KeysAgree left right →
      mergeMaps hasDestroy left right = .ok (merged, calls) →
      Built cap (leftViews ∪ rightViews) merged

end Built

/-- The map holds the views of the set only, each of them in one slot. -/
structure DistinctViews (views : Set View) (map : CilkredMap) : Prop where
  mem : ∀ id view, (map.vinfo id).val = some view → view ∈ views
  injective : ∀ id other view, (map.vinfo id).val = some view →
    (map.vinfo other).val = some view → id = other

theorem distinctViews_makeMap (cap : ℕ) : DistinctViews ∅ (makeMap cap) := by
  constructor <;> simp [makeMap, ViewInfo.empty]

theorem DistinctViews.installed {views : Set View} {map updated : CilkredMap}
    {id : ℕ} {key : Key} {view : View} (distinct : DistinctViews views map)
    (fresh : view ∉ views)
    (shape : updated.vinfo = Function.update map.vinfo id
      { val := some view, key := some key }) :
    DistinctViews (insert view views) updated := by
  have cases : ∀ slot found, (updated.vinfo slot).val = some found →
      (slot = id ∧ found = view) ∨
        (slot ≠ id ∧ (map.vinfo slot).val = some found) := by
    intro slot found holds
    rw [shape] at holds
    by_cases same : slot = id
    · subst slot
      simp only [Function.update_self, Option.some.injEq] at holds
      exact .inl ⟨rfl, holds.symm⟩
    · rw [Function.update_of_ne same] at holds
      exact .inr ⟨same, holds⟩
  constructor
  · intro slot found holds
    rcases cases slot found holds with ⟨-, rfl⟩ | ⟨-, old⟩
    · exact Set.mem_insert _ _
    · exact Set.mem_insert_of_mem _ (distinct.mem slot found old)
  · intro slot other found here there
    rcases cases slot found here with ⟨rfl, rfl⟩ | ⟨-, old⟩
    · rcases cases other found there with ⟨rfl, -⟩ | ⟨-, stale⟩
      · rfl
      · exact absurd (distinct.mem other found stale) fresh
    · rcases cases other found there with ⟨-, rfl⟩ | ⟨-, older⟩
      · exact absurd (distinct.mem slot found old) fresh
      · exact distinct.injective slot other found old older

theorem DistinctViews.eq_of_val {views : Set View} {map : CilkredMap}
    {id other : ℕ} {key : Key} {view : Option View}
    (distinct : DistinctViews views map) (wellFormed : map.WellFormed)
    (here : map.vinfo id = { val := view, key := some key })
    (there : (map.vinfo other).val = view) : other = id := by
  have present : (map.vinfo id).val ≠ none := by
    rw [ne_eq, ← wellFormed.keyVal]
    simp [here]
  rw [here] at present
  obtain ⟨object, rfl⟩ := Option.ne_none_iff_exists'.mp present
  exact distinct.injective other id object there (by rw [here])

theorem DistinctViews.weaken {views : Set View} {map : CilkredMap}
    (distinct : DistinctViews views map) (view : View) :
    DistinctViews (insert view views) map where
  mem id found holds :=
    Set.mem_insert_of_mem view (distinct.mem id found holds)
  injective := distinct.injective

section Law

variable {hasDestroy : Key → Bool} {cap : ℕ}
  {leftViews rightViews views : Set View}
  {left right merged map : CilkredMap} {calls : List MonoidCall}

/-- A merged slot holds the view of one of the two sides. -/
theorem OrderedReduction.val_eq
    (reduction : OrderedReduction hasDestroy left right merged calls) (id : ℕ) :
    merged.vinfo id = left.vinfo id ∨ merged.vinfo id = right.vinfo id := by
  rw [reduction.slots, ViewInfo.orElse]
  split
  · exact .inr rfl
  · exact .inl rfl

theorem OrderedReduction.distinctViews
    (reduction : OrderedReduction hasDestroy left right merged calls)
    (leftDistinct : DistinctViews leftViews left)
    (rightDistinct : DistinctViews rightViews right)
    (disjoint : Disjoint leftViews rightViews) :
    DistinctViews (leftViews ∪ rightViews) merged := by
  constructor
  · intro id view holds
    rcases reduction.val_eq id with same | same <;> rw [same] at holds
    · exact .inl (leftDistinct.mem id view holds)
    · exact .inr (rightDistinct.mem id view holds)
  · intro id other view here there
    rcases reduction.val_eq id with same | same <;> rw [same] at here <;>
      rcases reduction.val_eq other with same | same <;> rw [same] at there
    · exact leftDistinct.injective id other view here there
    · exact absurd (rightDistinct.mem other view there)
        (Set.disjoint_left.mp disjoint (leftDistinct.mem id view here))
    · exact absurd (rightDistinct.mem id view here)
        (Set.disjoint_left.mp disjoint (leftDistinct.mem other view there))
    · exact rightDistinct.injective id other view here there

/-- What building a map by insertions and merges guarantees. -/
theorem Built.spec (built : Built hasDestroy cap views map) :
    map.WellFormed ∧ map.spaCap = cap ∧ DistinctViews views map := by
  induction built with
  | makeMap => exact ⟨wellFormed_makeMap cap, rfl, distinctViews_makeMap cap⟩
  | create _ bound fresh success induction =>
      obtain ⟨wellFormed, rfl, distinct⟩ := induction
      obtain ⟨unused, -, installed⟩ := hyperCreate_spec wellFormed success
      obtain ⟨updatedWellFormed, spaCap, -, vinfo⟩ :=
        install_spec wellFormed bound unused installed
      exact ⟨updatedWellFormed, spaCap, distinct.installed fresh vinfo⟩
  | lookup _ fresh success induction =>
      obtain ⟨wellFormed, rfl, distinct⟩ := induction
      obtain ⟨-, ⟨-, rfl⟩ | ⟨bound, unused, -, installed⟩⟩ :=
        hyperLookup_spec wellFormed success
      · exact ⟨wellFormed, rfl, distinct.weaken _⟩
      · obtain ⟨updatedWellFormed, spaCap, -, vinfo⟩ :=
          install_spec wellFormed bound unused installed
        exact ⟨updatedWellFormed, spaCap, distinct.installed fresh vinfo⟩
  | merge _ _ disjoint agree success leftInduction rightInduction =>
      obtain ⟨leftWellFormed, leftCap, leftDistinct⟩ := leftInduction
      obtain ⟨rightWellFormed, rightCap, rightDistinct⟩ := rightInduction
      obtain ⟨result, resultCalls, merge, reduction, -⟩ :=
        mergeMaps_spec hasDestroy leftWellFormed rightWellFormed
          (leftCap.trans rightCap.symm) agree
      rw [success, Except.ok.injEq, Prod.mk.injEq] at merge
      obtain ⟨rfl, rfl⟩ := merge
      exact ⟨reduction.wellFormed, reduction.spaCap.trans leftCap,
        reduction.distinctViews leftDistinct rightDistinct disjoint⟩

/-- The slot-wise reduction of two maps, of which the first is serially
earlier.  Values that are given up are right views of common slots. -/
structure SlotwiseReduction (hasDestroy : Key → Bool)
    (left right merged : CilkredMap) (calls : List MonoidCall) : Prop where
  spaCap : merged.spaCap = left.spaCap
  common : ∀ id, (left.vinfo id).key ≠ none → (right.vinfo id).key ≠ none →
    merged.vinfo id = left.vinfo id
  leftOnly : ∀ id, (left.vinfo id).key ≠ none → (right.vinfo id).key = none →
    merged.vinfo id = left.vinfo id
  rightOnly : ∀ id, (left.vinfo id).key = none → (right.vinfo id).key ≠ none →
    merged.vinfo id = right.vinfo id
  vacant : ∀ id, (left.vinfo id).key = none → (right.vinfo id).key = none →
    merged.vinfo id = .empty
  count : merged.numOfVinfo = (left.liveSlots ∪ right.liveSlots).card
  reduced : ∀ id key leftView rightView,
    left.vinfo id = { val := leftView, key := some key } →
    right.vinfo id = { val := rightView, key := some key } →
    calls.count (.reduce key leftView rightView) = 1 ∧
      calls.count (.destroy key rightView) = (hasDestroy key).toNat ∧
      calls.count (.deallocate key rightView) = 1
  onlyReduced : ∀ key leftView rightView,
    .reduce key leftView rightView ∈ calls →
    ∃ id, left.vinfo id = { val := leftView, key := some key } ∧
      right.vinfo id = { val := rightView, key := some key }
  onlyRight : ∀ key view,
    .destroy key view ∈ calls ∨ .deallocate key view ∈ calls →
    ∃ id, (left.vinfo id).key = some key ∧
      right.vinfo id = { val := view, key := some key }
  neverLeft : ∀ id key view, (left.vinfo id).val = some view →
    .destroy key (some view) ∉ calls ∧ .deallocate key (some view) ∉ calls

theorem mem_slotCalls {leftInfo rightInfo : ViewInfo} {call : MonoidCall} :
    call ∈ slotCalls hasDestroy leftInfo rightInfo ↔
      ∃ key rightKey, leftInfo.key = some key ∧ rightInfo.key = some rightKey ∧
        (call = .reduce key leftInfo.val rightInfo.val ∨
          (hasDestroy rightKey = true ∧
            call = .destroy rightKey rightInfo.val) ∨
          call = .deallocate rightKey rightInfo.val) := by
  rcases leftInfo with ⟨leftVal, _ | leftKey⟩ <;>
    rcases rightInfo with ⟨rightVal, _ | rightKey⟩ <;>
    simp [slotCalls, clearView]

theorem count_slotCalls {key : Key} {leftView rightView : Option View} :
    let calls := slotCalls hasDestroy
      { val := leftView, key := some key } { val := rightView, key := some key }
    calls.count (.reduce key leftView rightView) = 1 ∧
      calls.count (.destroy key rightView) = (hasDestroy key).toNat ∧
      calls.count (.deallocate key rightView) = 1 := by
  cases destroys : hasDestroy key <;>
    simp [slotCalls, clearView, destroys]

/-- A call that belongs to one slot only is made as often as for that slot. -/
theorem count_flatMap_of_unique {callsOf : ℕ → List MonoidCall}
    {call : MonoidCall} {order : List ℕ} {id : ℕ} (nodup : order.Nodup)
    (member : id ∈ order)
    (unique : ∀ other ∈ order, call ∈ callsOf other → other = id) :
    (order.flatMap callsOf).count call = (callsOf id).count call := by
  have silent : ∀ slots : List ℕ, (∀ slot ∈ slots, slot ∈ order) →
      id ∉ slots → (slots.flatMap callsOf).count call = 0 := by
    intro slots sub absent
    rw [List.count_eq_zero, List.mem_flatMap]
    rintro ⟨slot, slotMember, made⟩
    exact absent (unique slot (sub slot slotMember) made ▸ slotMember)
  obtain ⟨before, after, rfl⟩ := List.append_of_mem member
  rw [List.nodup_append, List.nodup_cons] at nodup
  obtain ⟨-, ⟨notAfter, -⟩, apart⟩ := nodup
  have notBefore : id ∉ before := fun earlier =>
    apart id earlier id List.mem_cons_self rfl
  rw [List.flatMap_append, List.flatMap_cons, List.count_append,
    List.count_append, silent before (by simp_all) notBefore,
    silent after (by simp_all) notAfter]
  omega

theorem OrderedReduction.count_eq {id : ℕ} {call : MonoidCall}
    (reduction : OrderedReduction hasDestroy left right merged calls)
    (leftLive : id ∈ left.liveSlots) (rightLive : id ∈ right.liveSlots)
    (unique : ∀ other,
      call ∈ slotCalls hasDestroy (left.vinfo other) (right.vinfo other) →
        other = id) :
    calls.count call =
      (slotCalls hasDestroy (left.vinfo id) (right.vinfo id)).count call := by
  obtain ⟨order, nodup, members, rfl⟩ := reduction.calls
  apply count_flatMap_of_unique nodup ((members id).mpr ⟨leftLive, rightLive⟩)
  exact fun other _ => unique other

theorem OrderedReduction.exists_slot {call : MonoidCall}
    (reduction : OrderedReduction hasDestroy left right merged calls)
    (made : call ∈ calls) :
    ∃ id, call ∈ slotCalls hasDestroy (left.vinfo id) (right.vinfo id) := by
  obtain ⟨order, -, -, rfl⟩ := reduction.calls
  obtain ⟨id, -, holds⟩ := List.mem_flatMap.mp made
  exact ⟨id, holds⟩

theorem OrderedReduction.numOfVinfo
    (reduction : OrderedReduction hasDestroy left right merged calls)
    (leftWellFormed : left.WellFormed) (rightWellFormed : right.WellFormed) :
    merged.numOfVinfo = (left.liveSlots ∪ right.liveSlots).card := by
  rw [reduction.wellFormed.countExact]
  congr 1
  ext id
  rw [Finset.mem_union, reduction.wellFormed.mem_liveSlots_iff,
    leftWellFormed.mem_liveSlots_iff, rightWellFormed.mem_liveSlots_iff,
    reduction.slots, ViewInfo.orElse]
  by_cases absent : (left.vinfo id).key = none <;> simp [absent]

/-- Two maps without a common view merge slot by slot. -/
theorem OrderedReduction.slotwise
    (reduction : OrderedReduction hasDestroy left right merged calls)
    (leftWellFormed : left.WellFormed) (rightWellFormed : right.WellFormed)
    (leftDistinct : DistinctViews leftViews left)
    (rightDistinct : DistinctViews rightViews right)
    (disjoint : Disjoint leftViews rightViews) (agree : KeysAgree left right) :
    SlotwiseReduction hasDestroy left right merged calls := by
  have onlyRight : ∀ key view,
      .destroy key view ∈ calls ∨ .deallocate key view ∈ calls →
      ∃ id, (left.vinfo id).key = some key ∧
        right.vinfo id = { val := view, key := some key } := by
    intro key view made
    obtain ⟨id, leftKey, rightKey, onLeft, onRight, sameKey, sameView⟩ :
        ∃ id leftKey rightKey, (left.vinfo id).key = some leftKey ∧
          (right.vinfo id).key = some rightKey ∧
          rightKey = key ∧ (right.vinfo id).val = view := by
      rcases made with made | made <;>
        obtain ⟨id, member⟩ := reduction.exists_slot made <;>
        obtain ⟨leftKey, rightKey, onLeft, onRight, shape⟩ :=
          mem_slotCalls.mp member <;>
        exact ⟨id, leftKey, rightKey, onLeft, onRight, by simp_all⟩
    subst sameKey sameView
    refine ⟨id, ?_, ?_⟩
    · rw [onLeft, agree id leftKey rightKey onLeft onRight]
    · rw [← onRight]
  constructor
  case spaCap => exact reduction.spaCap
  case common =>
    intro id onLeft _
    rw [reduction.slots, ViewInfo.orElse, if_neg onLeft]
  case leftOnly =>
    intro id onLeft _
    rw [reduction.slots, ViewInfo.orElse, if_neg onLeft]
  case rightOnly =>
    intro id absent _
    rw [reduction.slots, ViewInfo.orElse, if_pos absent]
  case vacant =>
    intro id absent vacant
    rw [reduction.slots, ViewInfo.orElse, if_pos absent,
      rightWellFormed.vacant vacant]
  case count => exact reduction.numOfVinfo leftWellFormed rightWellFormed
  case reduced =>
    intro id key leftView rightView onLeft onRight
    have leftLive : id ∈ left.liveSlots := by
      simp [leftWellFormed.mem_liveSlots_iff, onLeft]
    have rightLive : id ∈ right.liveSlots := by
      simp [rightWellFormed.mem_liveSlots_iff, onRight]
    -- every call for the slot carries its right view
    have counted : ∀ call, (∀ other, call ∈ slotCalls hasDestroy
        (left.vinfo other) (right.vinfo other) →
          (right.vinfo other).val = rightView) →
        calls.count call = (slotCalls hasDestroy
          { val := leftView, key := some key }
          { val := rightView, key := some key }).count call := by
      intro call carries
      rw [← onLeft, ← onRight]
      apply reduction.count_eq leftLive rightLive
      intro other made
      exact rightDistinct.eq_of_val rightWellFormed onRight
        (carries other made)
    obtain ⟨reduces, destroys, deallocates⟩ :=
      @count_slotCalls hasDestroy key leftView rightView
    refine ⟨?_, ?_, ?_⟩
    · rw [counted, reduces]
      intro other made
      obtain ⟨_, _, -, -, shape⟩ := mem_slotCalls.mp made
      simp_all
    · rw [counted, destroys]
      intro other made
      obtain ⟨_, _, -, -, shape⟩ := mem_slotCalls.mp made
      simp_all
    · rw [counted, deallocates]
      intro other made
      obtain ⟨_, _, -, -, shape⟩ := mem_slotCalls.mp made
      simp_all
  case onlyReduced =>
    intro key leftView rightView made
    obtain ⟨id, member⟩ := reduction.exists_slot made
    obtain ⟨leftKey, rightKey, onLeft, onRight, shape⟩ :=
      mem_slotCalls.mp member
    have sameKey := agree id leftKey rightKey onLeft onRight
    refine ⟨id, ?_, ?_⟩
    · rcases info : left.vinfo id with ⟨val, slotKey⟩
      simp_all
    · rcases info : right.vinfo id with ⟨val, slotKey⟩
      simp_all
  case onlyRight => exact onlyRight
  case neverLeft =>
    intro id key view onLeft
    have kept : ¬ (.destroy key (some view) ∈ calls ∨
        .deallocate key (some view) ∈ calls) := by
      intro made
      obtain ⟨other, -, onRight⟩ := onlyRight key (some view) made
      exact Set.disjoint_left.mp disjoint (leftDistinct.mem id view onLeft)
        (rightDistinct.mem other view (by rw [onRight]))
    exact not_or.mp kept

/-- Merging two maps built by insertions and merges is their slot-wise ordered
reduction, whichever of the two is merged into. -/
theorem merge_slotwise (leftBuilt : Built hasDestroy cap leftViews left)
    (rightBuilt : Built hasDestroy cap rightViews right)
    (disjoint : Disjoint leftViews rightViews)
    (agree : KeysAgree left right) :
    (∃ merged calls,
      mergeTwoRmaps hasDestroy (some left) (some right) =
        .ok (some merged, calls) ∧
      SlotwiseReduction hasDestroy left right merged calls) ∧
    (∃ merged calls,
      cilkredMapMerge hasDestroy left right .mergeIntoLeft =
        .ok (merged, calls) ∧
      SlotwiseReduction hasDestroy left right merged calls) ∧
    (∃ merged calls,
      cilkredMapMerge hasDestroy right left .mergeIntoRight =
        .ok (merged, calls) ∧
      SlotwiseReduction hasDestroy left right merged calls) := by
  obtain ⟨leftWellFormed, leftCap, leftDistinct⟩ := leftBuilt.spec
  obtain ⟨rightWellFormed, rightCap, rightDistinct⟩ := rightBuilt.spec
  have sameCap := leftCap.trans rightCap.symm
  have slotwise : ∀ {merged calls},
      OrderedReduction hasDestroy left right merged calls →
        SlotwiseReduction hasDestroy left right merged calls :=
    fun reduction => reduction.slotwise leftWellFormed rightWellFormed
      leftDistinct rightDistinct disjoint agree
  refine ⟨?_, ?_, ?_⟩
  · obtain ⟨merged, calls, success, reduction, -⟩ :=
      mergeMaps_spec hasDestroy leftWellFormed rightWellFormed sameCap agree
    exact ⟨merged, calls, by simp [mergeTwoRmaps, success],
      slotwise reduction⟩
  · obtain ⟨merged, calls, success, reduction, -⟩ :=
      cilkredMapMerge_spec hasDestroy .mergeIntoLeft leftWellFormed
        rightWellFormed sameCap agree
    exact ⟨merged, calls, success, slotwise reduction⟩
  · obtain ⟨merged, calls, success, reduction, -⟩ :=
      cilkredMapMerge_spec hasDestroy .mergeIntoRight rightWellFormed
        leftWellFormed sameCap.symm agree.symm
    exact ⟨merged, calls, success, slotwise reduction⟩

/-- Two maps of two slots, where the log of the second has overflowed. -/
theorem merge_slotwise_overflowed :
    ∃ left right merged calls,
      left.numOfVinfo = 1 ∧ right.numOfVinfo = 2 ∧ right.numOfLogs = 2 ∧
      mergeTwoRmaps (fun _ => true) (some left) (some right) =
        .ok (some merged, calls) ∧
      SlotwiseReduction (fun _ => true) left right merged calls := by
  have leftBuilt := @Built.create (fun _ => true) 2 ∅ _ _ 0 7 .makeMap
    (by decide) (by simp) rfl
  have rightFirst := @Built.lookup (fun _ => true) 2 ∅ _ _ 0 0 7 _ .makeMap
    (by simp) rfl
  have rightBuilt := @Built.create (fun _ => true) 2 _ _ _ 1 8 rightFirst
    (by decide) (by simp) rfl
  obtain ⟨⟨merged, calls, success, slotwise⟩, -⟩ :=
    merge_slotwise leftBuilt rightBuilt (by simp) (by
      intro id leftKey rightKey onLeft onRight
      by_cases first : id = 0 <;>
        simp_all [setSlot, makeMap, ViewInfo.empty])
  exact ⟨_, _, merged, calls, rfl, rfl, rfl, success, slotwise⟩

end Law

end Multicilk
