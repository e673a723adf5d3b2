import Multicilk.Reducer.MapInvariant

/-!
# A merge is the slot-wise ordered reduction

Both loops visit every live slot of the map that is merged away exactly once.
What a visit does depends only on the two views of the slot, so the outcome can
be read off the maps that the merge started from, for either direction.
-/

namespace Multicilk

open CilkredMap

/-- The serially left one of the map merged into and the map merged away. -/
def MergeKind.left (kind : MergeKind) (this other : α) : α :=
  match kind with
  | .mergeIntoRight => other
  | _ => this

def MergeKind.right (kind : MergeKind) (this other : α) : α :=
  match kind with
  | .mergeIntoRight => this
  | _ => other

/-- The left view where there is one. -/
def ViewInfo.orElse (left right : ViewInfo) : ViewInfo :=
  if left.key = none then right else left

/-- Common slots are views of one reducer. -/
def KeysAgree (left right : CilkredMap) : Prop :=
  ∀ id leftKey rightKey, (left.vinfo id).key = some leftKey →
    (right.vinfo id).key = some rightKey → leftKey = rightKey

theorem KeysAgree.symm {left right : CilkredMap}
    (agree : KeysAgree left right) : KeysAgree right left :=
  fun id rightKey leftKey onRight onLeft =>
    (agree id leftKey rightKey onLeft onRight).symm

section Merge

variable (hasDestroy : Key → Bool)

/-- The calls made for a slot, given its views on the left and on the right. -/
def slotCalls (left right : ViewInfo) : List MonoidCall :=
  match left.key, right.key with
  | some key, some _ =>
      .reduce key left.val right.val :: clearView hasDestroy right
  | _, _ => []

/-- The merge of the maps has been carried out for the listed slots. -/
structure MergedSlots (kind : MergeKind) (ids : List ℕ)
    (before after : MergeState) : Prop where
  wellFormed : after.this.WellFormed
  spaCap : after.this.spaCap = before.this.spaCap
  visited : ∀ id ∈ ids, after.this.vinfo id =
    (kind.left (before.this.vinfo id) (before.other.vinfo id)).orElse
      (kind.right (before.this.vinfo id) (before.other.vinfo id))
  unvisited : ∀ id ∉ ids, after.this.vinfo id = before.this.vinfo id
  cleared : ∀ id ∈ ids, after.other.vinfo id = .empty
  untouched : ∀ id ∉ ids, after.other.vinfo id = before.other.vinfo id
  calls : after.calls = before.calls ++ ids.flatMap fun id =>
    slotCalls hasDestroy
      (kind.left (before.this.vinfo id) (before.other.vinfo id))
      (kind.right (before.this.vinfo id) (before.other.vinfo id))

/-- What a merge assumes of the views that it still has to visit. -/
structure Mergeable (state : MergeState) : Prop where
  thisWellFormed : state.this.WellFormed
  agree : KeysAgree state.this state.other
  keyVal : ∀ id, (state.other.vinfo id).key = none ↔
    (state.other.vinfo id).val = none
  inside : ∀ id, (state.other.vinfo id).key ≠ none → id < state.this.spaCap

variable {hasDestroy} {kind : MergeKind} {state next final : MergeState}
  {id : ℕ} {ids : List ℕ}

variable (hasDestroy kind) in
theorem MergedSlots.nil (wellFormed : state.this.WellFormed) :
    MergedSlots hasDestroy kind [] state state := by
  constructor <;> simp [wellFormed]

theorem MergedSlots.cons (fresh : id ∉ ids)
    (first : MergedSlots hasDestroy kind [id] state next)
    (rest : MergedSlots hasDestroy kind ids next final) :
    MergedSlots hasDestroy kind (id :: ids) state final := by
  have sameThis : ∀ other ∈ ids,
      next.this.vinfo other = state.this.vinfo other := by
    intro other member
    apply first.unvisited
    rw [List.mem_singleton]
    exact fun equality => fresh (equality ▸ member)
  have sameOther : ∀ other ∈ ids,
      next.other.vinfo other = state.other.vinfo other := by
    intro other member
    apply first.untouched
    rw [List.mem_singleton]
    exact fun equality => fresh (equality ▸ member)
  constructor
  case wellFormed => exact rest.wellFormed
  case spaCap => exact rest.spaCap.trans first.spaCap
  case visited =>
    intro other member
    rcases List.mem_cons.mp member with here | later
    · subst other
      rw [rest.unvisited id fresh]
      exact first.visited id (List.mem_singleton_self id)
    · rw [rest.visited other later, sameThis other later,
        sameOther other later]
  case unvisited =>
    intro other absent
    rw [List.mem_cons, not_or] at absent
    rw [rest.unvisited other absent.2]
    exact first.unvisited other (by simpa using absent.1)
  case cleared =>
    intro other member
    by_cases later : other ∈ ids
    · exact rest.cleared other later
    · have here : other = id :=
        (List.mem_cons.mp member).resolve_right later
      subst other
      rw [rest.untouched id later]
      exact first.cleared id (List.mem_singleton_self id)
  case untouched =>
    intro other absent
    rw [List.mem_cons, not_or] at absent
    rw [rest.untouched other absent.2]
    exact first.untouched other (by simpa using absent.1)
  case calls =>
    have sameCalls : (ids.flatMap fun other => slotCalls hasDestroy
          (kind.left (next.this.vinfo other) (next.other.vinfo other))
          (kind.right (next.this.vinfo other) (next.other.vinfo other))) =
        ids.flatMap fun other => slotCalls hasDestroy
          (kind.left (state.this.vinfo other) (state.other.vinfo other))
          (kind.right (state.this.vinfo other) (state.other.vinfo other)) := by
      apply List.flatMap_congr
      intro other member
      rw [sameThis other member, sameOther other member]
    rw [rest.calls, first.calls, sameCalls]
    simp

theorem MergedSlots.single (wellFormed : next.this.WellFormed)
    (spaCap : next.this.spaCap = state.this.spaCap)
    (this : next.this.vinfo = Function.update state.this.vinfo id
      ((kind.left (state.this.vinfo id) (state.other.vinfo id)).orElse
        (kind.right (state.this.vinfo id) (state.other.vinfo id))))
    (other : next.other.vinfo = Function.update state.other.vinfo id .empty)
    (calls : next.calls = state.calls ++ slotCalls hasDestroy
      (kind.left (state.this.vinfo id) (state.other.vinfo id))
      (kind.right (state.this.vinfo id) (state.other.vinfo id))) :
    MergedSlots hasDestroy kind [id] state next := by
  constructor
  case wellFormed => exact wellFormed
  case spaCap => exact spaCap
  case visited => simp [this]
  case unvisited =>
    intro slot absent
    rw [this, Function.update_of_ne (by simpa using absent)]
  case cleared => simp [other]
  case untouched =>
    intro slot absent
    rw [other, Function.update_of_ne (by simpa using absent)]
  case calls => simpa using calls

/-- Both maps have a view in the slot. -/
private theorem reduceSlot_spec {key : Key} (mergeable : Mergeable state)
    (mine : (state.this.vinfo id).key = some key)
    (theirs : (state.other.vinfo id).key = some key) :
    MergedSlots hasDestroy kind [id] state
      (reduceSlot hasDestroy kind id key state) := by
  have thisVal : (state.this.vinfo id).val ≠ none := by
    simp [← mergeable.thisWellFormed.keyVal, mine]
  have otherVal : (state.other.vinfo id).val ≠ none := by
    simp [← mergeable.keyVal, theirs]
  rcases thisInfo : state.this.vinfo id with ⟨myVal, myKey⟩
  rcases otherInfo : state.other.vinfo id with ⟨theirVal, theirKey⟩
  rw [thisInfo] at mine thisVal
  rw [otherInfo] at theirs otherVal
  subst mine theirs
  apply MergedSlots.single
  case wellFormed =>
    cases kind <;> apply wellFormed_setSlot_of_key mergeable.thisWellFormed <;>
      simp [thisInfo, otherInfo, thisVal, otherVal]
  case spaCap => rfl
  case this =>
    cases kind <;>
      simp [reduceSlot, setSlot, MergeKind.left, ViewInfo.orElse, thisInfo,
        otherInfo]
  case other => rfl
  case calls =>
    cases kind <;>
      simp [reduceSlot, slotCalls, clearView, MergeKind.left, MergeKind.right,
        thisInfo, otherInfo]

/-- Only the map that is merged away has a view in the slot. -/
private theorem swapSlot_spec (mergeable : Mergeable state)
    (vacant : (state.this.vinfo id).key = none)
    (occupied : (state.other.vinfo id).key ≠ none) :
    ∃ next, mergeSlot hasDestroy kind id state = .ok next ∧
      MergedSlots hasDestroy kind [id] state next := by
  have noVal := (mergeable.thisWellFormed.keyVal id).mp vacant
  have vacantInfo : state.this.vinfo id = .empty := by
    rcases info : state.this.vinfo id with ⟨val, key⟩
    rw [info] at vacant noVal
    simp only at vacant noVal
    rw [vacant, noVal]
    rfl
  obtain ⟨updated, success, wellFormed, spaCap, -, vinfo⟩ :=
    logId_setSlot_spec mergeable.thisWellFormed
      (mergeable.inside id occupied) vacant occupied
      (fun absent => occupied ((mergeable.keyVal id).mpr absent))
  refine ⟨{ state with
    this := updated
    other := state.other.setSlot id (state.this.vinfo id) }, ?_, ?_⟩
  · simp [mergeSlot, vacant, noVal, success]
  · apply MergedSlots.single wellFormed spaCap
    case this =>
      rw [vinfo, vacantInfo]
      cases kind <;>
        simp [MergeKind.left, MergeKind.right, ViewInfo.orElse, ViewInfo.empty,
          occupied]
    case other => simp [setSlot, vacantInfo]
    case calls =>
      rw [vacantInfo]
      cases kind <;>
        simp [MergeKind.left, MergeKind.right, slotCalls, ViewInfo.empty]

variable (hasDestroy kind) in
theorem mergeSlot_spec (mergeable : Mergeable state)
    (occupied : (state.other.vinfo id).key ≠ none) :
    ∃ next, mergeSlot hasDestroy kind id state = .ok next ∧
      MergedSlots hasDestroy kind [id] state next := by
  cases mine : (state.this.vinfo id).key with
  | none => exact swapSlot_spec mergeable mine occupied
  | some key =>
      obtain ⟨otherKey, theirs⟩ := Option.ne_none_iff_exists'.mp occupied
      have same : key = otherKey := mergeable.agree id key otherKey mine theirs
      subst otherKey
      refine ⟨_, ?_, reduceSlot_spec mergeable mine theirs⟩
      simp [mergeSlot, mine, theirs]

/-- A visit leaves the rest of the merge possible. -/
theorem MergedSlots.mergeable (mergeable : Mergeable state)
    (merged : MergedSlots hasDestroy kind [id] state next) :
    Mergeable next := by
  have otherInfo : ∀ slot, next.other.vinfo slot = .empty ∨
      slot ≠ id ∧ next.other.vinfo slot = state.other.vinfo slot := by
    intro slot
    by_cases same : slot = id
    · subst slot
      exact .inl (merged.cleared id (List.mem_singleton_self id))
    · exact .inr ⟨same, merged.untouched slot (by simpa using same)⟩
  constructor
  case thisWellFormed => exact merged.wellFormed
  case agree =>
    intro slot leftKey rightKey onThis onOther
    rcases otherInfo slot with empty | ⟨different, same⟩
    · simp [empty, ViewInfo.empty] at onOther
    · rw [merged.unvisited slot (by simpa using different)] at onThis
      rw [same] at onOther
      exact mergeable.agree slot leftKey rightKey onThis onOther
  case keyVal =>
    intro slot
    rcases otherInfo slot with empty | ⟨-, same⟩
    · simp [empty, ViewInfo.empty]
    · rw [same]
      exact mergeable.keyVal slot
  case inside =>
    intro slot occupied
    rw [merged.spaCap]
    rcases otherInfo slot with empty | ⟨-, same⟩
    · simp [empty, ViewInfo.empty] at occupied
    · rw [same] at occupied
      exact mergeable.inside slot occupied

/-- A loop over distinct IDs that skips the dead slots among them merges the
live ones. -/
theorem forEachId_spec {body : ℕ → MergeState → Except Abort MergeState}
    (mergesLive : ∀ id state, (state.other.vinfo id).key ≠ none →
      body id state = mergeSlot hasDestroy kind id state)
    (nodup : ids.Nodup) (mergeable : Mergeable state)
    (skipsDead : ∀ id ∈ ids, (state.other.vinfo id).key = none →
      ∀ later : MergeState, (later.other.vinfo id).key = none →
        body id later = .ok later) :
    ∃ final, forEachId body ids state = .ok final ∧
      MergedSlots hasDestroy kind
        (ids.filter fun id => (state.other.vinfo id).key ≠ none)
        state final := by
  induction ids generalizing state with
  | nil => exact ⟨state, rfl, MergedSlots.nil _ _ mergeable.thisWellFormed⟩
  | cons id ids induction =>
      obtain ⟨fresh, nodup⟩ := List.nodup_cons.mp nodup
      by_cases occupied : (state.other.vinfo id).key = none
      · have skipped : body id state = .ok state :=
          skipsDead id List.mem_cons_self occupied state occupied
        obtain ⟨final, success, merged⟩ := induction nodup mergeable
          fun other member => skipsDead other (List.mem_cons_of_mem id member)
        refine ⟨final, ?_, ?_⟩
        · simp [forEachId, skipped, success]
        · simpa [occupied] using merged
      · obtain ⟨next, visited, first⟩ :=
          mergeSlot_spec hasDestroy kind mergeable occupied
        have same : ∀ other ∈ ids,
            next.other.vinfo other = state.other.vinfo other := by
          intro other member
          apply first.untouched
          rw [List.mem_singleton]
          exact fun equality => fresh (equality ▸ member)
        obtain ⟨final, success, rest⟩ := induction nodup
          (first.mergeable mergeable) fun other member dead =>
            skipsDead other (List.mem_cons_of_mem id member)
              (same other member ▸ dead)
        have sameFilter : (ids.filter fun other =>
              (next.other.vinfo other).key ≠ none) =
            ids.filter fun other => (state.other.vinfo other).key ≠ none := by
          apply List.filter_congr
          intro other member
          rw [same other member]
        rw [sameFilter] at rest
        refine ⟨final, ?_, ?_⟩
        · simp [forEachId, mergesLive id state occupied, visited, success]
        · rw [List.filter_cons_of_pos (by simpa using occupied)]
          apply first.cons _ rest
          exact fun member => fresh (List.mem_of_mem_filter member)

variable (hasDestroy kind) in
/-- Whether the log is used or all slots are scanned, the live slots are
visited once each. -/
theorem mergeLoop_spec (mergeable : Mergeable state)
    (otherWellFormed : state.other.WellFormed) :
    ∃ final order, mergeLoop hasDestroy kind state = .ok final ∧
      order.Nodup ∧ (∀ id, id ∈ order ↔ id ∈ state.other.liveSlots) ∧
      MergedSlots hasDestroy kind order state final := by
  by_cases valid : state.other.numOfLogs ≤ state.other.spaCap / 2
  · obtain ⟨nodup, members⟩ := otherWellFormed.logExact valid
    have live : ∀ id ∈ state.other.liveLog,
        (state.other.vinfo id).key ≠ none := by
      intro id member
      exact (mem_liveSlots.mp ((members id).mp member)).2
    obtain ⟨final, success, merged⟩ := forEachId_spec
      (fun _ _ _ => rfl) nodup mergeable
      (fun id member dead => absurd dead (live id member))
    refine ⟨final, _, ?_, nodup.filter _, ?_, merged⟩
    · rw [mergeLoop, if_pos valid]
      exact success
    · intro id
      rw [List.mem_filter, ← members]
      constructor
      · exact And.left
      · exact fun member => ⟨member, by simpa using live id member⟩
  · have mergesLive : ∀ id (state : MergeState),
        (state.other.vinfo id).key ≠ none →
          mergeScannedSlot hasDestroy kind id state =
            mergeSlot hasDestroy kind id state := by
      intro id state occupied
      rw [mergeScannedSlot, if_neg occupied]
    obtain ⟨final, success, merged⟩ :=
      forEachId_spec mergesLive (@List.nodup_range state.other.spaCap) mergeable
        (fun id _ _ later dead => by rw [mergeScannedSlot, if_pos dead])
    refine ⟨final, _, ?_, List.nodup_range.filter _, ?_, merged⟩
    · rw [mergeLoop, if_neg valid]
      exact success
    · intro id
      simp [mem_liveSlots]

variable (hasDestroy) in
/-- The outcome of merging two maps, of which the first is serially earlier:
every common slot keeps the left view after one ordered reduction, every other
slot keeps what it had on either side. -/
structure OrderedReduction (left right merged : CilkredMap)
    (calls : List MonoidCall) : Prop where
  wellFormed : merged.WellFormed
  spaCap : merged.spaCap = left.spaCap
  slots : ∀ id, merged.vinfo id = (left.vinfo id).orElse (right.vinfo id)
  calls : ∃ order : List ℕ, order.Nodup ∧
    (∀ id, id ∈ order ↔ id ∈ left.liveSlots ∧ id ∈ right.liveSlots) ∧
    calls = order.flatMap fun id =>
      slotCalls hasDestroy (left.vinfo id) (right.vinfo id)

variable {left right : CilkredMap}

theorem MergeKind.vinfo_left (this other : CilkredMap) (id : ℕ) :
    (kind.left this other).vinfo id =
      kind.left (this.vinfo id) (other.vinfo id) := by
  cases kind <;> rfl

theorem MergeKind.vinfo_right (this other : CilkredMap) (id : ℕ) :
    (kind.right this other).vinfo id =
      kind.right (this.vinfo id) (other.vinfo id) := by
  cases kind <;> rfl

theorem MergeKind.orElse_empty {info : ViewInfo}
    (vacant : info.key = none → info = .empty) :
    (kind.left info .empty).orElse (kind.right info .empty) = info := by
  by_cases absent : info.key = none
  · rw [vacant absent]
    cases kind <;> rfl
  · cases kind <;>
      simp [MergeKind.left, MergeKind.right, ViewInfo.orElse, ViewInfo.empty,
        absent]

theorem slotCalls_of_vacant {left right : ViewInfo}
    (vacant : left.key = none ∨ right.key = none) :
    slotCalls hasDestroy left right = [] := by
  unfold slotCalls
  rcases vacant with absent | absent
  · simp [absent]
  · cases left.key <;> simp [absent]

/-- Slots without calls do not matter for the order. -/
private theorem flatMap_filter_of_nil {calls : ℕ → List MonoidCall}
    {visited : ℕ → Bool} (silent : ∀ id, visited id = false → calls id = []) :
    (ids.filter visited).flatMap calls = ids.flatMap calls := by
  induction ids with
  | nil => rfl
  | cons id ids induction =>
      cases chosen : visited id with
      | true => simp [chosen, induction]
      | false => simp [chosen, induction, silent id chosen]

/-- The loop has merged the live slots of the map that is merged away. -/
private theorem orderedReduction_of_mergedSlots {order : List ℕ}
    (mergeable : Mergeable state) (otherWellFormed : state.other.WellFormed)
    (sameCap : state.this.spaCap = state.other.spaCap)
    (start : state.calls = []) (nodup : order.Nodup)
    (members : ∀ id, id ∈ order ↔ id ∈ state.other.liveSlots)
    (merged : MergedSlots hasDestroy kind order state final) :
    OrderedReduction hasDestroy (kind.left state.this state.other)
      (kind.right state.this state.other) final.this final.calls := by
  constructor
  case wellFormed => exact merged.wellFormed
  case spaCap =>
    rw [merged.spaCap]
    cases kind <;> simp [MergeKind.left, sameCap]
  case slots =>
    intro id
    rw [MergeKind.vinfo_left, MergeKind.vinfo_right]
    by_cases live : id ∈ order
    · exact merged.visited id live
    · have dead : (state.other.vinfo id).key = none := by
        rw [members, otherWellFormed.mem_liveSlots_iff] at live
        simpa using live
      rw [merged.unvisited id live, otherWellFormed.vacant dead,
        MergeKind.orElse_empty mergeable.thisWellFormed.vacant]
  case calls =>
    refine ⟨order.filter fun id => (state.this.vinfo id).key ≠ none,
      nodup.filter _, ?_, ?_⟩
    · intro id
      rw [List.mem_filter, members]
      simp only [decide_eq_true_eq,
        ← mergeable.thisWellFormed.mem_liveSlots_iff]
      cases kind
      case mergeIntoRight => exact Iff.rfl
      all_goals exact and_comm
    · rw [merged.calls, start, List.nil_append, flatMap_filter_of_nil]
      · apply List.flatMap_congr
        intro id _
        rw [MergeKind.vinfo_left, MergeKind.vinfo_right]
      · intro id vacant
        rw [MergeKind.vinfo_left, MergeKind.vinfo_right]
        apply slotCalls_of_vacant
        cases kind <;> simp_all [MergeKind.left, MergeKind.right]

/-- The flags are not part of what a reduction is about. -/
private theorem OrderedReduction.of_merging {this other merged : CilkredMap}
    {calls : List MonoidCall} (thisFlag otherFlag flag : Bool)
    (reduction : OrderedReduction hasDestroy
      (kind.left { this with merging := thisFlag }
        { other with merging := otherFlag })
      (kind.right { this with merging := thisFlag }
        { other with merging := otherFlag }) merged calls) :
    OrderedReduction hasDestroy (kind.left this other) (kind.right this other)
      { merged with merging := flag } calls := by
  have wellFormed := wellFormed_merging flag reduction.wellFormed
  cases kind <;>
    exact ⟨wellFormed, reduction.spaCap, reduction.slots, reduction.calls⟩

variable (hasDestroy kind) in
/-- `cilkred_map_merge` computes the ordered reduction for both directions. -/
theorem cilkredMapMerge_spec {this other : CilkredMap}
    (thisWellFormed : this.WellFormed) (otherWellFormed : other.WellFormed)
    (sameCap : this.spaCap = other.spaCap) (agree : KeysAgree this other) :
    ∃ merged calls, cilkredMapMerge hasDestroy this other kind =
        .ok (merged, calls) ∧
      OrderedReduction hasDestroy (kind.left this other)
        (kind.right this other) merged calls ∧
      merged.merging = decide (other.numOfVinfo = 0) := by
  have mergeable : Mergeable
      { this := { this with merging := true }
        other := { other with merging := true }
        calls := [] } := by
    refine ⟨wellFormed_merging true thisWellFormed, agree,
      otherWellFormed.keyVal, ?_⟩
    intro id occupied
    have live := otherWellFormed.mem_liveSlots_iff.mpr occupied
    exact sameCap ▸ (mem_liveSlots.mp live).1
  have otherFlagged := wellFormed_merging true otherWellFormed
  by_cases empty : other.numOfVinfo = 0
  · refine ⟨{ this with merging := true }, [], ?_, ?_, ?_⟩
    · simp [cilkredMapMerge, empty]
    · have noLive : other.liveSlots = ∅ := by
        rw [← Finset.card_eq_zero, ← otherWellFormed.countExact, empty]
      have members : ∀ id, id ∈ [] ↔ id ∈ other.liveSlots := by
        simp [noLive]
      have reduction := orderedReduction_of_mergedSlots mergeable otherFlagged
        sameCap rfl List.nodup_nil members
        (MergedSlots.nil hasDestroy kind mergeable.thisWellFormed)
      exact reduction.of_merging true true true
    · simp [empty]
  · obtain ⟨final, order, success, nodup, members, merged⟩ :=
      mergeLoop_spec hasDestroy kind mergeable otherFlagged
    refine ⟨{ final.this with merging := false }, final.calls, ?_, ?_, ?_⟩
    · simp [cilkredMapMerge, empty, success]
    · have reduction := orderedReduction_of_mergedSlots mergeable
        otherFlagged sameCap rfl nodup members merged
      exact reduction.of_merging true true false
    · simp [empty]

variable (hasDestroy) in
theorem mergeMaps_spec (leftWellFormed : left.WellFormed)
    (rightWellFormed : right.WellFormed)
    (sameCap : left.spaCap = right.spaCap) (agree : KeysAgree left right) :
    ∃ merged calls, mergeMaps hasDestroy left right = .ok (merged, calls) ∧
      OrderedReduction hasDestroy left right merged calls ∧
      merged.merging =
        decide (left.numOfVinfo = 0 ∨ right.numOfVinfo = 0) := by
  by_cases larger : left.numOfVinfo > right.numOfVinfo
  · obtain ⟨merged, calls, success, reduction, flag⟩ :
        ∃ merged calls, cilkredMapMerge hasDestroy left right .mergeIntoLeft =
            .ok (merged, calls) ∧
          OrderedReduction hasDestroy left right merged calls ∧
          merged.merging = decide (right.numOfVinfo = 0) :=
      cilkredMapMerge_spec hasDestroy .mergeIntoLeft leftWellFormed
        rightWellFormed sameCap agree
    have nonempty : left.numOfVinfo ≠ 0 := by omega
    refine ⟨merged, calls, ?_, reduction, ?_⟩
    · simp [mergeMaps, larger, success]
    · simp [flag, nonempty]
  · obtain ⟨merged, calls, success, reduction, flag⟩ :
        ∃ merged calls, cilkredMapMerge hasDestroy right left .mergeIntoRight =
            .ok (merged, calls) ∧
          OrderedReduction hasDestroy left right merged calls ∧
          merged.merging = decide (left.numOfVinfo = 0) :=
      cilkredMapMerge_spec hasDestroy .mergeIntoRight rightWellFormed
        leftWellFormed sameCap.symm agree.symm
    have smaller : right.numOfVinfo = 0 → left.numOfVinfo = 0 := by omega
    refine ⟨merged, calls, ?_, reduction, ?_⟩
    · simp [mergeMaps, larger, isLeftmost, success]
    · simp only [flag, decide_eq_decide]
      exact ⟨.inl, fun either => either.elim id smaller⟩

/-- A log entry for a slot that has become dead makes the merge call through a
null key when the other map has a view there. -/
theorem mergeMaps_stale {key : Key} {rest : List ℕ}
    (smaller : left.numOfVinfo ≤ right.numOfVinfo)
    (nonempty : left.numOfVinfo ≠ 0)
    (valid : left.numOfLogs ≤ left.spaCap / 2)
    (listed : left.liveLog = id :: rest)
    (dead : (left.vinfo id).key = none)
    (live : (right.vinfo id).key = some key) :
    mergeMaps hasDestroy left right = .error .nullKey := by
  have intoRight : ¬ left.numOfVinfo > right.numOfVinfo :=
    Nat.not_lt.mpr smaller
  have entries : left.log.take left.numOfLogs = id :: rest := listed
  simp [mergeMaps, isLeftmost, intoRight, cilkredMapMerge, nonempty, mergeLoop,
    valid, entries, forEachId, mergeSlot, live, dead]

end Merge

end Multicilk
