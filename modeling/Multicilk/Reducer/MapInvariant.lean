import Mathlib.Data.List.Nodup
import Mathlib.Data.List.TakeDrop
import Multicilk.Reducer.Map

/-!
# The representation invariant of a reducer map

The count is the number of occupied slots, and a log that has not overflowed
lists exactly these.  Inserting into an unused slot keeps this, and so does
every pass through the loops of a merge, provided that the slot visited is
occupied in the map that is merged away.
-/

namespace Multicilk

namespace CilkredMap

def liveSlots (map : CilkredMap) : Finset ℕ :=
  (Finset.range map.spaCap).filter fun id => (map.vinfo id).key ≠ none

/-- The log entries in use. -/
def liveLog (map : CilkredMap) : List ℕ :=
  map.log.take map.numOfLogs

def CountExact (map : CilkredMap) : Prop :=
  map.numOfVinfo = map.liveSlots.card

/-- A log that has not overflowed lists every live slot once and no dead one. -/
def LogExact (map : CilkredMap) : Prop :=
  map.numOfLogs ≤ map.spaCap / 2 →
    map.liveLog.Nodup ∧ ∀ id, id ∈ map.liveLog ↔ id ∈ map.liveSlots

structure WellFormed (map : CilkredMap) : Prop where
  countExact : map.CountExact
  logExact : map.LogExact
  logLength : map.log.length = map.spaCap / 2
  logsLe : map.numOfLogs ≤ map.spaCap / 2 + 1
  outside : ∀ id, map.spaCap ≤ id → map.vinfo id = .empty
  keyVal : ∀ id, (map.vinfo id).key = none ↔ (map.vinfo id).val = none

theorem mem_liveSlots {map : CilkredMap} {id : ℕ} :
    id ∈ map.liveSlots ↔ id < map.spaCap ∧ (map.vinfo id).key ≠ none := by
  simp [liveSlots]

theorem WellFormed.mem_liveSlots_iff {map : CilkredMap} {id : ℕ}
    (wellFormed : map.WellFormed) :
    id ∈ map.liveSlots ↔ (map.vinfo id).key ≠ none := by
  rw [mem_liveSlots]
  constructor
  · exact And.right
  · intro occupied
    refine ⟨?_, occupied⟩
    by_contra outside
    exact occupied (by
      rw [wellFormed.outside id (Nat.le_of_not_lt outside)]
      rfl)

theorem WellFormed.vacant {map : CilkredMap} {id : ℕ}
    (wellFormed : map.WellFormed) (dead : (map.vinfo id).key = none) :
    map.vinfo id = .empty := by
  have noVal := (wellFormed.keyVal id).mp dead
  rcases info : map.vinfo id with ⟨val, key⟩
  simp_all [ViewInfo.empty]

/-- The flag plays no part in the invariant. -/
theorem wellFormed_merging {map : CilkredMap} (merging : Bool)
    (wellFormed : map.WellFormed) : WellFormed { map with merging } :=
  ⟨wellFormed.countExact, wellFormed.logExact, wellFormed.logLength,
    wellFormed.logsLe, wellFormed.outside, wellFormed.keyVal⟩

theorem wellFormed_makeMap (size : ℕ) : (makeMap size).WellFormed where
  countExact := by simp [CountExact, liveSlots, makeMap, ViewInfo.empty]
  logExact := by simp [LogExact, liveLog, liveSlots, makeMap, ViewInfo.empty]
  logLength := by simp [makeMap]
  logsLe := by simp [makeMap]
  outside := by simp [makeMap]
  keyVal := by simp [makeMap, ViewInfo.empty]

section Insertion

variable {map : CilkredMap} {id : ℕ} {info : ViewInfo}

theorem liveSlots_setSlot (bound : id < map.spaCap)
    (occupied : info.key ≠ none) :
    (map.setSlot id info).liveSlots = insert id map.liveSlots := by
  ext other
  by_cases same : other = id
  · subst other
    simp [mem_liveSlots, setSlot, bound, occupied]
  · simp [mem_liveSlots, setSlot, same]

theorem WellFormed.numOfVinfo_le (wellFormed : map.WellFormed) :
    map.numOfVinfo ≤ map.spaCap := by
  have subset : map.liveSlots.card ≤ (Finset.range map.spaCap).card :=
    Finset.card_le_card (Finset.filter_subset _ _)
  rw [Finset.card_range, ← wellFormed.countExact] at subset
  exact subset

theorem WellFormed.not_full (wellFormed : map.WellFormed)
    (bound : id < map.spaCap) (unused : (map.vinfo id).key = none) :
    map.numOfVinfo < map.spaCap := by
  have absent : id ∉ map.liveSlots := by simp [mem_liveSlots, unused]
  have strict : map.liveSlots ⊂ Finset.range map.spaCap := by
    apply Finset.ssubset_iff_subset_ne.mpr
    refine ⟨Finset.filter_subset _ _, ?_⟩
    intro equality
    exact absent (equality ▸ Finset.mem_range.mpr bound)
  have smaller := Finset.card_lt_card strict
  rw [Finset.card_range] at smaller
  rw [wellFormed.countExact]
  exact smaller

/-- The three cases of the log differ only in what becomes of the log. -/
theorem logId_setSlot_ok (info : ViewInfo) (wellFormed : map.WellFormed)
    (bound : id < map.spaCap) (unused : (map.vinfo id).key = none) :
    ∃ log numOfLogs, (map.setSlot id info).logId id =
      .ok { map.setSlot id info with
        log, numOfLogs, numOfVinfo := map.numOfVinfo + 1 } ∧
      ((map.numOfLogs < map.spaCap / 2 ∧
          log = map.log.set map.numOfLogs id ∧
          numOfLogs = map.numOfLogs + 1) ∨
        (map.spaCap / 2 ≤ map.numOfLogs ∧ log = map.log ∧
          numOfLogs = map.spaCap / 2 + 1)) := by
  have notFull := wellFormed.not_full bound unused
  have logsLe := wellFormed.logsLe
  have notEqual : map.numOfVinfo ≠ map.spaCap := Nat.ne_of_lt notFull
  by_cases room : map.numOfLogs < map.spaCap / 2
  · refine ⟨map.log.set map.numOfLogs id, map.numOfLogs + 1, ?_,
      .inl ⟨room, rfl, rfl⟩⟩
    simp [logId, setSlot, logsLe, notFull.le, notEqual, room]
  · refine ⟨map.log, map.spaCap / 2 + 1, ?_, .inr ⟨by omega, rfl, rfl⟩⟩
    by_cases boundary : map.numOfLogs = map.spaCap / 2
    · simp [logId, setSlot, notFull.le, notEqual, boundary]
    · have overflowed : map.numOfLogs = map.spaCap / 2 + 1 := by omega
      simp [logId, setSlot, notFull.le, notEqual, overflowed]

/-- Filling an unused slot and logging it keeps the invariant. -/
theorem logId_setSlot_spec (wellFormed : map.WellFormed)
    (bound : id < map.spaCap) (unused : (map.vinfo id).key = none)
    (occupied : info.key ≠ none) (hasVal : info.val ≠ none) :
    ∃ updated, (map.setSlot id info).logId id = .ok updated ∧
      updated.WellFormed ∧ updated.spaCap = map.spaCap ∧
      updated.merging = map.merging ∧
      updated.vinfo = Function.update map.vinfo id info := by
  obtain ⟨log, numOfLogs, success, logged⟩ :=
    logId_setSlot_ok info wellFormed bound unused
  refine ⟨_, success, ?_, rfl, rfl, rfl⟩
  have absent : id ∉ map.liveSlots := by simp [mem_liveSlots, unused]
  have live : (map.setSlot id info).liveSlots = insert id map.liveSlots :=
    liveSlots_setSlot bound occupied
  constructor
  case countExact =>
    show map.numOfVinfo + 1 = (map.setSlot id info).liveSlots.card
    rw [live, Finset.card_insert_of_notMem absent, wellFormed.countExact]
  case logExact =>
    rintro (valid : numOfLogs ≤ map.spaCap / 2)
    show (log.take numOfLogs).Nodup ∧
      ∀ other, other ∈ log.take numOfLogs ↔
        other ∈ (map.setSlot id info).liveSlots
    rcases logged with ⟨room, rfl, rfl⟩ | ⟨_, _, rfl⟩
    · have inside : map.numOfLogs < map.log.length := by
        rw [wellFormed.logLength]
        exact room
      have appended : (map.log.set map.numOfLogs id).take (map.numOfLogs + 1) =
          map.liveLog ++ [id] := by
        rw [List.take_succ_eq_append_getElem (by simpa using inside)]
        simp [liveLog, List.take_set_of_le]
      obtain ⟨nodup, members⟩ := wellFormed.logExact room.le
      rw [appended, live]
      constructor
      · rw [List.nodup_append]
        refine ⟨nodup, List.nodup_singleton id, ?_⟩
        intro entry member other otherMember equality
        rw [List.mem_singleton.mp otherMember] at equality
        exact absent ((members id).mp (equality ▸ member))
      · intro other
        rw [List.mem_append, List.mem_singleton, members,
          Finset.mem_insert, or_comm]
    · omega
  case logLength =>
    rcases logged with ⟨_, rfl, _⟩ | ⟨_, rfl, _⟩
    · simpa [setSlot] using wellFormed.logLength
    · exact wellFormed.logLength
  case logsLe =>
    show numOfLogs ≤ map.spaCap / 2 + 1
    omega
  case outside =>
    intro other outside
    have different : other ≠ id := by
      rintro rfl
      exact absurd bound (Nat.not_lt.mpr outside)
    simpa [setSlot, different] using wellFormed.outside other outside
  case keyVal =>
    intro other
    by_cases same : other = id
    · subst other
      simp [setSlot, occupied, hasVal]
    · simpa [setSlot, same] using wellFormed.keyVal other

/-- Exchanging the value of an occupied slot is invisible to the invariant. -/
theorem wellFormed_setSlot_of_key (wellFormed : map.WellFormed)
    (sameKey : info.key = (map.vinfo id).key)
    (occupied : info.key ≠ none) (hasVal : info.val ≠ none) :
    (map.setSlot id info).WellFormed := by
  have bound : id < map.spaCap := by
    have member := wellFormed.mem_liveSlots_iff.mpr (sameKey ▸ occupied)
    exact (mem_liveSlots.mp member).1
  have live : (map.setSlot id info).liveSlots = map.liveSlots := by
    rw [liveSlots_setSlot bound occupied]
    exact Finset.insert_eq_self.mpr
      (wellFormed.mem_liveSlots_iff.mpr (sameKey ▸ occupied))
  constructor
  case countExact =>
    show map.numOfVinfo = _
    rw [live]
    exact wellFormed.countExact
  case logExact =>
    intro valid
    rw [live]
    exact wellFormed.logExact valid
  case logLength => exact wellFormed.logLength
  case logsLe => exact wellFormed.logsLe
  case outside =>
    intro other outside
    have different : other ≠ id := by
      rintro rfl
      exact absurd bound (Nat.not_lt.mpr outside)
    simpa [setSlot, different] using wellFormed.outside other outside
  case keyVal =>
    intro other
    by_cases same : other = id
    · subst other
      simp [setSlot, occupied, hasVal]
    · simpa [setSlot, same] using wellFormed.keyVal other

end Insertion

section Operations

variable {map updated : CilkredMap} {id serial : ℕ} {key : Key}

theorem lookup_eq_none_iff (wellFormed : map.WellFormed) :
    map.lookup id = none ↔ (map.vinfo id).key = none := by
  by_cases bound : id < map.spaCap
  · simp [lookup, Nat.not_le.mpr bound, ← wellFormed.keyVal]
  · have outside := Nat.le_of_not_lt bound
    simp [lookup, outside, wellFormed.outside id outside, ViewInfo.empty]

/-- A successful insertion into an unused slot. -/
theorem install_spec {view : View} (wellFormed : map.WellFormed)
    (bound : id < map.spaCap) (unused : (map.vinfo id).key = none)
    (success : map.install id key view = .ok updated) :
    updated.WellFormed ∧ updated.spaCap = map.spaCap ∧
      updated.merging = map.merging ∧
      updated.vinfo = Function.update map.vinfo id
        { val := some view, key := some key } := by
  obtain ⟨result, logged, properties⟩ :=
    @logId_setSlot_spec map id { val := some view, key := some key }
      wellFormed bound unused (by simp) (by simp)
  rw [install, logged, Except.ok.injEq] at success
  subst updated
  exact properties

theorem hyperCreate_spec (wellFormed : map.WellFormed)
    (success : map.hyperCreate id key = .ok updated) :
    (map.vinfo id).key = none ∧ map.merging = false ∧
      map.install id key (.leftmost key) = .ok updated := by
  simp only [hyperCreate] at success
  split at success
  · cases success
  · rename_i unused
    split at success
    · cases success
    · rename_i idle
      refine ⟨?_, by simpa using idle, success⟩
      exact (lookup_eq_none_iff wellFormed).mp (not_not.mp unused)

/-- A lookup finds the view of the slot or installs a new one. -/
theorem hyperLookup_spec {view : Option View} (wellFormed : map.WellFormed)
    (success : map.hyperLookup id key serial = .ok (view, updated)) :
    map.merging = false ∧
      ((view = (map.vinfo id).val ∧ updated = map) ∨
        (id < map.spaCap ∧ (map.vinfo id).key = none ∧
          view = some (.allocated serial) ∧
          map.install id key (.allocated serial) = .ok updated)) := by
  simp only [hyperLookup] at success
  split at success
  · cases success
  · rename_i idle
    refine ⟨by simpa using idle, ?_⟩
    cases found : map.lookup id with
    | some info =>
        simp only [found, Except.ok.injEq, Prod.mk.injEq] at success
        have shape : info = map.vinfo id := by
          simp only [lookup] at found
          split at found
          · cases found
          · split at found
            · cases found
            · exact (Option.some.inj found).symm
        exact .inl ⟨by rw [← success.1, shape], success.2.symm⟩
    | none =>
        simp only [found] at success
        split at success
        · cases success
        · rename_i bound
          split at success
          · cases success
          · split at success
            · cases success
            · rename_i result installed
              simp only [Except.ok.injEq, Prod.mk.injEq] at success
              obtain ⟨rfl, rfl⟩ := success
              exact .inr ⟨not_not.mp bound,
                (lookup_eq_none_iff wellFormed).mp found, rfl, installed⟩

theorem liveSlots_unlogged (map : CilkredMap) (id : ℕ) :
    (map.setSlot id .empty).liveSlots = map.liveSlots.erase id := by
  ext other
  by_cases same : other = id
  · simp [mem_liveSlots, setSlot, same, ViewInfo.empty]
  · simp [mem_liveSlots, setSlot, same]

/-- The views of a map may be removed from it without harm when its log has
overflowed, or when there is only one. -/
def UnlogSafe (map : CilkredMap) : Prop :=
  map.spaCap / 2 < map.numOfLogs ∨ map.numOfVinfo = 1

/-- Removing a view leaves the count exact, but a log that is still in use and
not reset lists the slot that has become dead. -/
theorem unlogId_spec (wellFormed : map.WellFormed)
    (bounded : map.spaCap < 4294967296)
    (occupied : (map.vinfo id).key ≠ none)
    (success : map.unlogId id = .ok updated) :
    updated.vinfo = Function.update map.vinfo id .empty ∧
      updated.spaCap = map.spaCap ∧ updated.merging = map.merging ∧
      (map.UnlogSafe → updated.WellFormed) ∧
      (¬ map.UnlogSafe → ¬ updated.LogExact) := by
  have live : id ∈ map.liveSlots := wellFormed.mem_liveSlots_iff.mpr occupied
  have inside : id < map.spaCap := (mem_liveSlots.mp live).1
  have countLe := wellFormed.numOfVinfo_le
  have countPos : 0 < map.numOfVinfo := by
    rw [wellFormed.countExact]
    exact Finset.card_pos.mpr ⟨id, live⟩
  have remaining : (map.numOfVinfo + 4294967295) % 4294967296 =
      map.numOfVinfo - 1 := by
    omega
  simp only [unlogId, wellFormed.logsLe, countLe, inside, not_true_eq_false,
    if_false, remaining, Except.ok.injEq] at success
  subst updated
  have unlogged := liveSlots_unlogged map id
  refine ⟨rfl, rfl, rfl, ?_, ?_⟩
  · intro safe
    constructor
    case countExact =>
      show map.numOfVinfo - 1 = (map.setSlot id .empty).liveSlots.card
      rw [unlogged, Finset.card_erase_of_mem live, wellFormed.countExact]
    case logExact =>
      intro valid
      have last : map.numOfVinfo = 1 := by
        rcases safe with overflowed | last
        · by_contra more
          have kept : map.numOfVinfo - 1 ≠ 0 := by omega
          simp only [kept, if_false] at valid
          exact absurd overflowed (Nat.not_lt.mpr valid)
        · exact last
      have noLive : (map.setSlot id .empty).liveSlots = ∅ := by
        rw [← Finset.card_eq_zero, unlogged, Finset.card_erase_of_mem live,
          ← wellFormed.countExact, last]
      simp only [liveLog, last, Nat.sub_self, if_true, List.take_zero,
        List.nodup_nil, List.not_mem_nil, false_iff, true_and]
      intro other member
      have impossible : other ∈ (∅ : Finset ℕ) := noLive ▸ member
      exact Finset.notMem_empty other impossible
    case logLength => exact wellFormed.logLength
    case logsLe =>
      have logsLe := wellFormed.logsLe
      dsimp only [setSlot]
      split <;> omega
    case outside =>
      rintro other (outside : map.spaCap ≤ other)
      have different : other ≠ id := by omega
      simpa [setSlot, different] using wellFormed.outside other outside
    case keyVal =>
      intro other
      by_cases same : other = id
      · subst other
        simp [setSlot, ViewInfo.empty]
      · simpa [setSlot, same] using wellFormed.keyVal other
  · intro unsafeHere logExact
    have more : map.numOfVinfo - 1 ≠ 0 := by
      intro zero
      exact unsafeHere (.inr (by omega))
    have valid : map.numOfLogs ≤ map.spaCap / 2 := by
      by_contra overflowed
      exact unsafeHere (.inl (by omega))
    have listed : id ∈ map.liveLog := ((wellFormed.logExact valid).2 id).mpr live
    simp only [LogExact, liveLog, more, if_false] at logExact
    have stillLive : id ∈ (map.setSlot id .empty).liveSlots :=
      ((logExact valid).2 id).mp listed
    rw [unlogged] at stillLive
    exact Finset.notMem_erase id _ stillLive

end Operations

end CilkredMap

end Multicilk
