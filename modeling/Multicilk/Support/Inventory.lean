import Mathlib.Data.List.Basic
import Mathlib.Data.List.Nodup
import Mathlib.Logic.Equiv.Basic

/-!
# Items that are each in one place

Items lie in lists, one list for each place.  An item is moved by taking it out
of one list and putting it at the front of another one.
-/

namespace Inventory

variable {Item Place : Type*}

/-- Every item is in one place, and just once. -/
structure Partitioned (items : List Item) (contents : Place → List Item) :
    Prop where
  nodup : ∀ place, (contents place).Nodup
  apart : ∀ item place other, item ∈ contents place → item ∈ contents other →
    place = other
  complete : ∀ item, item ∈ items ↔ ∃ place, item ∈ contents place

section Partitions

variable {items : List Item} {contents next : Place → List Item} {item : Item}
  {before after : List Item} {place other source target : Place}

theorem partitioned_nil (empty : ∀ place, contents place = []) :
    Partitioned [] contents := by
  constructor
  case nodup => exact fun place => by simp [empty place]
  case apart => exact fun item place other found _ => by simp [empty place] at found
  case complete => exact fun item => by simp [empty]

theorem Partitioned.congr (partitioned : Partitioned items contents)
    (same : ∀ place, next place = contents place) : Partitioned items next := by
  have equal : next = contents := funext same
  rwa [equal]

theorem Partitioned.of_mem_iff {others : List Item}
    (partitioned : Partitioned items contents)
    (same : ∀ item, item ∈ others ↔ item ∈ items) :
    Partitioned others contents := by
  constructor
  case nodup => exact partitioned.nodup
  case apart => exact partitioned.apart
  case complete =>
    exact fun item => (same item).trans (partitioned.complete item)

theorem Partitioned.unique (partitioned : Partitioned items contents)
    (member : item ∈ items) : ∃! place, item ∈ contents place := by
  obtain ⟨place, found⟩ := (partitioned.complete item).mp member
  exact ⟨place, found, fun other alsoFound =>
    partitioned.apart item other place alsoFound found⟩

/-- An item that is taken out of a list is not left there. -/
theorem Partitioned.not_mem_rest (partitioned : Partitioned items contents)
    (found : contents source = before ++ item :: after) :
    item ∉ before ++ after := by
  have nodup := partitioned.nodup source
  rw [found] at nodup
  exact (List.nodup_middle.mp nodup).notMem

/-- An item is moved from one place to another. -/
theorem Partitioned.transfer (partitioned : Partitioned items contents)
    (different : source ≠ target)
    (found : contents source = before ++ item :: after)
    (taken : next source = before ++ after)
    (put : next target = item :: contents target)
    (others : ∀ place, place ≠ source → place ≠ target →
      next place = contents place) : Partitioned items next := by
  have atSource : item ∈ contents source := by simp [found]
  have absent : item ∉ contents target := fun atTarget =>
    different (partitioned.apart item source target atSource atTarget)
  have left := partitioned.not_mem_rest found
  -- Where an item is after the move, in terms of where it has been.
  have moved : ∀ some place, some ∈ next place ↔
      some = item ∧ place = target ∨ some ≠ item ∧ some ∈ contents place := by
    intro some place
    by_cases isTarget : place = target
    · subst place
      rw [put, List.mem_cons]
      by_cases same : some = item <;> simp [same]
    · by_cases isSource : place = source
      · subst place
        rw [taken, found]
        by_cases same : some = item
        · subst some
          simpa [different] using left
        · simp [same]
      · rw [others place isSource isTarget]
        by_cases same : some = item
        · subst some
          have elsewhere : item ∉ contents place := fun member =>
            isSource (partitioned.apart item place source member atSource)
          simp [isTarget, elsewhere]
        · simp [same]
  constructor
  case nodup =>
    intro place
    by_cases isTarget : place = target
    · subst place
      rw [put]
      exact List.nodup_cons.mpr ⟨absent, partitioned.nodup target⟩
    · by_cases isSource : place = source
      · subst place
        have nodup := partitioned.nodup source
        rw [found] at nodup
        rw [taken]
        exact (List.nodup_middle.mp nodup).of_cons
      · rw [others place isSource isTarget]
        exact partitioned.nodup place
  case apart =>
    intro some place other found alsoFound
    rw [moved] at found alsoFound
    rcases found with ⟨same, rfl⟩ | ⟨notSame, found⟩
    · rcases alsoFound with ⟨-, rfl⟩ | ⟨notSame, -⟩
      · rfl
      · exact absurd same notSame
    · rcases alsoFound with ⟨same, -⟩ | ⟨-, alsoFound⟩
      · exact absurd same notSame
      · exact partitioned.apart some place other found alsoFound
  case complete =>
    intro some
    rw [partitioned.complete some]
    by_cases same : some = item
    · subst some
      exact iff_of_true ⟨source, atSource⟩
        ⟨target, (moved item target).mpr (.inl ⟨rfl, rfl⟩)⟩
    · simp [moved, same]

/-- A new item is put somewhere. -/
theorem Partitioned.create (partitioned : Partitioned items contents)
    (fresh : item ∉ items)
    (put : next target = item :: contents target)
    (others : ∀ place, place ≠ target → next place = contents place) :
    Partitioned (item :: items) next := by
  have nowhere : ∀ place, item ∉ contents place := fun place found =>
    fresh ((partitioned.complete item).mpr ⟨place, found⟩)
  have moved : ∀ some place, some ∈ next place ↔
      some ∈ contents place ∨ some = item ∧ place = target := by
    intro some place
    by_cases isTarget : place = target
    · subst place
      rw [put, List.mem_cons, or_comm]
      simp
    · rw [others place isTarget]
      simp [isTarget]
  constructor
  case nodup =>
    intro place
    by_cases isTarget : place = target
    · subst place
      rw [put]
      exact List.nodup_cons.mpr ⟨nowhere target, partitioned.nodup target⟩
    · rw [others place isTarget]
      exact partitioned.nodup place
  case apart =>
    intro some place other found alsoFound
    rw [moved] at found alsoFound
    rcases found with found | ⟨same, rfl⟩
    · rcases alsoFound with alsoFound | ⟨same, rfl⟩
      · exact partitioned.apart some place other found alsoFound
      · exact absurd (same ▸ found) (nowhere place)
    · rcases alsoFound with alsoFound | ⟨-, rfl⟩
      · exact absurd (same ▸ alsoFound) (nowhere other)
      · rfl
  case complete =>
    intro some
    rw [List.mem_cons, partitioned.complete some]
    constructor
    · intro member
      rcases member with same | ⟨place, found⟩
      · exact ⟨target, (moved some target).mpr (.inr ⟨same, rfl⟩)⟩
      · exact ⟨place, (moved some place).mpr (.inl found)⟩
    · rintro ⟨place, found⟩
      rcases (moved some place).mp found with old | ⟨same, -⟩
      · exact .inr ⟨place, old⟩
      · exact .inl same

/-- The places are renamed. -/
theorem Partitioned.reindex (partitioned : Partitioned items contents)
    (rename : Equiv.Perm Place) : Partitioned items (contents ∘ rename) := by
  constructor
  case nodup => exact fun place => partitioned.nodup (rename place)
  case apart =>
    intro item place other found alsoFound
    exact rename.injective
      (partitioned.apart item (rename place) (rename other) found alsoFound)
  case complete =>
    intro item
    rw [partitioned.complete item]
    exact rename.surjective.exists

/-- All that is in one place is moved to an empty one. -/
theorem Partitioned.pour [DecidableEq Place]
    (partitioned : Partitioned items contents)
    (empty : contents target = [])
    (taken : next source = []) (put : next target = contents source)
    (others : ∀ place, place ≠ source → place ≠ target →
      next place = contents place) : Partitioned items next := by
  apply (partitioned.reindex (Equiv.swap source target)).congr
  intro place
  rw [Function.comp_apply, Equiv.swap_apply_def]
  split
  case isTrue isSource => rw [isSource, taken, empty]
  case isFalse notSource =>
    split
    case isTrue isTarget => rw [isTarget, put]
    case isFalse notTarget => exact others place notSource notTarget

end Partitions

end Inventory
