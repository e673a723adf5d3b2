import Mathlib.Data.List.Induction
import Mathlib.Data.List.Nodup

/-!
# Doubly linked lists

The items of a list know their left and their right neighbours.  A segment of
such a list is given by the links at its two ends and its items in between.
-/

namespace DoublyLinked

variable {Item : Type*}

/-- The links of the items of a segment, from left to right. -/
def Segment (left right : Item → Option Item) :
    Option Item → Option Item → List Item → Prop
  | _, _, [] => True
  | before, after, item :: rest =>
    left item = before ∧ right item = rest.head?.or after ∧
      Segment left right (some item) after rest

/-- A whole list. -/
abbrev Linked (left right : Item → Option Item) : List Item → Prop :=
  Segment left right none none

/-- The items that are met from one on when links are followed to the end. -/
inductive Follows (link : Item → Option Item) :
    Option Item → List Item → Prop where
  | nil : Follows link none []
  | cons {item : Item} {rest : List Item} : Follows link (link item) rest →
      Follows link (some item) (item :: rest)

section Rules

variable {left right nextLeft nextRight : Item → Option Item}
  {before after : Option Item} {items init rest : List Item} {item : Item}

theorem Segment.congr (segment : Segment left right before after items)
    (sameLeft : ∀ item ∈ items, nextLeft item = left item)
    (sameRight : ∀ item ∈ items, nextRight item = right item) :
    Segment nextLeft nextRight before after items := by
  induction items generalizing before with
  | nil => trivial
  | cons item rest induction =>
      rw [List.forall_mem_cons] at sameLeft sameRight
      obtain ⟨toLeft, toRight, later⟩ := segment
      exact ⟨sameLeft.1.trans toLeft, sameRight.1.trans toRight,
        induction later sameLeft.2 sameRight.2⟩

theorem segment_append :
    Segment left right before after (init ++ rest) ↔
      Segment left right before (rest.head?.or after) init ∧
        Segment left right (init.getLast?.or before) after rest := by
  induction init generalizing before with
  | nil => simp [Segment]
  | cons item init induction =>
      rw [List.cons_append, Segment, Segment, induction]
      have last : (item :: init).getLast?.or before =
          init.getLast?.or (some item) := by
        cases init using List.reverseRecOn with
        | nil => rfl
        | append_singleton init last _ =>
            rw [← List.cons_append, List.getLast?_concat, List.getLast?_concat]
            rfl
      have head : ((init ++ rest).head?.or after) =
          init.head?.or (rest.head?.or after) := by
        cases init <;> simp
      rw [last, head]
      constructor
      · rintro ⟨toLeft, toRight, first, second⟩
        exact ⟨⟨toLeft, toRight, first⟩, second⟩
      · rintro ⟨⟨toLeft, toRight, first⟩, second⟩
        exact ⟨toLeft, toRight, first, second⟩

/-- The right end of a segment is attached elsewhere. -/
theorem Segment.attachRight {later : Option Item}
    (segment : Segment left right before after items) (nodup : items.Nodup)
    (sameLeft : ∀ item ∈ items, nextLeft item = left item)
    (sameRight : ∀ item ∈ items, items.getLast? ≠ some item →
      nextRight item = right item)
    (last : ∀ item, items.getLast? = some item → nextRight item = later) :
    Segment nextLeft nextRight before later items := by
  cases items using List.reverseRecOn with
  | nil => trivial
  | append_singleton init item _ =>
      rw [segment_append] at segment ⊢
      have absent : item ∉ init := fun member =>
        (List.nodup_append.mp nodup).2.2 item member item (by simp) rfl
      constructor
      · refine segment.1.congr (fun other member => ?_) (fun other member => ?_)
        · exact sameLeft other (List.mem_append_left _ member)
        · apply sameRight other (List.mem_append_left _ member)
          rw [List.getLast?_concat, Ne, Option.some.injEq]
          rintro rfl
          exact absent member
      · obtain ⟨toLeft, -, -⟩ := segment.2
        exact ⟨(sameLeft item (by simp)).trans toLeft,
          last item List.getLast?_concat, trivial⟩

/-- The left end of a segment is attached elsewhere. -/
theorem Segment.attachLeft {earlier : Option Item}
    (segment : Segment left right before after items) (nodup : items.Nodup)
    (sameRight : ∀ item ∈ items, nextRight item = right item)
    (sameLeft : ∀ item ∈ items, items.head? ≠ some item →
      nextLeft item = left item)
    (first : ∀ item, items.head? = some item → nextLeft item = earlier) :
    Segment nextLeft nextRight earlier after items := by
  cases items with
  | nil => trivial
  | cons item rest =>
      obtain ⟨-, toRight, later⟩ := segment
      have absent := (List.nodup_cons.mp nodup).1
      refine ⟨first item rfl, (sameRight item List.mem_cons_self).trans toRight,
        later.congr (fun other member => ?_) (fun other member => ?_)⟩
      · apply sameLeft other (List.mem_cons_of_mem _ member)
        rw [List.head?_cons, Ne, Option.some.injEq]
        rintro rfl
        exact absent member
      · exact sameRight other (List.mem_cons_of_mem _ member)

/-- The right links lead through a segment. -/
theorem Segment.follows (segment : Segment left right before none items) :
    Follows right items.head? items := by
  induction items generalizing before with
  | nil => exact .nil
  | cons item rest induction =>
      obtain ⟨-, toRight, later⟩ := segment
      refine .cons ?_
      rw [toRight, Option.or_none]
      exact induction later

/-- The left links lead back through a segment. -/
theorem Segment.follows_reverse (segment : Segment left right none after items) :
    Follows left items.getLast? items.reverse := by
  induction items using List.reverseRecOn generalizing after with
  | nil => exact .nil
  | append_singleton init item induction =>
      rw [segment_append] at segment
      obtain ⟨earlier, toLeft, -⟩ := segment
      rw [List.getLast?_concat, List.reverse_concat]
      refine .cons ?_
      rw [toLeft, Option.or_none]
      exact induction earlier

/-- A new item is put at the right end. -/
theorem Linked.add (linked : Linked left right items) (nodup : items.Nodup)
    (newLeft : nextLeft item = items.getLast?)
    (newRight : nextRight item = none)
    (sameLeft : ∀ other ∈ items, nextLeft other = left other)
    (sameRight : ∀ other ∈ items, items.getLast? ≠ some other →
      nextRight other = right other)
    (last : ∀ other, items.getLast? = some other →
      nextRight other = some item) :
    Linked nextLeft nextRight (items ++ [item]) := by
  rw [Linked, segment_append]
  refine ⟨linked.attachRight nodup sameLeft sameRight ?_, ?_⟩
  · simpa using last
  · exact ⟨by simpa using newLeft, newRight, trivial⟩

/-- What the links of an item of a list are. -/
theorem Linked.links (linked : Linked left right (init ++ item :: rest)) :
    left item = init.getLast? ∧ right item = rest.head? := by
  rw [Linked, segment_append] at linked
  obtain ⟨-, toLeft, toRight, -⟩ := linked
  exact ⟨by simpa using toLeft, by simpa using toRight⟩

/-- The right links are the inverse of the left ones. -/
theorem Linked.right_eq_some_iff {other : Item}
    (linked : Linked left right items) (member : item ∈ items) :
    right item = some other ↔ other ∈ items ∧ left other = some item := by
  constructor
  · intro toRight
    obtain ⟨init, rest, rfl⟩ := List.append_of_mem member
    rw [linked.links.2] at toRight
    cases rest with
    | nil => cases toRight
    | cons head rest =>
        cases toRight
        refine ⟨by simp, ?_⟩
        have whole : init ++ item :: other :: rest =
            (init ++ [item]) ++ other :: rest := by simp
        rw [whole] at linked
        rw [linked.links.1, List.getLast?_concat]
  · rintro ⟨otherMember, toLeft⟩
    obtain ⟨init, rest, rfl⟩ := List.append_of_mem otherMember
    rw [linked.links.1] at toLeft
    rcases List.eq_nil_or_concat init with rfl | ⟨earlier, last, rfl⟩
    · cases toLeft
    · rw [List.concat_eq_append] at linked toLeft
      rw [List.getLast?_concat, Option.some.injEq] at toLeft
      subst last
      rw [List.append_assoc] at linked
      exact linked.links.2

/-- An item is taken out, and its neighbours are linked to each other. -/
theorem Linked.remove (linked : Linked left right (init ++ item :: rest))
    (nodup : (init ++ item :: rest).Nodup)
    (sameLeft : ∀ other ∈ init ++ rest, rest.head? ≠ some other →
      nextLeft other = left other)
    (sameRight : ∀ other ∈ init ++ rest, init.getLast? ≠ some other →
      nextRight other = right other)
    (first : ∀ other, rest.head? = some other →
      nextLeft other = init.getLast?)
    (last : ∀ other, init.getLast? = some other →
      nextRight other = rest.head?) :
    Linked nextLeft nextRight (init ++ rest) := by
  rw [Linked, segment_append] at linked ⊢
  obtain ⟨initNodup, restNodup, apart⟩ := List.nodup_append.mp nodup
  have notHead : ∀ other ∈ init, rest.head? ≠ some other := fun other member
      isHead => apart other member other
    (List.mem_cons_of_mem _ (List.mem_of_mem_head? isHead)) rfl
  have notLast : ∀ other ∈ rest, init.getLast? ≠ some other := fun other member
      isLast => apart other (List.mem_of_mem_getLast? isLast) other
    (List.mem_cons_of_mem _ member) rfl
  constructor
  · refine linked.1.attachRight initNodup (fun other member => ?_)
      (fun other member notEnd => ?_) ?_
    · exact sameLeft other (List.mem_append_left _ member)
        (notHead other member)
    · exact sameRight other (List.mem_append_left _ member) notEnd
    · simpa using last
  · refine linked.2.2.2.attachLeft (List.nodup_cons.mp restNodup).2
      (fun other member => ?_) (fun other member notEnd => ?_) ?_
    · exact sameRight other (List.mem_append_right _ member)
        (notLast other member)
    · exact sameLeft other (List.mem_append_right _ member) notEnd
    · simpa using first

end Rules

end DoublyLinked
