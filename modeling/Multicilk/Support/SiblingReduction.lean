import Mathlib.Algebra.BigOperators.Group.List.Basic
import Mathlib.Algebra.Group.Basic
import Mathlib.Data.List.Basic
import Mathlib.Logic.Function.Basic

/-!
# Ordered reduction over a list of siblings

Contributions to a monoid are numbered by their serial position.  Every value
that somebody keeps is the product of a span of positions, and the spans of
all values follow each other without a gap.  Values move between a link and
the slot on its left, which belongs to the next older link or to the base.
-/

namespace SiblingReduction

variable {M : Type*} [Monoid M]

/-- The product of the contributions from `start` up to `stop`. -/
def span (contribution : ℕ → M) (start stop : ℕ) : M :=
  ((List.range' start (stop - start)).map contribution).prod

section Span

variable {contribution other : ℕ → M} {start middle stop : ℕ}

@[simp] theorem span_self : span contribution start start = 1 := by
  simp [span]

theorem span_append (low : start ≤ middle) (high : middle ≤ stop) :
    span contribution start middle * span contribution middle stop =
      span contribution start stop := by
  have positions : List.range' start (stop - start) =
      List.range' start (middle - start) ++
        List.range' middle (stop - middle) := by
    have lengths : stop - start = (middle - start) + (stop - middle) := by omega
    have offset : middle = start + (middle - start) := by omega
    rw [lengths, ← List.range'_append_1, ← offset]
  simp [span, positions]

theorem span_succ (low : start ≤ stop) :
    span contribution start (stop + 1) =
      span contribution start stop * contribution stop := by
  rw [← span_append low (Nat.le_succ stop)]
  simp [span]

theorem span_congr
    (same : ∀ position, start ≤ position → position < stop →
      other position = contribution position) :
    span other start stop = span contribution start stop := by
  unfold span
  congr 1
  apply List.map_congr_left
  intro position member
  have bounds := List.mem_range'_1.mp member
  exact same position bounds.1 (by omega)

theorem span_eq_one (nothing : ∀ position, start ≤ position →
    contribution position = 1) : span contribution start stop = 1 := by
  apply List.prod_eq_one
  intro value member
  obtain ⟨position, found, rfl⟩ := List.mem_map.mp member
  exact nothing position (List.mem_range'_1.mp found).1

theorem span_zero : span contribution 0 stop =
    ((List.range stop).map contribution).prod := by
  rw [span, List.range_eq_range', Nat.sub_zero]

end Span

/-- One more contribution at a position. -/
def contribute (contribution : ℕ → M) (position : ℕ) (value : M) : ℕ → M :=
  Function.update contribution position (contribution position * value)

section Contribute

variable {contribution : ℕ → M} {position start stop : ℕ} {value : M}

theorem contribute_of_ne {other : ℕ} (different : other ≠ position) :
    contribute contribution position value other = contribution other :=
  Function.update_of_ne different ..

theorem span_contribute_last (low : start ≤ position) :
    span (contribute contribution position value) start (position + 1) =
      span contribution start (position + 1) * value := by
  have before : span (contribute contribution position value) start position =
      span contribution start position := by
    apply span_congr
    intro other _ below
    exact contribute_of_ne (Nat.ne_of_lt below)
  rw [span_succ low, span_succ low, before, mul_assoc]
  simp [contribute]

end Contribute

/-- A member of the list of siblings.  While it is live, its own contributions
go to the position before `bound`. -/
structure Link (M : Type*) where
  bound : ℕ
  live : Bool
  held : M
  right : M

/-- The slot on the left of whoever comes after these links, the youngest
first. -/
def leftSlot (base : M) : List (Link M) → M
  | [] => base
  | sibling :: _ => sibling.right

def storeBase (base value : M) : List (Link M) → M
  | [] => value
  | _ :: _ => base

def storeLinks (value : M) : List (Link M) → List (Link M)
  | [] => []
  | sibling :: older => { sibling with right := value } :: older

/-- The base, the links and their slots are products of consecutive spans,
which end at `high`. -/
def Based (contribution : ℕ → M) (base : M) : List (Link M) → ℕ → Prop
  | [], high => base = span contribution 0 high
  | link :: older, high => ∃ start middle,
      start ≤ middle ∧ middle ≤ high ∧
      (link.live = true → middle = link.bound ∧ start < middle) ∧
      link.held = span contribution start middle ∧
      link.right = span contribution middle high ∧
      Based contribution base older start

section Based

variable {contribution other : ℕ → M} {base value : M} {link : Link M}
  {links older younger : List (Link M)} {high : ℕ}

theorem Based.congr (based : Based contribution base links high)
    (same : ∀ position, position < high →
      other position = contribution position) :
    Based other base links high := by
  induction links generalizing high with
  | nil =>
      exact Eq.trans based (span_congr fun position _ => same position).symm
  | cons link older induction =>
      obtain ⟨start, middle, low, bounded, live, held, right, rest⟩ := based
      refine ⟨start, middle, low, bounded, live, ?_, ?_, ?_⟩
      · rw [held]
        exact (span_congr fun position _ below => same position (by omega)).symm
      · rw [right]
        exact (span_congr fun position _ below => same position below).symm
      · exact induction rest fun position below => same position (by omega)

theorem Based.prod (based : Based contribution base links high) :
    base * (links.reverse.map fun link => link.held * link.right).prod =
      span contribution 0 high := by
  induction links generalizing high with
  | nil => simpa [Based] using based
  | cons link older induction =>
      obtain ⟨start, middle, low, bounded, -, held, right, rest⟩ := based
      rw [List.reverse_cons, List.map_append, List.prod_append, ← mul_assoc,
        induction rest]
      simp only [List.map_cons, List.map_nil, List.prod_cons, List.prod_nil,
        mul_one, held, right]
      rw [span_append low bounded, span_append (Nat.zero_le _) (Nat.le_trans low bounded)]

/-- Some of the older links can be looked at and replaced by themselves. -/
theorem Based.focus (based : Based contribution base (younger ++ links) high) :
    ∃ middle ≤ high, Based contribution base links middle ∧
      ∀ newContribution newBase newLinks,
        (∀ position, middle ≤ position →
          newContribution position = contribution position) →
        Based newContribution newBase newLinks middle →
        Based newContribution newBase (younger ++ newLinks) high := by
  induction younger generalizing high with
  | nil => exact ⟨high, Nat.le_refl _, based, fun _ _ _ _ replaced => replaced⟩
  | cons link younger induction =>
      obtain ⟨start, middle, low, bounded, live, held, right, rest⟩ := based
      obtain ⟨inner, below, found, replace⟩ := induction rest
      refine ⟨inner, by omega, found, ?_⟩
      intro newContribution newBase newLinks same replaced
      refine ⟨start, middle, low, bounded, live, ?_, ?_, ?_⟩
      · rw [held]
        exact (span_congr fun position above _ => same position (by omega)).symm
      · rw [right]
        exact (span_congr fun position above _ => same position (by omega)).symm
      · exact replace _ _ _ same replaced

/-- The slot on the left ends where its successor begins, and a new value for
it can end elsewhere. -/
theorem Based.slot (based : Based contribution base links high) :
    ∃ low ≤ high, leftSlot base links = span contribution low high ∧
      ∀ newValue newHigh, low ≤ newHigh →
        newValue = span contribution low newHigh →
        Based contribution (storeBase base newValue links)
          (storeLinks newValue links) newHigh := by
  cases links with
  | nil => exact ⟨0, Nat.zero_le _, based, fun _ _ _ stored => stored⟩
  | cons link older =>
      obtain ⟨start, middle, low, bounded, live, held, right, rest⟩ := based
      refine ⟨middle, bounded, right, ?_⟩
      intro newValue newHigh above stored
      exact ⟨start, middle, low, above, live, held, stored, rest⟩

omit [Monoid M] in
theorem storeBase_leftSlot : storeBase base (leftSlot base links) links = base := by
  cases links <;> rfl

omit [Monoid M] in
theorem storeLinks_leftSlot : storeLinks (leftSlot base links) links = links := by
  cases links <;> rfl

theorem Based.replace {newBase : M} {newLinks : List (Link M)}
    (based : Based contribution base (younger ++ links) high)
    (replaced : ∀ middle, Based contribution base links middle →
      Based contribution newBase newLinks middle) :
    Based contribution newBase (younger ++ newLinks) high := by
  obtain ⟨middle, -, found, replace⟩ := based.focus
  exact replace _ _ _ (fun _ _ => rfl) (replaced middle found)

theorem Based.bound_le
    (based : Based contribution base (younger ++ link :: older) high)
    (live : link.live = true) : 0 < link.bound ∧ link.bound ≤ high := by
  obtain ⟨middle, below, ⟨start, bound, -, atMost, position, -⟩, -⟩ :=
    based.focus
  have atBound := position live
  omega

private theorem Based.contributeHead (based : Based contribution base (link :: older) high)
    (live : link.live = true) :
    Based (contribute contribution (link.bound - 1) value) base
      ({ link with held := link.held * value } :: older) high := by
  obtain ⟨start, middle, -, bounded, atBound, held, right, rest⟩ := based
  obtain ⟨rfl, below⟩ := atBound live
  refine ⟨start, link.bound, by omega, bounded, fun _ => ⟨rfl, below⟩,
    ?_, ?_, ?_⟩
  · have last : link.bound = link.bound - 1 + 1 := by omega
    have extended := @span_contribute_last M _ contribution (link.bound - 1)
      start value (by omega)
    rw [← last] at extended
    rw [extended, held]
  · rw [right]
    apply (span_congr _).symm
    intro position above _
    exact contribute_of_ne (by omega)
  · apply rest.congr
    intro position before
    exact contribute_of_ne (by omega)

/-- A live link makes a contribution of its own. -/
theorem Based.contributeLink
    (based : Based contribution base (younger ++ link :: older) high)
    (live : link.live = true) :
    Based (contribute contribution (link.bound - 1) value) base
      (younger ++ { link with held := link.held * value } :: older) high := by
  obtain ⟨middle, -, found, replace⟩ := based.focus
  apply replace _ _ _ _ (found.contributeHead live)
  intro other above
  have atBound := @Based.bound_le _ _ _ _ _ _ [] _ found live
  exact contribute_of_ne (by omega)

/-- A link takes over what is in the slots on both sides of it. -/
theorem Based.absorb (based : Based contribution base (link :: older) high) :
    Based contribution (storeBase base 1 older)
      ({ link with
        live := false
        held := leftSlot base older * link.held * link.right
        right := 1 } :: storeLinks 1 older) high := by
  obtain ⟨start, middle, low, bounded, -, held, right, rest⟩ := based
  obtain ⟨first, before, slot, store⟩ := rest.slot
  refine ⟨first, high, by omega, Nat.le_refl _, nofun, ?_, ?_, ?_⟩
  · rw [slot, held, right, span_append before low,
      span_append (Nat.le_trans before low) bounded]
  · exact span_self.symm
  · exact store 1 first (Nat.le_refl _) span_self.symm

/-- A link between two empty slots leaves its value in the one on the left. -/
theorem Based.deposit (based : Based contribution base (link :: older) high)
    (leftEmpty : leftSlot base older = 1) (rightEmpty : link.right = 1) :
    Based contribution (storeBase base link.held older)
      ({ link with
        live := false
        held := 1
        right := 1 } :: storeLinks link.held older) high := by
  obtain ⟨start, middle, low, bounded, -, held, right, rest⟩ := based
  obtain ⟨first, before, slot, store⟩ := rest.slot
  have whole := Nat.le_trans low bounded
  refine ⟨high, high, Nat.le_refl _, Nat.le_refl _, nofun, ?_, ?_, ?_⟩
  · exact span_self.symm
  · exact span_self.symm
  · apply store _ high (Nat.le_trans before whole)
    rw [← span_append before whole, ← slot, leftEmpty,
      ← span_append low bounded, ← held, ← right, rightEmpty, one_mul, mul_one]

/-- A link that keeps nothing goes away. -/
theorem Based.unlink (based : Based contribution base (link :: older) high)
    (heldNothing : link.held = 1) (rightEmpty : link.right = 1) :
    Based contribution base older high := by
  obtain ⟨start, middle, low, bounded, -, held, right, rest⟩ := based
  obtain ⟨first, before, slot, store⟩ := rest.slot
  have whole := Nat.le_trans low bounded
  have kept := store (leftSlot base older) high
    (Nat.le_trans before whole) (by
      rw [← span_append before whole, ← slot,
        ← span_append low bounded, ← held, ← right, rightEmpty, heldNothing,
        one_mul, mul_one])
  rwa [storeBase_leftSlot, storeLinks_leftSlot] at kept

/-- A link may stop contributing at any time. -/
theorem Based.retire {live : Bool}
    (based : Based contribution base (link :: older) high)
    (stillLive : live = true → link.live = true) :
    Based contribution base ({ link with live } :: older) high := by
  obtain ⟨start, middle, low, bounded, atBound, held, right, rest⟩ := based
  exact ⟨start, middle, low, bounded, fun isLive => atBound (stillLive isLive),
    held, right, rest⟩

/-- A new link, in a reduction to which nothing more has been contributed. -/
theorem Based.spawn {bound : ℕ} (based : Based contribution base links high)
    (after : high < bound)
    (nothing : ∀ position, high ≤ position → contribution position = 1) :
    Based contribution base (⟨bound, true, 1, 1⟩ :: links) bound :=
  ⟨high, bound, Nat.le_of_lt after, Nat.le_refl _, fun _ => ⟨rfl, after⟩,
    (span_eq_one nothing).symm, span_self.symm, based⟩

end Based

/-- The siblings that were spawned so far, and a trace that goes on after the
last of them. -/
def Covers (contribution : ℕ → M) (base : M) (links : List (Link M))
    (trace : M) (spawned : ℕ) : Prop :=
  ∃ high ≤ 2 * spawned, Based contribution base links high ∧
    trace = span contribution high (2 * spawned + 1)

section Covers

variable {contribution : ℕ → M} {base trace value : M}
  {links : List (Link M)} {spawned : ℕ}

theorem Covers.prod (covers : Covers contribution base links trace spawned) :
    base * (links.reverse.map fun link => link.held * link.right).prod * trace =
      span contribution 0 (2 * spawned + 1) := by
  obtain ⟨high, bounded, based, rfl⟩ := covers
  rw [based.prod, span_append (Nat.zero_le _) (by omega)]

/-- Some of the older links are replaced by others that end at the same
position. -/
theorem Covers.replace {newBase : M} {younger newLinks : List (Link M)}
    (covers : Covers contribution base (younger ++ links) trace spawned)
    (replaced : ∀ high, Based contribution base links high →
      Based contribution newBase newLinks high) :
    Covers contribution newBase (younger ++ newLinks) trace spawned := by
  obtain ⟨high, bounded, based, rest⟩ := covers
  exact ⟨high, bounded, based.replace replaced, rest⟩

theorem Covers.bound_le {link : Link M} {younger older : List (Link M)}
    (covers : Covers contribution base (younger ++ link :: older) trace spawned)
    (live : link.live = true) : link.bound ≤ 2 * spawned := by
  obtain ⟨high, bounded, based, -⟩ := covers
  exact Nat.le_trans (based.bound_le live).2 bounded

theorem Covers.contributeLink {link : Link M} {younger older : List (Link M)}
    (covers : Covers contribution base (younger ++ link :: older) trace spawned)
    (live : link.live = true) :
    Covers (contribute contribution (link.bound - 1) value) base
      (younger ++ { link with held := link.held * value } :: older) trace
      spawned := by
  obtain ⟨high, bounded, based, rfl⟩ := covers
  have atBound := based.bound_le live
  refine ⟨high, bounded, based.contributeLink live, ?_⟩
  apply (span_congr _).symm
  intro other above _
  exact contribute_of_ne (by omega)

theorem Covers.contributeTrace
    (covers : Covers contribution base links trace spawned) :
    Covers (contribute contribution (2 * spawned) value) base links
      (trace * value) spawned := by
  obtain ⟨high, bounded, based, rfl⟩ := covers
  refine ⟨high, bounded, ?_, (span_contribute_last bounded).symm⟩
  apply based.congr
  intro position below
  exact contribute_of_ne (by omega)

/-- A new sibling goes on with what the trace has got, and the trace starts
again with nothing. -/
theorem Covers.spawn (covers : Covers contribution base links trace spawned)
    (fresh : ∀ position, 2 * spawned < position → contribution position = 1) :
    Covers contribution base
      (⟨2 * spawned + 2, true, trace, 1⟩ :: links) 1 (spawned + 1) := by
  obtain ⟨high, bounded, based, rfl⟩ := covers
  have doubled : 2 * (spawned + 1) = 2 * spawned + 2 := by omega
  rw [Covers, doubled]
  refine ⟨2 * spawned + 2, Nat.le_refl _, ?_, ?_⟩
  · refine ⟨high, 2 * spawned + 2, by omega, Nat.le_refl _,
      fun _ => ⟨rfl, by omega⟩, ?_, span_self.symm, based⟩
    have extended := @span_succ M _ contribution high (2 * spawned + 1)
      (by omega)
    rw [fresh _ (by omega), mul_one] at extended
    exact extended.symm
  · rw [span_succ (Nat.le_refl _), span_self,
      fresh _ (by omega), mul_one]

/-- When no sibling is left, the trace takes over the base. -/
theorem Covers.join (covers : Covers contribution base [] trace spawned) :
    Covers contribution 1 [] (base * trace) spawned := by
  have total := covers.prod
  simp only [List.reverse_nil, List.map_nil, List.prod_nil, mul_one] at total
  exact ⟨0, Nat.zero_le _, span_self.symm, total⟩

end Covers

end SiblingReduction
