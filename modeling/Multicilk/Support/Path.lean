import Mathlib.Data.List.Chain
import Mathlib.Data.List.Nodup

/-!
# Paths along links

Every item has at most one link.  A path lists the items from its source on
whose links are followed until the target is reached.
-/

namespace LinkPath

variable {Item : Type*}

inductive Path (next : Item → Option Item) :
    Item → List Item → Item → Prop where
  | nil (target : Item) : Path next target [] target
  | cons {source middle target : Item} {rest : List Item} :
      next source = some middle →
      Path next middle rest target →
      Path next source (source :: rest) target

section Rules

variable {next other : Item → Option Item}
  {source middle target item : Item} {items rest : List Item}

@[simp] theorem path_nil : Path next source [] target ↔ source = target := by
  constructor
  · intro path
    cases path
    rfl
  · rintro rfl
    exact .nil source

@[simp] theorem path_cons : Path next source (item :: rest) target ↔
    source = item ∧ ∃ middle, next item = some middle ∧
      Path next middle rest target := by
  constructor
  · intro path
    cases path with
    | cons link path => exact ⟨rfl, _, link, path⟩
  · rintro ⟨rfl, middle, link, path⟩
    exact .cons link path

/-- A path uses no links but those of its items. -/
theorem Path.congr (path : Path next source items target)
    (same : ∀ item ∈ items, other item = next item) :
    Path other source items target := by
  induction path with
  | nil => exact .nil _
  | cons link _ induction =>
      rw [List.forall_mem_cons] at same
      exact .cons (same.1.trans link) (induction same.2)

theorem Path.append (path : Path next source items middle)
    (later : Path next middle rest target) :
    Path next source (items ++ rest) target := by
  induction path with
  | nil => exact later
  | cons link _ induction => exact .cons link (induction later)

theorem Path.snoc (path : Path next source items middle)
    (link : next middle = some target) :
    Path next source (items ++ [middle]) target :=
  path.append (.cons link (.nil target))

theorem Path.split (path : Path next source (items ++ item :: rest) target) :
    Path next source items item ∧ Path next item (item :: rest) target := by
  induction items generalizing source with
  | nil =>
      obtain ⟨rfl, -⟩ := path_cons.mp path
      exact ⟨.nil _, path⟩
  | cons first items induction =>
      obtain ⟨rfl, middle, link, later⟩ := path_cons.mp path
      obtain ⟨before, after⟩ := induction later
      exact ⟨.cons link before, after⟩

theorem Path.head (path : Path next source items target) :
    (items ++ [target]).head? = some source := by
  cases path with
  | nil => rfl
  | cons link path => rfl

theorem Path.isChain (path : Path next source items target) :
    (items ++ [target]).IsChain fun item other => next item = some other := by
  induction path with
  | nil => exact List.isChain_singleton _
  | cons link path induction =>
      rw [List.cons_append]
      refine induction.cons fun second isSecond => ?_
      rw [path.head, Option.mem_some_iff] at isSecond
      rw [link, isSecond]

theorem path_of_isChain
    (chain : (items ++ [target]).IsChain fun item other =>
      next item = some other)
    (head : (items ++ [target]).head? = some source) :
    Path next source items target := by
  induction items generalizing source with
  | nil =>
      cases head
      exact .nil target
  | cons item items induction =>
      cases head
      rw [List.cons_append, List.isChain_cons] at chain
      obtain ⟨link, later⟩ := chain
      cases second : (items ++ [target]).head? with
      | none => simp at second
      | some middle => exact .cons (link middle second) (induction later second)

/-- The links decide how a target is reached for the first time. -/
theorem Path.unique {others : List Item}
    (path : Path next source items target)
    (second : Path next source others target)
    (absent : target ∉ items) (alsoAbsent : target ∉ others) :
    items = others := by
  induction path generalizing others with
  | nil =>
      cases second with
      | nil => rfl
      | cons link later => simp at alsoAbsent
  | cons link _ induction =>
      rw [List.mem_cons, not_or] at absent
      cases second with
      | nil => exact absurd rfl absent.1
      | cons alsoLink later =>
          rw [List.mem_cons, not_or] at alsoAbsent
          rw [link, Option.some.injEq] at alsoLink
          subst alsoLink
          rw [induction later absent.2 alsoAbsent.2]

end Rules

end LinkPath
