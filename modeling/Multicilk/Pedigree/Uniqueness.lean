import Multicilk.Pedigree.CallTree

/-!
# Pedigrees are unique

The ranks along the pointers from a node lead to the root.  A frame is known by
those of its own node, and a strand by those that `__cilkrts_get_pedigree` gives.
-/

namespace Multicilk.Pedigree

open TransitionSystem

variable {dprng : Dprng} {s t : State} {node : PedigreeNode} {f g w : ℕ}
  {ranks : List ℕ}

/-- The ranks from a node up to the root. -/
inductive Ranks (s : State) : PedigreeNode → List ℕ → Prop where
  | root {node : PedigreeNode} : node.parent = none →
      Ranks s node [node.rank]
  | child {node : PedigreeNode} {f : ℕ} {ranks : List ℕ} :
      node.parent = some f → Ranks s (s.frames f).pedigree ranks →
      Ranks s node (node.rank :: ranks)

/-- The ranks that a worker reads with `__cilkrts_get_pedigree`. -/
def Reads (s : State) (w : ℕ) (ranks : List ℕ) : Prop :=
  ∃ node, getPedigree s w = some node ∧ Ranks s node ranks

/-- Every frame has a pedigree. -/
theorem Tree.exists_ranks (tree : Tree s) (inRange : f < s.entered) :
    ∃ ranks, Ranks s (s.frames f).pedigree ranks := by
  induction f using Nat.strongRecOn with
  | ind f induction =>
      cases isParent : (s.frames f).pedigree.parent with
      | none => exact ⟨_, .root isParent⟩
      | some p =>
          obtain ⟨ranks, above⟩ := induction p
            (tree.older f p inRange isParent)
            (tree.parent f p inRange isParent).1
          exact ⟨_, .child isParent above⟩

/-- The nodes of frames do not change. -/
theorem Ranks.later (tree : Tree s) (later : Later s t)
    (inRange : ∀ p, node.parent = some p → p < s.entered)
    (known : Ranks s node ranks) : Ranks t node ranks := by
  induction known with
  | root isRoot => exact .root isRoot
  | @child node f ranks isParent above induction =>
      have parentInRange := inRange f isParent
      refine .child isParent ?_
      rw [later.pedigree f parentInRange]
      exact induction fun p isGrandparent =>
        (tree.parent f p parentInRange isGrandparent).1

theorem Ranks.ne_nil (known : Ranks s node ranks) : ranks ≠ [] := by
  cases known <;> exact List.cons_ne_nil _ _

/-- A node is that of the root, or its ranks go on above the parent. -/
theorem Ranks.cases_node (known : Ranks s node ranks) :
    node.parent = none ∧ ranks = [node.rank] ∨
      ∃ p above, node.parent = some p ∧
        Ranks s (s.frames p).pedigree above ∧ ranks = node.rank :: above := by
  induction known with
  | root isRoot => exact .inl ⟨isRoot, rfl⟩
  | child isParent above => exact .inr ⟨_, _, isParent, above, rfl⟩

/-- Two frames with the same ranks have the same parent, and the same rank
there. -/
theorem Tree.eq_of_ranks (tree : Tree s) (fInRange : f < s.entered)
    (gInRange : g < s.entered) (fRanks : Ranks s (s.frames f).pedigree ranks)
    (gRanks : Ranks s (s.frames g).pedigree ranks) : f = g := by
  induction ranks generalizing f g with
  | nil => exact absurd rfl fRanks.ne_nil
  | cons rank ranks induction =>
      rcases fRanks.cases_node with
        ⟨fRoot, fOnly⟩ | ⟨p, above, fParent, fAbove, fSplit⟩ <;>
      rcases gRanks.cases_node with
        ⟨gRoot, gOnly⟩ | ⟨q, gAboveRanks, gParent, gAbove, gSplit⟩
      · rw [(tree.root f fInRange fRoot).1, (tree.root g gInRange gRoot).1]
      · have none := (List.cons.inj (gSplit.symm.trans fOnly)).2
        exact absurd none gAbove.ne_nil
      · have none := (List.cons.inj (fSplit.symm.trans gOnly)).2
        exact absurd none fAbove.ne_nil
      · obtain ⟨fRank, rfl⟩ := List.cons.inj fSplit
        obtain ⟨gRank, rfl⟩ := List.cons.inj gSplit
        have sameParent : p = q := induction
          (tree.parent f p fInRange fParent).1
          (tree.parent g q gInRange gParent).1 fAbove gAbove
        subst q
        exact tree.siblings f g p fInRange gInRange fParent gParent
          (fRank.symm.trans gRank)

/-- What a read returns is the rank of the frame, and above it the pedigree. -/
theorem reads_iff : Reads s w ranks ↔ ∃ f above,
    s.currentStackFrame w = some f ∧ Ranks s (s.frames f).pedigree above ∧
      ranks = (s.frames f).rank :: above := by
  constructor
  · rintro ⟨node, read, known⟩
    obtain ⟨f, executes, rfl⟩ := Option.map_eq_some_iff.mp read
    rcases known.cases_node with ⟨isRoot, -⟩ | ⟨p, above, isParent, known, split⟩
    · cases isRoot
    · cases isParent
      exact ⟨f, above, executes, known, split⟩
  · rintro ⟨f, above, executes, known, rfl⟩
    exact ⟨⟨(s.frames f).rank, some f⟩, by rw [getPedigree, executes]; rfl,
      .child rfl known⟩

section Runs

variable {start : State} {trace : List (State × Action)} {action : Action}

/-- A frame that is touched in a run has a higher rank in the end. -/
theorem rank_lt_of_touches (tree : Tree start)
    (run : Run (Step dprng) start trace s) (inRange : f < start.entered)
    (member : (t, action) ∈ trace) (touches : Touches t action f) :
    (start.frames f).rank < (s.frames f).rank := by
  obtain ⟨before, after, next, -, prior, taken, rest⟩ :=
    run.split_at_step member
  have priorTree := tree.of_run prior
  have untilThere := Later.of_run tree prior
  obtain ⟨thisStep, higher⟩ := taken.later priorTree
  have fromThere := Later.of_run (priorTree.step taken) rest
  calc (start.frames f).rank
    _ ≤ (t.frames f).rank := untilThere.rank f inRange
    _ < (next.frames f).rank := higher f touches
    _ ≤ (s.frames f).rank := fromThere.rank f
      (inRange.trans_le (untilThere.entered.trans thisStep.entered))

/-- Two reads that give the same ranks are made in the same strand. -/
theorem reads_same (tree : Tree s) (inRange : ∀ f,
      s.currentStackFrame w = some f → f < s.entered)
    (run : Run (Step dprng) s trace t) {v : ℕ}
    (laterInRange : ∀ f, t.currentStackFrame v = some f → f < t.entered)
    (first : Reads s w ranks) (second : Reads t v ranks) :
    ∃ f, s.currentStackFrame w = some f ∧ t.currentStackFrame v = some f ∧
      Meets (fun source action => ¬ Touches source action f) trace := by
  obtain ⟨f, above, executes, known, rfl⟩ := reads_iff.mp first
  obtain ⟨g, laterAbove, laterExecutes, laterKnown, same⟩ := reads_iff.mp second
  obtain ⟨sameRank, rfl⟩ := List.cons.inj same
  have later := Later.of_run tree run
  have fInRange := inRange f executes
  have stillKnown : Ranks t (t.frames f).pedigree above := by
    rw [later.pedigree f fInRange]
    exact known.later tree later fun p isParent =>
      (tree.parent f p fInRange isParent).1
  have sameFrame : f = g := (tree.of_run run).eq_of_ranks
    (fInRange.trans_le later.entered) (laterInRange g laterExecutes)
    stillKnown laterKnown
  subst g
  refine ⟨f, executes, laterExecutes, fun entry member touches => ?_⟩
  exact absurd sameRank (rank_lt_of_touches tree run fInRange member touches).ne

end Runs

/-- In every run of a region, every frame has a pedigree of its own, and two
calls of `__cilkrts_get_pedigree` give the same ranks only in the same frame, and
only if it has not been touched in between. -/
theorem pedigrees_unique (dprng : Dprng) (start s : State)
    (trace : List (State × Action)) (begins : Begins dprng start)
    (run : Run (Step dprng) start trace s) :
    (∀ f, f < s.entered → ∃ ranks, Ranks s (s.frames f).pedigree ranks) ∧
      (∀ f g ranks, f < s.entered → g < s.entered →
        Ranks s (s.frames f).pedigree ranks →
        Ranks s (s.frames g).pedigree ranks → f = g) ∧
      ∀ before between after s₁ s₂ w v ranks,
        trace = before ++ (s₁, .getPedigree w) ::
          (between ++ (s₂, .getPedigree v) :: after) →
        Reads s₁ w ranks → Reads s₂ v ranks →
        ∃ f, s₁.currentStackFrame w = some f ∧
          s₂.currentStackFrame v = some f ∧
          Meets (fun source action => ¬ Touches source action f) between := by
  have tree := begins.tree.of_run run
  refine ⟨fun f inRange => tree.exists_ranks inRange, ?_, ?_⟩
  · intro f g ranks fInRange gInRange fRanks gRanks
    exact tree.eq_of_ranks fInRange gInRange fRanks gRanks
  · rintro before between after s₁ s₂ w v ranks rfl first second
    obtain ⟨middle, prior, rest⟩ := run.of_append
    obtain ⟨rfl, next, read, rest⟩ := rest.of_cons
    cases read with
    | getPedigree executes =>
    obtain ⟨last, untilRead, rest⟩ := rest.of_append
    obtain ⟨rfl, next, laterRead, -⟩ := rest.of_cons
    cases laterRead with
    | getPedigree laterExecutes =>
    have priorTree := begins.tree.of_run prior
    refine reads_same priorTree (fun f current => ?_) untilRead
      (fun f current => ?_) first second
    · cases executes.1.symm.trans current
      exact priorTree.numbered _ executes.2
    · cases laterExecutes.1.symm.trans current
      exact (priorTree.of_run untilRead).numbered _ laterExecutes.2

/-- A region whose root has just been entered, where all memory was zero. -/
def blankRegion : State :=
  enterFrame (initDprng fun _ => 0)
    { frames := fun _ => ⟨false, none, ⟨0, none⟩, 0, 0, 0⟩
      entered := 0
      live := fun _ => false
      currentStackFrame := fun _ => none } none 0

theorem blankRegion_begins : Begins (initDprng fun _ => 0) blankRegion :=
  ⟨_, _, 0, rfl⟩

theorem pedigrees_unique_spawned :
    ∃ s, Run (Step (initDprng fun _ => 0)) blankRegion
        [(blankRegion, .getPedigree 0), (blankRegion, .enterFrameFast 0)] s ∧
      s.entered = 2 ∧
      ∀ f g ranks, f < 2 → g < 2 → Ranks s (s.frames f).pedigree ranks →
        Ranks s (s.frames g).pedigree ranks → f = g := by
  have executes : blankRegion.Executes 0 0 := ⟨rfl, rfl⟩
  have run : Run (Step (initDprng fun _ => 0)) blankRegion _ _ :=
    (Run.refl.snoc (.getPedigree executes)).snoc (.enterFrameFast executes)
  exact ⟨_, run, rfl,
    (pedigrees_unique _ _ _ _ blankRegion_begins run).2.1⟩

end Multicilk.Pedigree
