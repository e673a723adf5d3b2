import Multicilk.Pedigree.Uniqueness

/-!
# The dot product of a pedigree

Entering a frame and bumping a rank add one coefficient each.  The coefficients
add up to the dot product of the pedigree with the array, so that the random
numbers do not depend on how the strands were scheduled.
-/

namespace Multicilk.Pedigree

open TransitionSystem

variable {dprng : Dprng} {s t : State} {action : Action} {f p w : ℕ}
  {total : ℕ}

/-- The sum over the proper ancestors of a frame, all of which live. -/
inductive AncestorSum (dprng : Dprng) (s : State) : ℕ → ℕ → Prop where
  | root {f : ℕ} : (s.frames f).pedigree.parent = none →
      AncestorSum dprng s f 0
  | child {f p total : ℕ} : (s.frames f).pedigree.parent = some p →
      s.live p = true → AncestorSum dprng s p total →
      AncestorSum dprng s f (total + ((s.frames f).pedigree.rank + 1) *
        (dprng.mArray (s.frames p).dprngDepth).toNat)

/-- The dot product of a frame is that of its pedigree and its own rank. -/
def DotProduct (dprng : Dprng) (s : State) (f : ℕ) : Prop :=
  ∃ total, AncestorSum dprng s f total ∧
    (s.frames f).dprngDotproduct.toNat =
      (dprng.mX.toNat + total + (s.frames f).rank *
        (dprng.mArray (s.frames f).dprngDepth).toNat) % dprngPrime.toNat

/-- The coefficients up to some depth are reduced. -/
def Reduced (dprng : Dprng) (depth : ℕ) : Prop :=
  ∀ i < depth, (dprng.mArray i).toNat < dprngPrime.toNat

/-- The nesting depth is bounded. -/
def Nested (depth : ℕ) (s : State) : Prop :=
  ∀ f, s.live f = true → (s.frames f).dprngDepth < depth

section Frames

variable {dot coefficient : BitVec 64} {sum rank : ℕ}

/-- One more coefficient is added. -/
theorem dprngSumModP_add
    (isSum : dot.toNat = (sum + rank * coefficient.toNat) % dprngPrime.toNat)
    (reduced : coefficient.toNat < dprngPrime.toNat) :
    (dprngSumModP dot coefficient).toNat =
      (sum + (rank + 1) * coefficient.toNat) % dprngPrime.toNat := by
  have positive : 0 < dprngPrime.toNat := by decide
  rw [dprngSumModP_toNat (isSum ▸ Nat.mod_lt _ positive) reduced, isSum,
    Nat.mod_add_mod, Nat.add_one_mul, ← Nat.add_assoc]

/-- The sum depends on the frames only through their nodes and depths. -/
theorem AncestorSum.later (sum : AncestorSum dprng s f total) (tree : Tree s)
    (next : Tree t) (later : Later s t) (inRange : f < s.entered)
    (alive : t.live f = true) : AncestorSum dprng t f total := by
  induction sum with
  | @root f isRoot => exact .root (by rw [later.pedigree f inRange, isRoot])
  | @child f p total isParent _ _ induction =>
      have sameNode := later.pedigree f inRange
      have parentInRange := (tree.parent f p inRange isParent).1
      have stillParent : (t.frames f).pedigree.parent = some p := by
        rw [sameNode, isParent]
      have parentAlive := (next.callParent f p alive stillParent).2
      rw [← sameNode, ← later.depth p parentInRange]
      exact .child stillParent parentAlive (induction parentInRange parentAlive)

/-- Nothing has been added to the product. -/
theorem DotProduct.later (product : DotProduct dprng s f) (tree : Tree s)
    (next : Tree t) (later : Later s t) (inRange : f < s.entered)
    (alive : t.live f = true)
    (sameRank : (t.frames f).rank = (s.frames f).rank)
    (sameDot : (t.frames f).dprngDotproduct = (s.frames f).dprngDotproduct) :
    DotProduct dprng t f := by
  obtain ⟨total, sum, isSum⟩ := product
  refine ⟨total, sum.later tree next later inRange alive, ?_⟩
  rw [sameRank, sameDot, later.depth f inRange]
  exact isSum

/-- The rank has been bumped. -/
theorem DotProduct.bumped (product : DotProduct dprng s f) (tree : Tree s)
    (next : Tree t) (later : Later s t) (inRange : f < s.entered)
    (alive : t.live f = true)
    (reduced : (dprng.mArray (s.frames f).dprngDepth).toNat <
      dprngPrime.toNat)
    (isBumped : t.frames f = (s.frames f).bumped dprng) :
    DotProduct dprng t f := by
  obtain ⟨total, sum, isSum⟩ := product
  refine ⟨total, sum.later tree next later inRange alive, ?_⟩
  rw [isBumped]
  exact dprngSumModP_add isSum reduced

/-- A frame is entered: its product is that of its parent. -/
theorem DotProduct.entered (product : DotProduct dprng s p) (tree : Tree s)
    (next : Tree t) (later : Later s t) (parentAlive : s.live p = true)
    (reduced : (dprng.mArray (s.frames p).dprngDepth).toNat <
      dprngPrime.toNat)
    (entering : Enters dprng s p t) : DotProduct dprng t s.entered := by
  have inRange := tree.numbered p parentAlive
  have stillAlive := entering.live_iff.mpr (.inr parentAlive)
  have frame : t.frames s.entered = (s.frames p).child dprng p := by
    rw [entering.frames, Function.update_self]
  have isParent : (t.frames s.entered).pedigree.parent = some p := by
    rw [frame]
    rfl
  obtain ⟨total, sum, isSum⟩ := product
  refine ⟨_, .child isParent stillAlive
    (sum.later tree next later inRange stillAlive), ?_⟩
  rw [frame, later.depth p inRange]
  show (dprngSumModP _ _).toNat = (_ + (_ + (_ + 1) * _) + 0 * _) % _
  rw [dprngSumModP_add isSum reduced, Nat.zero_mul, Nat.add_zero,
    Nat.add_assoc]
  rfl

end Frames

/-- The dot products of all frames that live. -/
structure DotProducts (dprng : Dprng) (s : State) : Prop where
  tree : Tree s
  product : ∀ f, s.live f = true → DotProduct dprng s f

section Steps

variable {depth : ℕ}

theorem DotProducts.step (products : DotProducts dprng s)
    (reduced : Reduced dprng depth) (nested : Nested depth s)
    (taken : Step dprng s action t) : DotProducts dprng t := by
  obtain ⟨tree, product⟩ := products
  have next := tree.step taken
  have later := (taken.later tree).1
  refine ⟨next, ?_⟩
  cases taken.outcome tree.numbered with
  | enters p parentAlive _ entering =>
      have coefficient := reduced _ (nested p parentAlive)
      intro f alive
      rcases entering.live_iff.mp alive with rfl | wasAlive
      · exact (product p parentAlive).entered tree next later parentAlive
          coefficient entering
      have inRange := tree.numbered f wasAlive
      have frame : t.frames f = if f = p then (s.frames p).bumped dprng
          else s.frames f := by
        rw [entering.frames, Function.update_of_ne inRange.ne,
          Function.update_apply]
      by_cases isParent : f = p
      · subst f
        rw [if_pos rfl] at frame
        exact (product p wasAlive).bumped tree next later inRange alive
          coefficient frame
      · rw [if_neg isParent] at frame
        exact (product f wasAlive).later tree next later inRange alive
          (by rw [frame]) (by rw [frame])
  | bumps p bumpedAlive _ bumping =>
      intro f alive
      have wasAlive : s.live f = true := bumping.live ▸ alive
      have inRange := tree.numbered f wasAlive
      have frame : t.frames f = if f = p then (s.frames p).bumped dprng
          else s.frames f := by
        rw [bumping.frames, Function.update_apply]
      by_cases isBumped : f = p
      · subst f
        rw [if_pos rfl] at frame
        exact (product p wasAlive).bumped tree next later inRange alive
          (reduced _ (nested p wasAlive)) frame
      · rw [if_neg isBumped] at frame
        exact (product f wasAlive).later tree next later inRange alive
          (by rw [frame]) (by rw [frame])
  | pops p poppedAlive _ popping =>
      intro f alive
      have notPopped : f ≠ p := by
        rintro rfl
        rw [popping.live, Function.update_self] at alive
        cases alive
      have wasAlive : s.live f = true := by
        rwa [popping.live, Function.update_of_ne notPopped] at alive
      have frame : t.frames f = s.frames f := by
        rw [popping.frames, Function.update_of_ne notPopped]
      exact (product f wasAlive).later tree next later
        (tree.numbered f wasAlive) alive (by rw [frame]) (by rw [frame])
  | keeps _ keeping =>
      intro f alive
      have wasAlive : s.live f = true := keeping.live ▸ alive
      exact (product f wasAlive).later tree next later
        (tree.numbered f wasAlive) alive (by rw [keeping.frames])
        (by rw [keeping.frames])

theorem Begins.dotProducts (begins : Begins dprng s)
    (reduced : dprng.mX.toNat < dprngPrime.toNat) : DotProducts dprng s := by
  refine ⟨begins.tree, fun f alive => ?_⟩
  obtain ⟨-, live, root⟩ := begins.frames
  have isRoot : f = 0 := by
    by_contra other
    rw [live, Function.update_of_ne other] at alive
    cases alive
  subst f
  refine ⟨0, .root (by rw [root]; rfl), ?_⟩
  rw [root]
  show dprng.mX.toNat = (dprng.mX.toNat + 0 + 0 * _) % _
  rw [Nat.zero_mul, Nat.add_zero, Nat.mod_eq_of_lt reduced]

end Steps

section Values

variable {ranks above : List ℕ} {f : ℕ} {depth : ℕ}

/-- The sum over the ancestors, by the ranks alone. -/
def ranksProduct (mArray : ℕ → BitVec 64) : List ℕ → ℕ
  | [] => 0
  | [_] => 0
  | rank :: parent :: above =>
    ranksProduct mArray (parent :: above) +
      (rank + 1) * (mArray above.length).toNat

/-- What `__cilkrts_get_dprand` mixes when it is called in a strand. -/
def strandProduct (dprng : Dprng) : List ℕ → ℕ
  | [] => 0
  | rank :: above =>
    (dprng.mX.toNat + ranksProduct dprng.mArray above +
      (rank + 1) * (dprng.mArray (above.length - 1)).toNat) %
        dprngPrime.toNat

theorem ranksProduct_congr {left right : ℕ → BitVec 64}
    (same : ∀ i < depth, left i = right i) (bound : ranks.length ≤ depth) :
    ranksProduct left ranks = ranksProduct right ranks := by
  induction ranks with
  | nil => rfl
  | cons rank above induction =>
      cases above with
      | nil => rfl
      | cons parent above =>
          simp only [List.length_cons] at bound
          rw [ranksProduct, ranksProduct, induction (by simp; omega),
            same above.length (by omega)]

/-- The sum over the ancestors is that over the ranks. -/
theorem AncestorSum.eq_ranksProduct (sum : AncestorSum dprng s f total)
    (tree : Tree s) (inRange : f < s.entered)
    (known : Ranks s (s.frames f).pedigree ranks) :
    total = ranksProduct dprng.mArray ranks ∧
      (s.frames f).dprngDepth + 1 = ranks.length := by
  induction sum generalizing ranks with
  | @root f isRoot =>
      rcases known.cases_node with ⟨-, rfl⟩ | ⟨p, above, isParent, -⟩
      · exact ⟨rfl, by rw [(tree.root f inRange isRoot).2]; rfl⟩
      · cases isRoot.symm.trans isParent
  | @child f p total isParent _ _ induction =>
      rcases known.cases_node with ⟨isRoot, -⟩ | ⟨q, above, isParent', known, rfl⟩
      · cases isRoot.symm.trans isParent
      · cases isParent.symm.trans isParent'
        obtain ⟨parentInRange, -, deeper⟩ := tree.parent f p inRange isParent
        obtain ⟨rfl, length⟩ := induction parentInRange known
        cases above with
        | nil => exact absurd rfl known.ne_nil
        | cons parent above =>
            rw [List.length_cons, Nat.add_right_cancel_iff] at length
            rw [deeper, length]
            exact ⟨rfl, rfl⟩

/-- The random number of a strand is a function of its ranks. -/
theorem DotProducts.getDprand_eq (products : DotProducts dprng s)
    (reduced : Reduced dprng depth) (nested : Nested depth s)
    (executes : s.Executes w f) (reads : Reads s w ranks) :
    ranks.length ≤ depth + 1 ∧ (getDprand dprng s w).2 =
      some (dprngMixModP (BitVec.ofNat 64 (strandProduct dprng ranks))) := by
  obtain ⟨g, above, current, known, rfl⟩ := reads_iff.mp reads
  cases executes.1.symm.trans current
  obtain ⟨total, sum, isSum⟩ := products.product f executes.2
  obtain ⟨rfl, length⟩ := sum.eq_ranksProduct products.tree
    (products.tree.numbered f executes.2) known
  have shallow := nested f executes.2
  have bumped : (getDprand dprng s w).2 = some (dprngMixModP (dprngSumModP
      (s.frames f).dprngDotproduct
      (dprng.mArray (s.frames f).dprngDepth))) := by
    simp [getDprand, bumpWorkerRank, bumpRank, State.modifyFrame, executes.1]
  constructor
  · rw [List.length_cons]
    omega
  · rw [bumped, strandProduct, ← length, Nat.add_sub_cancel,
      ← dprngSumModP_add isSum (reduced _ shallow), BitVec.ofNat_toNat,
      BitVec.setWidth_eq]

end Values

/-- The array that `__cilkrts_init_dprng` fills has the same reduced words in
every region. -/
theorem initDprng_reduced (contents : ℕ → BitVec 64) :
    Reduced (initDprng contents) 4096 :=
  fun _ inRange => fillMArray_lt inRange

theorem initDprng_congr (contents others : ℕ → BitVec 64) (i : ℕ)
    (inRange : i < 4096) :
    (initDprng contents).mArray i = (initDprng others).mArray i :=
  fillMArray_congr inRange

/-- The state is reached in a region in which no frame is nested as deeply as the
array is long. -/
def Reached (dprng : Dprng) (s : State) : Prop :=
  ∃ start trace, Begins dprng start ∧ Run (Step dprng) start trace s ∧
    Meets (fun s _ => Nested 4096 s) trace ∧ Nested 4096 s

theorem Reached.dotProducts {contents : ℕ → BitVec 64}
    (reached : Reached (initDprng contents) s) :
    DotProducts (initDprng contents) s ∧ Nested 4096 s := by
  obtain ⟨start, trace, begins, run, meets, nested⟩ := reached
  refine ⟨run.invariant_of_meets meets ?_ ?_, nested⟩
  · exact begins.dotProducts (dprngMixModP_lt _)
  · exact fun _ _ _ products nested taken =>
      products.step (initDprng_reduced contents) nested taken

/-- Every frame that lives has the dot product of its pedigree.  So the random
number that a strand gets depends on its pedigree alone. -/
theorem dotproduct_of_pedigree (contents : ℕ → BitVec 64) (s : State)
    (reached : Reached (initDprng contents) s) :
    (∀ f, s.live f = true → DotProduct (initDprng contents) s f) ∧
      ∀ others t, Reached (initDprng others) t →
        ∀ w v f g ranks, s.Executes w f → t.Executes v g →
          Reads s w ranks → Reads t v ranks →
          (getDprand (initDprng contents) s w).2 =
            (getDprand (initDprng others) t v).2 := by
  obtain ⟨products, nested⟩ := reached.dotProducts
  refine ⟨products.product, ?_⟩
  intro others t otherReached w v f g ranks executes otherExecutes reads
    otherReads
  obtain ⟨otherProducts, otherNested⟩ := otherReached.dotProducts
  obtain ⟨bound, value⟩ := products.getDprand_eq
    (initDprng_reduced contents) nested executes reads
  obtain ⟨-, otherValue⟩ := otherProducts.getDprand_eq
    (initDprng_reduced others) otherNested otherExecutes otherReads
  have same : strandProduct (initDprng contents) ranks =
      strandProduct (initDprng others) ranks := by
    cases ranks with
    | nil => rw [strandProduct, strandProduct]
    | cons rank above =>
        have sameX : (initDprng contents).mX = (initDprng others).mX := rfl
        rw [List.length_cons, Nat.add_le_add_iff_right] at bound
        rw [strandProduct, strandProduct, sameX,
          ranksProduct_congr (initDprng_congr contents others) bound,
          initDprng_congr contents others _ (by omega)]
  rw [value, otherValue, same]

/-- A frame is nested no deeper than there are frames that are older. -/
theorem Tree.depth_le (tree : Tree s) (inRange : f < s.entered) :
    (s.frames f).dprngDepth ≤ f := by
  induction f using Nat.strongRecOn with
  | ind f induction =>
      cases isParent : (s.frames f).pedigree.parent with
      | none => rw [(tree.root f inRange isParent).2]; exact Nat.zero_le f
      | some p =>
          have older := tree.older f p inRange isParent
          obtain ⟨parentInRange, -, deeper⟩ := tree.parent f p inRange isParent
          have parentDepth := induction p older parentInRange
          omega

theorem Tree.nested {depth : ℕ} (tree : Tree s) (few : s.entered ≤ depth) :
    Nested depth s := by
  intro f alive
  have inRange := tree.numbered f alive
  have shallow := tree.depth_le inRange
  omega

theorem Begins.reached (begins : Begins dprng s) : Reached dprng s := by
  refine ⟨s, [], begins, .refl, meets_nil _, begins.tree.nested ?_⟩
  rw [begins.frames.1]
  decide

/-- A region that has few frames is not nested too deeply. -/
theorem Reached.step (reached : Reached dprng s) (taken : Step dprng s action t)
    (few : t.entered ≤ 4096) : Reached dprng t := by
  obtain ⟨start, trace, begins, run, meets, nested⟩ := reached
  have tree := begins.tree.of_run (run.snoc taken)
  exact ⟨start, _, begins, run.snoc taken, meets_snoc.mpr ⟨meets, nested⟩,
    tree.nested few⟩

/-- A region that another worker begins, where the array has other contents. -/
def otherRegion : State :=
  enterFrame (initDprng fun _ => 7)
    { blankRegion with
      entered := 0
      live := fun _ => false
      currentStackFrame := fun _ => none } none 1

theorem otherRegion_begins : Begins (initDprng fun _ => 7) otherRegion :=
  ⟨_, _, 1, rfl⟩

/-- A spawned frame stays on its worker, or it is left to another one, while a
third worker goes on with its parent.  It gets the same random number. -/
theorem dotproduct_of_pedigree_nested :
    ∃ s t, s.Executes 0 1 ∧ t.Executes 2 1 ∧ (t.frames 2).pedigree.rank = 2 ∧
      Reads s 0 [1, 1, 0] ∧ Reads t 2 [1, 1, 0] ∧
      DotProduct (initDprng fun _ => 0) s 1 ∧
      (getDprand (initDprng fun _ => 0) s 0).2 =
        (getDprand (initDprng fun _ => 7) t 2).2 := by
  have alone := (((blankRegion_begins.reached.step
    (@Step.getDprand _ _ 0 0 ⟨rfl, rfl⟩) (by decide)).step
    (@Step.enterFrameFast _ _ 0 0 ⟨rfl, rfl⟩) (by decide)).step
    (@Step.bumpWorkerRank _ _ 0 1 ⟨rfl, rfl⟩) (by decide))
  have entered := (otherRegion_begins.reached.step
    (@Step.bumpWorkerRank _ _ 1 0 ⟨rfl, rfl⟩) (by decide)).step
    (@Step.enterFrame _ _ 1 0 ⟨rfl, rfl⟩) (by decide)
  have left := (entered.step
    (@Step.schedule _ _ 2 (some 1) (by rintro f ⟨⟩; rfl)) (by decide)).step
    (@Step.schedule _ _ 3 (some 0) (by rintro f ⟨⟩; rfl)) (by decide)
  have shared := (left.step
    (@Step.enterFrame _ _ 3 0 ⟨rfl, rfl⟩) (by decide)).step
    (@Step.bumpWorkerRank _ _ 2 1 ⟨rfl, rfl⟩) (by decide)
  obtain ⟨products, sameNumber⟩ := dotproduct_of_pedigree _ _ alone
  refine ⟨_, _, ⟨rfl, rfl⟩, ⟨rfl, rfl⟩, rfl, ?_, ?_, products 1 rfl,
    sameNumber _ _ shared 0 2 1 1 [1, 1, 0] ⟨rfl, rfl⟩ ⟨rfl, rfl⟩ ?_ ?_⟩
  all_goals exact reads_iff.mpr ⟨1, [1, 0], rfl, .child rfl (.root rfl), rfl⟩

end Multicilk.Pedigree
