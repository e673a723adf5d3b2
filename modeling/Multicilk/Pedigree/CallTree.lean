import Multicilk.Pedigree.Frames

/-!
# The tree of calls

A frame is entered from the one that its worker executes, whose rank is bumped
at that moment.  So the frames form a tree, in which no two children of a frame
have the same rank.
-/

namespace Multicilk.Pedigree

open TransitionSystem

variable {dprng : Dprng} {s t : State} {action : Action} {f g p w : ℕ}

/-- What `bumpRank` makes of a frame. -/
def StackFrame.bumped (dprng : Dprng) (frame : StackFrame) : StackFrame :=
  { frame with
    rank := frame.rank + 1
    dprngDotproduct := dprngSumModP frame.dprngDotproduct
      (dprng.mArray frame.dprngDepth) }

/-- A frame that has just been entered from another one. -/
def StackFrame.child (dprng : Dprng) (parent : StackFrame) (p : ℕ) :
    StackFrame where
  last := false
  callParent := some p
  pedigree := { rank := parent.rank, parent := some p }
  rank := 0
  dprngDotproduct := (parent.bumped dprng).dprngDotproduct
  dprngDepth := parent.dprngDepth + 1

/-- The root frame when it has just been entered. -/
def StackFrame.root (dprng : Dprng) : StackFrame where
  last := true
  callParent := some 0
  pedigree := { rank := 0, parent := none }
  rank := 0
  dprngDotproduct := dprng.mX
  dprngDepth := 0

/-- The action enters a frame from this one, or bumps its rank. -/
def Touches (s : State) (action : Action) (f : ℕ) : Prop :=
  ∃ w, s.currentStackFrame w = some f ∧
    (action = .enterFrame w ∨ action = .enterFrameFast w ∨
      action = .bumpWorkerRank w ∨ action = .getDprand w)

section Outcomes

structure Enters (dprng : Dprng) (s : State) (p : ℕ) (t : State) : Prop where
  entered : t.entered = s.entered + 1
  live : t.live = Function.update s.live s.entered true
  frames : t.frames = Function.update
    (Function.update s.frames p ((s.frames p).bumped dprng)) s.entered
    ((s.frames p).child dprng p)

structure Bumps (dprng : Dprng) (s : State) (f : ℕ) (t : State) : Prop where
  entered : t.entered = s.entered
  live : t.live = s.live
  frames : t.frames = Function.update s.frames f ((s.frames f).bumped dprng)

structure Pops (s : State) (f : ℕ) (t : State) : Prop where
  entered : t.entered = s.entered
  live : t.live = Function.update s.live f false
  frames : t.frames = Function.update s.frames f
    { s.frames f with callParent := none }
  last : ∀ g, s.live g = true → g ≠ f → (s.frames g).callParent ≠ some f

structure Keeps (s t : State) : Prop where
  entered : t.entered = s.entered
  live : t.live = s.live
  frames : t.frames = s.frames

/-- What a step does to the tree of calls, and the frame it touches. -/
inductive Outcome (dprng : Dprng) (s : State) (action : Action) (t : State) :
    Prop where
  | enters (p : ℕ) : s.live p = true → Touches s action p →
      Enters dprng s p t → Outcome dprng s action t
  | bumps (f : ℕ) : s.live f = true → Touches s action f →
      Bumps dprng s f t → Outcome dprng s action t
  | pops (f : ℕ) : s.live f = true → (∀ g, ¬ Touches s action g) →
      Pops s f t → Outcome dprng s action t
  | keeps : (∀ g, ¬ Touches s action g) → Keeps s t →
      Outcome dprng s action t

theorem linkFrame_enters (numbered : p < s.entered)
    (executes : s.currentStackFrame w = some p) :
    Enters dprng s p (linkFrame dprng (nextFrame s) w s.entered) := by
  have different : p ≠ s.entered := numbered.ne
  constructor
  case entered => simp [linkFrame, maintainPedigree, nextFrame, executes,
    State.setCurrent, State.modifyFrame, bumpRank]
  case live => simp [linkFrame, maintainPedigree, nextFrame, executes,
    State.setCurrent, State.modifyFrame, bumpRank]
  case frames =>
    funext f
    simp only [linkFrame, maintainPedigree, nextFrame, executes,
      State.setCurrent, State.modifyFrame, bumpRank, Function.update_apply]
    by_cases isChild : f = s.entered
    · simp [isChild, different, different.symm, StackFrame.child,
        StackFrame.bumped]
    · by_cases isParent : f = p
      · simp [isParent, different, StackFrame.bumped]
      · simp [isChild, isParent]

theorem bumpWorkerRank_bumps (executes : s.currentStackFrame w = some f) :
    Bumps dprng s f (bumpWorkerRank dprng s w) := by
  rw [bumpWorkerRank, executes]
  exact ⟨rfl, rfl, rfl⟩

theorem Step.outcome (numbered : ∀ f, s.live f = true → f < s.entered)
    (taken : Step dprng s action t) : Outcome dprng s action t := by
  cases taken with
  | @enterFrame w p executes =>
      exact .enters p executes.2 ⟨w, executes.1, .inl rfl⟩
        (linkFrame_enters (numbered p executes.2) executes.1)
  | @enterFrameFast w p executes =>
      exact .enters p executes.2 ⟨w, executes.1, .inr (.inl rfl)⟩
        (linkFrame_enters (numbered p executes.2) executes.1)
  | @popFrame w f executes last =>
      exact .pops f executes.2 (by simp [Touches]) ⟨rfl, rfl, rfl, last⟩
  | @bumpWorkerRank w f executes =>
      exact .bumps f executes.2 ⟨w, executes.1, .inr (.inr (.inl rfl))⟩
        (bumpWorkerRank_bumps executes.1)
  | @getDprand w f executes =>
      exact .bumps f executes.2 ⟨w, executes.1, .inr (.inr (.inr rfl))⟩
        (bumpWorkerRank_bumps executes.1)
  | getPedigree executes => exact .keeps (by simp [Touches]) ⟨rfl, rfl, rfl⟩
  | schedule alive => exact .keeps (by simp [Touches]) ⟨rfl, rfl, rfl⟩

end Outcomes

section Trees

/-- The frames that have been entered form a tree, and those that live are
closed under parents. -/
structure Tree (s : State) : Prop where
  numbered : ∀ f, s.live f = true → f < s.entered
  root : ∀ f, f < s.entered → (s.frames f).pedigree.parent = none →
    f = 0 ∧ (s.frames f).dprngDepth = 0
  parent : ∀ f p, f < s.entered → (s.frames f).pedigree.parent = some p →
    p < s.entered ∧ (s.frames f).pedigree.rank < (s.frames p).rank ∧
      (s.frames f).dprngDepth = (s.frames p).dprngDepth + 1
  older : ∀ f p, f < s.entered → (s.frames f).pedigree.parent = some p → p < f
  siblings : ∀ f g p, f < s.entered → g < s.entered →
    (s.frames f).pedigree.parent = some p →
    (s.frames g).pedigree.parent = some p →
    (s.frames f).pedigree.rank = (s.frames g).pedigree.rank → f = g
  callParent : ∀ f p, s.live f = true →
    (s.frames f).pedigree.parent = some p →
    (s.frames f).callParent = some p ∧ s.live p = true

/-- A frame that is there already. -/
structure Older (s : State) (p f : ℕ) (t : State) : Prop where
  inRange : f < s.entered
  pedigree : (t.frames f).pedigree = (s.frames f).pedigree
  depth : (t.frames f).dprngDepth = (s.frames f).dprngDepth
  callParent : (t.frames f).callParent = (s.frames f).callParent
  rank : (t.frames f).rank = (s.frames f).rank + if f = p then 1 else 0

theorem Enters.older (entering : Enters dprng s p t)
    (inRange : f < s.entered) : Older s p f t := by
  have frame : t.frames f = if f = p then (s.frames p).bumped dprng
      else s.frames f := by
    rw [entering.frames, Function.update_of_ne inRange.ne,
      Function.update_apply]
  by_cases isParent : f = p
  · rw [isParent, if_pos rfl] at frame
    constructor <;> simp [isParent, frame, StackFrame.bumped,
      isParent ▸ inRange]
  · rw [if_neg isParent] at frame
    constructor <;> simp [isParent, frame, inRange]

/-- Whether a frame is the new one, or is there already. -/
theorem Enters.frame_cases (entering : Enters dprng s p t)
    (inRange : f < t.entered) :
    f = s.entered ∧ t.frames f = (s.frames p).child dprng p ∨
      Older s p f t := by
  rw [entering.entered] at inRange
  by_cases isNew : f = s.entered
  · left
    rw [entering.frames, isNew, Function.update_self]
    exact ⟨rfl, rfl⟩
  · exact .inr (entering.older (by omega))

/-- A step leaves the numbers and nodes of the frames alone. -/
theorem Tree.congr (tree : Tree s) (entered : t.entered = s.entered)
    (live : ∀ f, t.live f = true → s.live f = true)
    (pedigree : ∀ f, (t.frames f).pedigree = (s.frames f).pedigree)
    (depth : ∀ f, (t.frames f).dprngDepth = (s.frames f).dprngDepth)
    (rank : ∀ f, (s.frames f).rank ≤ (t.frames f).rank)
    (callParent : ∀ f, t.live f = true →
      (t.frames f).callParent = (s.frames f).callParent)
    (liveParent : ∀ f p, t.live f = true → (s.frames f).callParent = some p →
      s.live p = true → t.live p = true) : Tree t := by
  constructor
  case numbered =>
    intro f isLive
    rw [entered]
    exact tree.numbered f (live f isLive)
  case root =>
    intro f inRange isRoot
    rw [entered] at inRange
    rw [pedigree] at isRoot
    rw [depth]
    exact tree.root f inRange isRoot
  case parent =>
    intro f p inRange isParent
    rw [entered] at inRange ⊢
    rw [pedigree] at isParent
    rw [depth, depth, pedigree]
    obtain ⟨entered, earlier, deeper⟩ := tree.parent f p inRange isParent
    exact ⟨entered, earlier.trans_le (rank p), deeper⟩
  case older =>
    intro f p inRange isParent
    rw [entered] at inRange
    rw [pedigree] at isParent
    exact tree.older f p inRange isParent
  case siblings =>
    intro f g p fInRange gInRange fParent gParent same
    rw [entered] at fInRange gInRange
    rw [pedigree] at fParent gParent
    rw [pedigree, pedigree] at same
    exact tree.siblings f g p fInRange gInRange fParent gParent same
  case callParent =>
    intro f p isLive isParent
    rw [pedigree] at isParent
    rw [callParent f isLive]
    obtain ⟨called, parentLive⟩ := tree.callParent f p (live f isLive) isParent
    exact ⟨called, liveParent f p isLive called parentLive⟩

theorem Enters.live_iff (entering : Enters dprng s p t) :
    t.live f = true ↔ f = s.entered ∨ s.live f = true := by
  rw [entering.live, Function.update_apply]
  split
  case isTrue isNew => simp [isNew]
  case isFalse isOld => simp [isOld]

theorem Tree.enters (tree : Tree s) (parentLive : s.live p = true)
    (entering : Enters dprng s p t) : Tree t := by
  have inRange := tree.numbered p parentLive
  have parentOlder := entering.older inRange
  have numbered (f : ℕ) (isLive : t.live f = true) : f < t.entered := by
    rw [entering.entered]
    rcases entering.live_iff.mp isLive with isNew | wasLive
    · omega
    · exact (tree.numbered f wasLive).trans_le (Nat.le_succ _)
  constructor
  case numbered => exact numbered
  case root =>
    intro f range isRoot
    rcases entering.frame_cases range with ⟨isNew, frame⟩ | older
    · rw [frame] at isRoot
      cases isRoot
    · rw [older.pedigree] at isRoot
      rw [older.depth]
      exact tree.root f older.inRange isRoot
  case parent =>
    intro f q range isParent
    rcases entering.frame_cases range with ⟨isNew, frame⟩ | older
    · rw [frame] at isParent ⊢
      cases isParent
      rw [entering.entered, parentOlder.rank, parentOlder.depth, if_pos rfl]
      exact ⟨inRange.trans_le (Nat.le_succ _), Nat.lt_succ_self _, rfl⟩
    · rw [older.pedigree] at isParent ⊢
      obtain ⟨earlier, smaller, deeper⟩ :=
        tree.parent f q older.inRange isParent
      have parent := entering.older earlier
      rw [entering.entered, older.depth, parent.depth, parent.rank]
      exact ⟨earlier.trans_le (Nat.le_succ _),
        smaller.trans_le (Nat.le_add_right ..), deeper⟩
  case older =>
    intro f q range isParent
    rcases entering.frame_cases range with ⟨isNew, frame⟩ | older
    · rw [frame] at isParent
      cases isParent
      rwa [isNew]
    · rw [older.pedigree] at isParent
      exact tree.older f q older.inRange isParent
  case siblings =>
    intro f g q fRange gRange fParent gParent same
    rcases entering.frame_cases fRange with ⟨fNew, fFrame⟩ | fOlder <;>
    rcases entering.frame_cases gRange with ⟨gNew, gFrame⟩ | gOlder
    · rw [fNew, gNew]
    · -- the rank of the parent has passed those of its earlier children
      rw [fFrame] at fParent same
      rw [gOlder.pedigree] at gParent same
      cases fParent
      exact absurd same (tree.parent g p gOlder.inRange gParent).2.1.ne'
    · rw [fOlder.pedigree] at fParent same
      rw [gFrame] at gParent same
      cases gParent
      exact absurd same (tree.parent f p fOlder.inRange fParent).2.1.ne
    · rw [fOlder.pedigree] at fParent same
      rw [gOlder.pedigree] at gParent same
      exact tree.siblings f g q fOlder.inRange gOlder.inRange fParent gParent
        same
  case callParent =>
    intro f q isLive isParent
    rw [entering.live_iff]
    rcases entering.frame_cases (numbered f isLive) with
      ⟨isNew, frame⟩ | older
    · rw [frame] at isParent ⊢
      cases isParent
      exact ⟨rfl, .inr parentLive⟩
    · rw [older.pedigree] at isParent
      rw [older.callParent]
      have wasLive : s.live f = true :=
        (entering.live_iff.mp isLive).resolve_left older.inRange.ne
      obtain ⟨called, alive⟩ := tree.callParent f q wasLive isParent
      exact ⟨called, .inr alive⟩

theorem Tree.bumps (tree : Tree s) (bumping : Bumps dprng s p t) : Tree t := by
  have frame (f : ℕ) : t.frames f =
      if f = p then (s.frames p).bumped dprng else s.frames f := by
    rw [bumping.frames, Function.update_apply]
  have live (f : ℕ) : t.live f = s.live f := by rw [bumping.live]
  apply tree.congr bumping.entered
  case live => exact fun f isLive => live f ▸ isLive
  case liveParent => exact fun f q _ _ alive => (live q).trans alive
  all_goals
    intro f
    rw [frame]
    split
    case isTrue isBumped => simp [isBumped, StackFrame.bumped]
    case isFalse => simp

/-- No frame that lives has been called by the frame that is popped. -/
theorem Tree.pops (tree : Tree s) (popping : Pops s p t) : Tree t := by
  have frame (f : ℕ) : t.frames f =
      if f = p then { s.frames p with callParent := none } else s.frames f := by
    rw [popping.frames, Function.update_apply]
  have live (f : ℕ) : t.live f = true ↔ f ≠ p ∧ s.live f = true := by
    rw [popping.live, Function.update_apply]
    by_cases isPopped : f = p <;> simp [isPopped]
  apply tree.congr popping.entered
  case live => exact fun f isLive => ((live f).mp isLive).2
  case callParent =>
    intro f isLive
    rw [frame, if_neg ((live f).mp isLive).1]
  case liveParent =>
    intro f q isLive called alive
    obtain ⟨notPopped, wasLive⟩ := (live f).mp isLive
    refine (live q).mpr ⟨?_, alive⟩
    rintro rfl
    exact popping.last f wasLive notPopped called
  all_goals
    intro f
    rw [frame]
    split
    case isTrue isPopped => simp [isPopped]
    case isFalse => simp

theorem Tree.keeps (tree : Tree s) (keeping : Keeps s t) : Tree t := by
  obtain ⟨entered, live, frames⟩ := keeping
  apply tree.congr entered <;> simp [live, frames]

theorem Tree.step (tree : Tree s) (taken : Step dprng s action t) : Tree t := by
  cases taken.outcome tree.numbered with
  | enters p alive _ entering => exact tree.enters alive entering
  | bumps f _ _ bumping => exact tree.bumps bumping
  | pops f _ _ popping => exact tree.pops popping
  | keeps _ keeping => exact tree.keeps keeping

theorem Begins.frames (begins : Begins dprng s) :
    s.entered = 1 ∧ s.live = Function.update (fun _ => false) 0 true ∧
      s.frames 0 = .root dprng := by
  obtain ⟨frames, currentStackFrame, w, rfl⟩ := begins
  refine ⟨?_, ?_, ?_⟩ <;>
    simp [enterFrame, linkFrame, maintainPedigree, nextFrame, cilkify,
      State.setCurrent, State.modifyFrame, StackFrame.root]

theorem Begins.tree (begins : Begins dprng s) : Tree s := by
  obtain ⟨entered, live, root⟩ := begins.frames
  have onlyRoot {f : ℕ} (inRange : f < s.entered) : f = 0 := by omega
  have isLive {f : ℕ} (alive : s.live f = true) : f = 0 := by
    by_contra other
    rw [live, Function.update_of_ne other] at alive
    cases alive
  have noParent {f q : ℕ} (inRange : f < s.entered)
      (isParent : (s.frames f).pedigree.parent = some q) : False := by
    rw [onlyRoot inRange, root] at isParent
    cases isParent
  constructor
  case numbered =>
    intro f alive
    have := isLive alive
    omega
  case root =>
    intro f inRange _
    rw [onlyRoot inRange, root]
    exact ⟨rfl, rfl⟩
  case parent =>
    exact fun f q inRange isParent => (noParent inRange isParent).elim
  case older =>
    exact fun f q inRange isParent => (noParent inRange isParent).elim
  case siblings =>
    exact fun f g q inRange _ isParent => (noParent inRange isParent).elim
  case callParent =>
    intro f q alive isParent
    exact (noParent (by have := isLive alive; omega) isParent).elim

end Trees

section Later

/-- What has happened to the frames since an earlier state. -/
structure Later (s t : State) : Prop where
  entered : s.entered ≤ t.entered
  pedigree : ∀ f, f < s.entered →
    (t.frames f).pedigree = (s.frames f).pedigree
  depth : ∀ f, f < s.entered →
    (t.frames f).dprngDepth = (s.frames f).dprngDepth
  rank : ∀ f, f < s.entered → (s.frames f).rank ≤ (t.frames f).rank

theorem Later.refl (s : State) : Later s s :=
  ⟨le_rfl, fun _ _ => rfl, fun _ _ => rfl, fun _ _ => le_rfl⟩

theorem Later.trans {r : State} (first : Later r s) (second : Later s t) :
    Later r t where
  entered := first.entered.trans second.entered
  pedigree := fun f inRange =>
    (second.pedigree f (inRange.trans_le first.entered)).trans
      (first.pedigree f inRange)
  depth := fun f inRange =>
    (second.depth f (inRange.trans_le first.entered)).trans
      (first.depth f inRange)
  rank := fun f inRange => (first.rank f inRange).trans
    (second.rank f (inRange.trans_le first.entered))

theorem Touches.unique (first : Touches s action f)
    (second : Touches s action g) : f = g := by
  obtain ⟨w, current, kind⟩ := first
  obtain ⟨v, current', kind'⟩ := second
  have sameWorker : w = v := by
    rcases kind with rfl | rfl | rfl | rfl <;> simpa using kind'
  subst v
  exact Option.some.inj (current.symm.trans current')

/-- Time passes, and the frame that is touched gets a higher rank. -/
theorem Step.later (tree : Tree s) (taken : Step dprng s action t) :
    Later s t ∧ ∀ f, Touches s action f →
      (s.frames f).rank < (t.frames f).rank := by
  cases taken.outcome tree.numbered with
  | enters p alive touches entering =>
      constructor
      · constructor
        case entered => exact entering.entered ▸ Nat.le_succ _
        case pedigree =>
          exact fun f inRange => (entering.older inRange).pedigree
        case depth => exact fun f inRange => (entering.older inRange).depth
        case rank =>
          intro f inRange
          rw [(entering.older inRange).rank]
          exact Nat.le_add_right ..
      · intro f touched
        rw [touched.unique touches,
          (entering.older (tree.numbered p alive)).rank, if_pos rfl]
        exact Nat.lt_succ_self _
  | bumps p alive touches bumping =>
      have frame (f : ℕ) : t.frames f =
          if f = p then (s.frames p).bumped dprng else s.frames f := by
        rw [bumping.frames, Function.update_apply]
      constructor
      · constructor
        case entered => exact bumping.entered.ge
        all_goals
          intro f _
          rw [frame]
          split
          case isTrue isBumped => simp [isBumped, StackFrame.bumped]
          case isFalse => simp
      · intro f touched
        rw [touched.unique touches, frame, if_pos rfl]
        exact Nat.lt_succ_self _
  | pops p alive notTouched popping =>
      refine ⟨?_, fun f touched => absurd touched (notTouched f)⟩
      have frame (f : ℕ) : t.frames f = if f = p then
          { s.frames p with callParent := none } else s.frames f := by
        rw [popping.frames, Function.update_apply]
      constructor
      case entered => exact popping.entered.ge
      all_goals
        intro f _
        rw [frame]
        split
        case isTrue isPopped => simp [isPopped]
        case isFalse => simp
  | keeps notTouched keeping =>
      refine ⟨?_, fun f touched => absurd touched (notTouched f)⟩
      obtain ⟨entered, -, frames⟩ := keeping
      constructor <;> simp [entered, frames]

end Later

section Runs

variable {start : State} {trace : List (State × Action)}

theorem Tree.of_run (tree : Tree start)
    (run : Run (Step dprng) start trace s) : Tree s :=
  run.invariant tree fun _ _ _ tree taken => tree.step taken

theorem Later.of_run (tree : Tree start)
    (run : Run (Step dprng) start trace s) : Later start s := by
  induction run with
  | refl => exact .refl start
  | snoc earlier last induction =>
      exact induction.trans (last.later (tree.of_run earlier)).1

end Runs

end Multicilk.Pedigree
