import Multicilk.Scheduler.Extraction
import Multicilk.Scheduler.Stacklet

/-!
# A successful steal

The oldest stacklet of the victim becomes a chain of closures.  The thief gets
the youngest one on a new fiber, and the others wait on the fiber of the victim
for their callees.
-/

namespace Multicilk.Scheduler

open LinkPath

variable {M : Type*} {s t : State M} {victim cl fiber : ℕ}

/-- How the top closure and the frames of the oldest stacklet belong together.
The frames are listed from the youngest one to the oldest one. -/
inductive StackletTop (s : State M) (cl : ℕ) : List ℕ → Prop where
  /-- The frame has been stolen before. -/
  | resumed {frame : ℕ} :
      (s.closures cl).frame = some frame →
      (s.frames frame).stolen = true →
      StackletTop s cl [frame]
  /-- The oldest frame is a spawn helper.  With one frame the stacklet is
  trivial. -/
  | spawned {older : List ℕ} {oldest : ℕ} :
      (s.closures cl).frame = none →
      (s.frames oldest).detached = true →
      (∀ f ∈ older ++ [oldest], (s.frames f).stolen = false) →
      StackletTop s cl (older ++ [oldest])
  /-- The oldest frame was called by a frame that has been stolen before. -/
  | called {frames : List ℕ} {oldest caller : ℕ} :
      (s.closures cl).frame = some caller →
      (s.frames caller).stolen = true →
      (s.frames oldest).detached = false →
      (s.frames oldest).callParent = some caller →
      (∀ f ∈ frames ++ [oldest], (s.frames f).stolen = false) →
      StackletTop s cl (frames ++ [oldest])

structure OldestStacklet (s : State M) (victim cl : ℕ) (frames : List ℕ) :
    Prop where
  deque : s.deques victim = [cl]
  youngest : frames.head? = some (frameToSteal s victim)
  nodup : frames.Nodup
  linked : frames.IsChain fun f g => (s.frames f).callParent = some g
  undetached : ∀ f ∈ frames.dropLast, (s.frames f).detached = false
  top : StackletTop s cl frames

/-- The closures that have been created are the ones that are in use. -/
structure ClosuresAllocated (s : State M) (cl : ℕ) : Prop where
  allocated : cl < s.created
  siblings : SiblingsAllocated s cl
  unused : ∀ c, s.created ≤ c → s.closures c = {}

/-- The closure in front of the chain, that of an older stolen frame. -/
def frontClosure (s : State M) (victim cl : ℕ) : List ℕ :=
  if (s.closures cl).frame = none ∨
      (s.closures cl).frame = some (frameToSteal s victim) then []
  else [cl]

/-- The links between two closures are those between their frames. -/
def Mirrored (t : State M) (callee caller : ℕ) : Prop :=
  CalleeOf t callee caller ∧
    ∃ frame callerFrame, (t.closures callee).frame = some frame ∧
      (t.closures caller).frame = some callerFrame ∧
      (t.frames frame).callParent = some callerFrame

/-- The closures `chain` have been made of the frames of the stacklet, and
`front` is the closure before them, if there is one. -/
structure ChainBuilt (s t : State M) (victim cl fiber : ℕ)
    (frames : List ℕ) (res child : ℕ) (chain front : List ℕ) : Prop where
  youngest : chain.head? = some res
  oldest : (chain ++ front).getLast? = some cl
  nodup : (chain ++ front).Nodup
  frameOf : List.Forall₂ (fun c f => (t.closures c).frame = some f)
    chain frames
  stolen : ∀ f ∈ frames, (t.frames f).stolen = true
  linked : (chain ++ front).IsChain (Mirrored t)
  suspended : ∀ c ∈ (chain ++ front).tail,
    (t.closures c).status = .suspended ∧
    (t.closures c).hasCilkCallee = true ∧
    (t.closures c).fiber = (s.closures cl).fiber ∧
    ∃ f, (t.closures c).frame = some f ∧ (t.frames f).worker = none
  resStatus : (t.closures res).status = .ready
  resUnsynched : (t.frames (frameToSteal s victim)).unsynched = true
  resFiber : (t.closures res).fiber = some fiber
  resFiberOwn : ∀ c, (t.closures c).fiber = some fiber → c = res
  resOrigRsp : (t.closures res).origRsp =
    (s.closures res).origRsp.or (s.frames (frameToSteal s victim)).sp
  resJoinCounter : (t.closures res).joinCounter =
    (s.closures res).joinCounter + 1
  childNew : s.created ≤ child ∧ child ∉ chain ++ front
  childStatus : (t.closures child).status = .running
  childFrame : (t.closures child).frame = none
  childParent : (t.closures child).spawnParent = some res
  childFiber : (t.closures child).fiber = (s.closures cl).fiber
  bottom : (t.deques victim).getLast? = some child
  head : (t.workers victim).head = (s.workers victim).head + 1

section Itself

variable {frame : ℕ}

/-- The stacklet is the frame to steal alone, and its closure is at the top. -/
theorem closureSteal_itself (stacklet : OldestStacklet s victim cl [frame])
    (spawns : SpawnsItself s victim cl)
    (allocated : ClosuresAllocated s cl)
    (running : (s.closures cl).status = .running)
    (dekker : (s.workers victim).head < (s.workers victim).tail)
    (newFiber : ∀ c, (s.closures c).fiber ≠ some fiber) (fuel : ℕ) :
    ∃ t, closureSteal s fuel victim fiber = some (t, cl) ∧
      ChainBuilt s t victim cl fiber [frame] cl s.created [cl] [] := by
  have isFrame : frameToSteal s victim = frame := by
    simpa using stacklet.youngest.symm
  have different : cl ≠ s.created := allocated.allocated.ne
  have top : dequePeekTop s victim = some cl := by
    simp [dequePeekTop, stacklet.deque]
  obtain ⟨t, isExtracted⟩ : ∃ t, t = extractedItself s victim cl (some fiber) :=
    ⟨_, rfl⟩
  have closuresOf (c : ℕ) : t.closures c = _ :=
    congrFun (congrArg State.closures isExtracted) c
  simp only [extractedItself, isFrame] at closuresOf
  have frameOf : (t.closures cl).frame = some frame := by
    simp [closuresOf, different]
  refine ⟨readyParent t cl, ?_, ?_⟩
  · rw [closureSteal, closureStealTop_itself top running dekker
      allocated.allocated spawns allocated.siblings]
    simp [finishPromote, isExtracted]
  · constructor
    case youngest => rfl
    case oldest => rfl
    case nodup => simp
    case frameOf => simp [readyParent_closures, frameOf]
    case stolen =>
      have stolen : (t.frames frame).stolen = true := by
        simp [isExtracted, extractedItself, extracted, setStolen, isFrame]
      simp [readyParent_frames t cl frameOf, stolen]
    case linked => simp
    case suspended => simp
    case resStatus => simp [readyParent_closures]
    case resUnsynched => simp [readyParent_frames t cl frameOf, isFrame]
    case resFiber => simp [readyParent_closures, closuresOf, different]
    case resFiberOwn =>
      intro c onFiber
      by_contra notRes
      rw [readyParent_closures, if_neg notRes, closuresOf] at onFiber
      split at onFiber
      · exact newFiber cl onFiber
      · split at onFiber <;> exact newFiber c onFiber
    case resOrigRsp =>
      simp [readyParent_closures, closuresOf, different, isFrame]
    case resJoinCounter => simp [readyParent_closures, closuresOf, different]
    case childNew => simpa using different.symm
    case childStatus =>
      simp [readyParent_closures, closuresOf, different.symm]
    case childFrame => simp [readyParent_closures, closuresOf, different.symm]
    case childParent => simp [readyParent_closures, closuresOf, different.symm]
    case childFiber => simp [readyParent_closures, closuresOf, different.symm]
    case bottom =>
      rw [readyParent_rest]
      simp [isExtracted, extractedItself, stacklet.deque]
    case head =>
      rw [readyParent_rest]
      simp [isExtracted, extractedItself, extracted]

end Itself

section Callee

variable {youngest base : ℕ} {path : List ℕ} {fuel : ℕ}

/-- The frames from the frame to steal on, down to the one whose closure is at
the top in the end. -/
structure CalleeStacklet (s : State M) (victim cl youngest : ℕ)
    (path : List ℕ) (base : ℕ) : Prop where
  deque : s.deques victim = [cl]
  isYoungest : frameToSteal s victim = youngest
  links : FramePath s youngest (youngest :: path) base
  nodup : (youngest :: (path ++ [base])).Nodup
  undetached : ∀ f ∈ youngest :: path, (s.frames f).detached = false
  notStolen : ∀ f ∈ youngest :: path, (s.frames f).stolen = false
  owner : (s.closures cl).frame = none ∧
      (s.frames base).detached = true ∧ (s.frames base).stolen = false ∨
    (s.closures cl).frame = some base ∧ (s.frames base).stolen = true

theorem CalleeStacklet.base_notMem
    (stacklet : CalleeStacklet s victim cl youngest path base) :
    base ∉ youngest :: path := by
  have nodup := stacklet.nodup
  rw [← List.cons_append] at nodup
  exact fun member =>
    (List.nodup_append.mp nodup).2.2 base member base (by simp) rfl

theorem CalleeStacklet.spawns
    (stacklet : CalleeStacklet s victim cl youngest path base) :
    SpawnsInCallee s victim cl := by
  rw [SpawnsInCallee, stacklet.isYoungest]
  refine ⟨fun found => ?_, stacklet.undetached _ List.mem_cons_self⟩
  rcases stacklet.owner with ⟨noFrame, -, -⟩ | ⟨isBase, -⟩
  · rw [noFrame] at found
    cases found
  · rw [isBase, Option.some.injEq] at found
    exact stacklet.base_notMem (found ▸ List.mem_cons_self)

/-- The steal has set up the first closure; the other ones follow. -/
theorem CalleeStacklet.setup
    (stacklet : CalleeStacklet s victim cl youngest path base)
    (allocated : ClosuresAllocated s cl) (enough : path.length + 1 < fuel)
    (isExtracted : t = extractedCallee s victim cl (some fiber)) :
    ∃ u oldest closures,
      setupClosuresInStacklet t fuel s.created = some u ∧
      baseFrame t cl oldest = base ∧
      StackletPromoted t u cl s.created oldest path closures := by
  have different : cl ≠ s.created := allocated.allocated.ne
  have notChild : cl ≠ s.created + 1 := by
    have old := allocated.allocated
    omega
  have caller : (t.closures s.created).callParent = some cl := by
    simp [isExtracted, extractedCallee]
  have frame : (t.closures s.created).frame = some youngest := by
    simp [isExtracted, extractedCallee, stacklet.isYoungest]
  have sameFrame : (t.closures cl).frame = (s.closures cl).frame := by
    simp [isExtracted, extractedCallee, different, notChild]
  have framesOf (f : ℕ) : t.frames f =
      if f = youngest then { s.frames f with stolen := true }
      else s.frames f := by
    simp only [isExtracted, extractedCallee, extracted, setStolen,
      stacklet.isYoungest, State.modifyFrame, Function.update_apply]
    grind
  have links : FramePath t youngest (youngest :: path) base := by
    refine stacklet.links.congr fun f _ => ?_
    rw [framesOf]
    split <;> rfl
  obtain ⟨-, next, link, later⟩ := path_cons.mp links
  have baseNotYoungest : base ≠ youngest := fun same =>
    stacklet.base_notMem (same ▸ List.mem_cons_self)
  have notMemPath : youngest ∉ path := fun member =>
    (List.nodup_cons.mp stacklet.nodup).1 (List.mem_append_left _ member)
  have loop := @oldestNonStolenFrameInStacklet_of_path M t youngest base path
    fuel links
    (fun f member => by
      rw [framesOf]
      split <;> exact stacklet.undetached f member)
    (fun f member => by
      rw [framesOf, if_neg (by rintro rfl; exact notMemPath member)]
      exact stacklet.notStolen f (List.mem_cons_of_mem _ member))
    enough
  have sameBase : t.frames base = s.frames base := by
    rw [framesOf, if_neg baseNotYoungest]
  rw [sameBase] at loop
  obtain ⟨oldest, found, isBase⟩ : ∃ oldest,
      oldestNonStolenFrameInStacklet t fuel youngest = some oldest ∧
      baseFrame t cl oldest = base := by
    rcases stacklet.owner with ⟨noFrame, detached, fresh⟩ | ⟨has, stolen⟩
    · refine ⟨base, loop.2 fresh detached, ?_⟩
      rw [baseFrame, sameFrame, noFrame, Option.getD_none]
    · obtain ⟨oldest, found⟩ := Option.isSome_iff_exists.mp (loop.1 stolen)
      refine ⟨oldest, found, ?_⟩
      rw [baseFrame, sameFrame, has, Option.getD_some]
  have created : t.created = s.created + 2 := by
    rw [isExtracted]
    rfl
  obtain ⟨u, made⟩ := Option.isSome_iff_exists.mp
    (setupClosuresInStacklet_isSome caller frame found link
      (isBase.symm ▸ later) (by omega))
  have old := allocated.allocated
  obtain ⟨_, _, _, otherPath, closures, sameYoungest, alsoFound, alsoLink,
    otherLinks, absent, promoted⟩ :=
    setupClosuresInStacklet_path made caller (by omega) (by omega)
      different.symm
  rw [frame, Option.some.injEq] at sameYoungest
  subst sameYoungest
  rw [found, Option.some.injEq] at alsoFound
  subst alsoFound
  rw [link, Option.some.injEq] at alsoLink
  subst alsoLink
  rw [isBase] at otherLinks absent
  have baseAbsent : base ∉ path := fun member =>
    stacklet.base_notMem (List.mem_cons_of_mem _ member)
  obtain rfl := otherLinks.unique later absent baseAbsent
  exact ⟨u, oldest, closures, made, isBase, promoted⟩

section Promoted

variable {u : State M} {oldest : ℕ} {chain : List ℕ}

theorem extractedCallee_closures (s : State M) (victim cl fiber c : ℕ) :
    (extractedCallee s victim cl (some fiber)).closures c =
      if c = s.created + 1 then {
        status := .running, spawnParent := some s.created
        fiber := (s.closures cl).fiber }
      else if c = s.created then {
        status := .running
        frame := some (frameToSteal s victim), fiber := some fiber
        origRsp := (s.frames (frameToSteal s victim)).sp
        callParent := some cl
        rightMostChild := some (s.created + 1)
        joinCounter := 1 }
      else if c = cl then { s.closures cl with
        status := .suspended, hasCilkCallee := true }
      else s.closures c := rfl

theorem extractedCallee_frames (s : State M) (victim cl fiber f : ℕ) :
    (extractedCallee s victim cl (some fiber)).frames f =
      if f = frameToSteal s victim then { s.frames f with stolen := true }
      else s.frames f := by
  simp only [extractedCallee, extracted, setStolen, State.modifyFrame,
    Function.update_apply]
  grind

/-- What the thief has made of the stacklet before the stolen closure becomes
ready. -/
structure CalleePromoted (s u : State M) (victim cl fiber youngest : ℕ)
    (path : List ℕ) (base : ℕ) (chain : List ℕ) : Prop where
  fresh : ∀ c ∈ chain, s.created + 2 ≤ c
  nodup : chain.Nodup
  frameOf : List.Forall₂ (fun c f => (u.closures c).frame = some f)
    (s.created :: (chain ++ [cl])) (youngest :: (path ++ [base]))
  linked : (s.created :: (chain ++ [cl])).IsChain (CalleeOf u)
  suspended : ∀ c ∈ chain ++ [cl], (u.closures c).status = .suspended ∧
    (u.closures c).hasCilkCallee = true ∧
    (u.closures c).fiber = (s.closures cl).fiber
  stolen : ∃ callParent, u.closures s.created = {
    status := .running, frame := some youngest, fiber := some fiber
    origRsp := (s.frames youngest).sp
    callParent := some callParent
    rightMostChild := some (s.created + 1)
    joinCounter := 1 }
  child : u.closures (s.created + 1) = {
    status := .running, spawnParent := some s.created
    fiber := (s.closures cl).fiber }
  kept : ∀ c, c ∉ s.created :: (chain ++ [cl]) → c ≠ s.created + 1 →
    u.closures c = s.closures c
  frames : ∀ f, u.frames f =
    if f ∈ path ++ [base] then (s.frames f).promoted
    else if f = youngest then { s.frames f with stolen := true }
    else s.frames f
  rest : SameElsewhere (extractedCallee s victim cl (some fiber)) u

theorem CalleeStacklet.promoted
    (stacklet : CalleeStacklet s victim cl youngest path base)
    (allocated : cl < s.created)
    (isExtracted : t = extractedCallee s victim cl (some fiber))
    (isBase : baseFrame t cl oldest = base)
    (promoted : StackletPromoted t u cl s.created oldest path chain) :
    CalleePromoted s u victim cl fiber youngest path base chain := by
  have closuresOf := extractedCallee_closures s victim cl fiber
  have framesOf := extractedCallee_frames s victim cl fiber
  rw [← isExtracted, stacklet.isYoungest] at closuresOf framesOf
  have created : t.created = s.created + 2 := by
    rw [isExtracted]
    rfl
  have fresh : ∀ c ∈ chain, s.created + 2 ≤ c := fun c member =>
    created ▸ (promoted.fresh c member).1
  have clKept : t.closures cl = { s.closures cl with
      status := .suspended, hasCilkCallee := true } := by
    rw [closuresOf, if_neg (by omega), if_neg allocated.ne, if_pos rfl]
  obtain ⟨_, older⟩ := promoted.older
  obtain ⟨callParent, younger⟩ := promoted.younger
  have stolenClosure : u.closures s.created = {
      status := .running, frame := some youngest, fiber := some fiber
      origRsp := (s.frames youngest).sp
      callParent := some callParent
      rightMostChild := some (s.created + 1)
      joinCounter := 1 } := by
    rw [younger, closuresOf, if_neg (by omega), if_pos rfl]
  constructor
  case fresh => exact fresh
  case nodup => exact promoted.nodup
  case frameOf =>
    refine .cons (by rw [stolenClosure])
      (List.rel_append promoted.frameOf (.cons ?_ .nil))
    rw [older, isBase]
  case linked => exact promoted.linked
  case suspended =>
    intro c member
    rcases List.mem_append.mp member with new | isCl
    · obtain ⟨_, _, _, made⟩ := promoted.made c new
      rw [made, clKept]
      exact ⟨rfl, rfl, rfl⟩
    · rw [List.mem_singleton.mp isCl, older, clKept]
      exact ⟨rfl, rfl, rfl⟩
  case stolen => exact ⟨callParent, stolenClosure⟩
  case child =>
    rw [promoted.kept (s.created + 1), closuresOf, if_pos rfl]
    · exact fun member => absurd (fresh _ member) (by omega)
    · omega
    · omega
  case kept =>
    intro c absent notChild
    simp only [List.mem_cons, List.mem_append, List.not_mem_nil, or_false,
      not_or] at absent
    rw [promoted.kept c absent.2.1 absent.2.2 absent.1, closuresOf,
      if_neg notChild, if_neg absent.1, if_neg absent.2.2]
  case frames =>
    intro f
    have baseNotYoungest : base ≠ youngest := fun same =>
      stacklet.base_notMem (same ▸ List.mem_cons_self)
    have notMemPath : youngest ∉ path := fun member =>
      (List.nodup_cons.mp stacklet.nodup).1 (List.mem_append_left _ member)
    have ownerStolen : ∀ frame, (t.closures cl).frame = some frame →
        (t.frames frame).stolen = true := by
      intro frame found
      rw [clKept] at found
      rcases stacklet.owner with ⟨noFrame, -⟩ | ⟨has, stolen⟩
      · rw [noFrame] at found
        cases found
      · rw [has, Option.some.injEq] at found
        subst found
        rw [framesOf, if_neg baseNotYoungest]
        exact stolen
    rw [promoted.frames, promoteOldest_frames ownerStolen, isBase]
    by_cases isYoungest : f = youngest
    · subst isYoungest
      simp [notMemPath, baseNotYoungest.symm, framesOf]
    · by_cases inPath : f ∈ path <;> by_cases same : f = base <;>
        simp [inPath, same, isYoungest, framesOf, StackFrame.promoted,
          baseNotYoungest]
  case rest => exact isExtracted ▸ promoted.rest

/-- Links between closures are mirrored where the frames are on a path. -/
theorem mirrored_of_calleeOf {v : State M} {closures frames : List ℕ}
    (linked : closures.IsChain (CalleeOf v))
    (frameOf : List.Forall₂ (fun c f => (v.closures c).frame = some f)
      closures frames)
    (links : frames.IsChain fun f g => (v.frames f).callParent = some g) :
    closures.IsChain (Mirrored v) := by
  induction frameOf with
  | nil => exact .nil
  | @cons c f closures frames found rest induction =>
      cases rest with
      | nil => exact List.isChain_singleton c
      | cons second rest =>
          rw [List.isChain_cons_cons] at linked links ⊢
          exact ⟨⟨linked.1, f, _, found, second, links.1⟩,
            induction linked.2 links.2⟩

theorem CalleePromoted.chainBuilt
    (promoted : CalleePromoted s u victim cl fiber youngest path base chain)
    (stacklet : CalleeStacklet s victim cl youngest path base)
    (allocated : ClosuresAllocated s cl)
    (newFiber : ∀ c, (s.closures c).fiber ≠ some fiber) :
    ChainBuilt s (readyParent u s.created) victim cl fiber
      (youngest :: (path ++ [base])) s.created (s.created + 1)
      (s.created :: (chain ++ [cl])) [] := by
  have old := allocated.allocated
  obtain ⟨_, stolenClosure⟩ := promoted.stolen
  have frame : (u.closures s.created).frame = some youngest := by
    rw [stolenClosure]
  have framesOf := readyParent_frames u s.created frame
  have notStolenOne : ∀ c ∈ chain ++ [cl], c ≠ s.created := by
    rintro c member rfl
    rcases List.mem_append.mp member with new | isCl
    · exact absurd (promoted.fresh _ new) (by omega)
    · exact old.ne (List.mem_singleton.mp isCl).symm
  have notChild : ∀ c ∈ chain ++ [cl], c ≠ s.created + 1 := by
    rintro c member rfl
    rcases List.mem_append.mp member with new | isCl
    · exact absurd (promoted.fresh _ new) (by omega)
    · have isCl := List.mem_singleton.mp isCl
      omega
  have callParentOf (f : ℕ) : ((readyParent u s.created).frames f).callParent =
      (s.frames f).callParent := by
    rw [framesOf, promoted.frames]
    grind [StackFrame.promoted]
  have frameOf : List.Forall₂
      (fun c f => ((readyParent u s.created).closures c).frame = some f)
      (s.created :: (chain ++ [cl])) (youngest :: (path ++ [base])) := by
    refine forall₂_imp_of_mem promoted.frameOf fun c _ f found => ?_
    rw [readyParent_same]
    exact found
  constructor
  case youngest => rfl
  case oldest =>
    rw [List.append_nil, ← List.cons_append]
    exact List.getLast?_concat
  case nodup =>
    rw [List.append_nil]
    refine List.nodup_cons.mpr ⟨fun member => ?_, ?_⟩
    · exact notStolenOne _ member rfl
    · refine promoted.nodup.append (List.nodup_singleton cl) ?_
      rw [List.disjoint_singleton]
      exact fun member => absurd (promoted.fresh _ member) (by omega)
  case frameOf => exact frameOf
  case stolen =>
    intro f member
    rw [framesOf, promoted.frames]
    rw [List.mem_cons] at member
    grind [StackFrame.promoted]
  case linked =>
    rw [List.append_nil]
    refine mirrored_of_calleeOf ?_ frameOf ?_
    · refine promoted.linked.imp fun c caller linked => ?_
      rw [CalleeOf, readyParent_same, readyParent_same u s.created caller]
      exact linked
    · rw [← List.cons_append]
      refine stacklet.links.isChain.imp fun f g link => ?_
      rw [callParentOf]
      exact link
  case suspended =>
    intro c member
    rw [List.append_nil, List.tail_cons] at member
    obtain ⟨status, has, onFiber⟩ := promoted.suspended c member
    have same : (readyParent u s.created).closures c = u.closures c := by
      rw [readyParent_closures, if_neg (notStolenOne c member)]
    rw [same]
    refine ⟨status, has, onFiber, ?_⟩
    cases promoted.frameOf with
    | cons _ later =>
        obtain ⟨f, inPath, found⟩ := exists_mem_of_forall₂ later c member
        refine ⟨f, found, ?_⟩
        rw [framesOf, promoted.frames, if_pos inPath]
        split <;> rfl
  case resStatus => simp [readyParent_closures]
  case resUnsynched => simp [framesOf, stacklet.isYoungest]
  case resFiber => simp [readyParent_closures, stolenClosure]
  case resFiberOwn =>
    intro c onFiber
    by_contra notStolen
    rw [readyParent_closures, if_neg notStolen] at onFiber
    by_cases member : c ∈ chain ++ [cl]
    · rw [(promoted.suspended c member).2.2] at onFiber
      exact newFiber cl onFiber
    · by_cases isChild : c = s.created + 1
      · rw [isChild, promoted.child] at onFiber
        exact newFiber cl onFiber
      · rw [promoted.kept c (by simp_all) isChild] at onFiber
        exact newFiber c onFiber
  case resOrigRsp =>
    simp [readyParent_closures, stolenClosure, stacklet.isYoungest,
      allocated.unused s.created le_rfl]
  case resJoinCounter =>
    simp [readyParent_closures, stolenClosure,
      allocated.unused s.created le_rfl]
  case childNew =>
    refine ⟨by omega, fun member => ?_⟩
    rw [List.append_nil, List.mem_cons] at member
    rcases member with same | member
    · omega
    · exact notChild _ member rfl
  case childStatus => simp [readyParent_closures, promoted.child]
  case childFrame => simp [readyParent_closures, promoted.child]
  case childParent => simp [readyParent_closures, promoted.child]
  case childFiber => simp [readyParent_closures, promoted.child]
  case bottom =>
    rw [readyParent_rest]
    simp [promoted.rest.deques, extractedCallee]
  case head =>
    rw [readyParent_rest]
    simp [promoted.rest.workers, extractedCallee, extracted]

end Promoted

theorem CalleeStacklet.closureSteal
    (stacklet : CalleeStacklet s victim cl youngest path base)
    (allocated : ClosuresAllocated s cl)
    (running : (s.closures cl).status = .running)
    (dekker : (s.workers victim).head < (s.workers victim).tail)
    (newFiber : ∀ c, (s.closures c).fiber ≠ some fiber)
    (enough : path.length + 1 < fuel) :
    ∃ t chain, closureSteal s fuel victim fiber = some (t, s.created) ∧
      ChainBuilt s t victim cl fiber (youngest :: (path ++ [base])) s.created
        (s.created + 1) (s.created :: (chain ++ [cl])) [] := by
  have top : dequePeekTop s victim = some cl := by
    simp [dequePeekTop, stacklet.deque]
  obtain ⟨u, oldest, chain, made, isBase, promoted⟩ :=
    stacklet.setup allocated enough rfl
  have finished :=
    stacklet.promoted allocated.allocated rfl isBase promoted
  refine ⟨readyParent u s.created, chain, ?_,
    finished.chainBuilt stacklet allocated newFiber⟩
  rw [Scheduler.closureSteal, closureStealTop_callee top running dekker
    allocated.allocated stacklet.spawns]
  simp [finishPromote, allocated.allocated.ne, made]

end Callee

section Main

variable {frames chain : List ℕ} {res child fuel : ℕ}

/-- The closure of an older frame stands before the chain. -/
theorem ChainBuilt.front {youngest base : ℕ} {path : List ℕ}
    (built : ChainBuilt s t victim cl fiber (youngest :: (path ++ [base])) res
      child (res :: (chain ++ [cl])) []) :
    ChainBuilt s t victim cl fiber (youngest :: path) res child (res :: chain)
      [cl] := by
  have same : (res :: chain) ++ [cl] = (res :: (chain ++ [cl])) ++ [] := by
    simp
  constructor
  case youngest => rfl
  case oldest => exact same ▸ built.oldest
  case nodup => exact same ▸ built.nodup
  case frameOf =>
    have frameOf := built.frameOf
    rw [← List.cons_append, ← List.cons_append] at frameOf
    have lengths : (res :: chain).length = (youngest :: path).length := by
      have length := built.frameOf.length_eq
      simpa using length
    have taken := List.forall₂_take (res :: chain).length frameOf
    rw [List.take_left] at taken
    rwa [lengths, List.take_left] at taken
  case stolen =>
    intro f member
    apply built.stolen f
    rw [← List.cons_append]
    exact List.mem_append_left _ member
  case linked => exact same ▸ built.linked
  case suspended => exact same ▸ built.suspended
  case childNew => exact same ▸ built.childNew
  case resStatus => exact built.resStatus
  case resUnsynched => exact built.resUnsynched
  case resFiber => exact built.resFiber
  case resFiberOwn => exact built.resFiberOwn
  case resOrigRsp => exact built.resOrigRsp
  case resJoinCounter => exact built.resJoinCounter
  case childStatus => exact built.childStatus
  case childFrame => exact built.childFrame
  case childParent => exact built.childParent
  case childFiber => exact built.childFiber
  case bottom => exact built.bottom
  case head => exact built.head

/-- The stacklet of a child that has not been stolen yet. -/
theorem OldestStacklet.calleeStacklet_spawned {youngest oldest : ℕ}
    {path : List ℕ}
    (stacklet : OldestStacklet s victim cl (youngest :: (path ++ [oldest])))
    (noFrame : (s.closures cl).frame = none)
    (detached : (s.frames oldest).detached = true)
    (notStolen : ∀ f ∈ youngest :: (path ++ [oldest]),
      (s.frames f).stolen = false) :
    CalleeStacklet s victim cl youngest path oldest := by
  have member (f : ℕ) (inPath : f ∈ youngest :: path) :
      f ∈ youngest :: (path ++ [oldest]) := by
    rw [← List.cons_append]
    exact List.mem_append_left _ inPath
  constructor
  case deque => exact stacklet.deque
  case isYoungest => simpa using stacklet.youngest.symm
  case links =>
    have linked := stacklet.linked
    rw [← List.cons_append] at linked
    exact path_of_isChain linked rfl
  case nodup => exact stacklet.nodup
  case undetached =>
    have undetached := stacklet.undetached
    rwa [← List.cons_append, List.dropLast_concat] at undetached
  case notStolen => exact fun f inPath => notStolen f (member f inPath)
  case owner => exact .inl ⟨noFrame, detached, notStolen oldest (by simp)⟩

/-- The stacklet below a frame that has been stolen before. -/
theorem OldestStacklet.calleeStacklet_called {youngest oldest caller : ℕ}
    {path older : List ℕ}
    (stacklet : OldestStacklet s victim cl (youngest :: path))
    (shape : youngest :: path = older ++ [oldest])
    (found : (s.closures cl).frame = some caller)
    (callerStolen : (s.frames caller).stolen = true)
    (attached : (s.frames oldest).detached = false)
    (link : (s.frames oldest).callParent = some caller)
    (notStolen : ∀ f ∈ youngest :: path, (s.frames f).stolen = false) :
    CalleeStacklet s victim cl youngest path caller := by
  have notCaller : caller ∉ youngest :: path := fun member => by
    rw [notStolen caller member] at callerStolen
    cases callerStolen
  constructor
  case deque => exact stacklet.deque
  case isYoungest => simpa using stacklet.youngest.symm
  case links =>
    apply path_of_isChain
    · rw [List.isChain_append]
      refine ⟨stacklet.linked, List.isChain_singleton _, ?_⟩
      intro last isLast first isFirst
      rw [shape, List.getLast?_concat, Option.mem_some_iff] at isLast
      rw [List.head?_cons, Option.mem_some_iff] at isFirst
      rw [← isLast, ← isFirst]
      exact link
    · rfl
  case nodup =>
    rw [← List.cons_append]
    refine stacklet.nodup.append (List.nodup_singleton caller) ?_
    rw [List.disjoint_singleton]
    exact notCaller
  case undetached =>
    intro f member
    rw [shape, List.mem_append, List.mem_singleton] at member
    rcases member with inOlder | rfl
    · apply stacklet.undetached
      rwa [shape, List.dropLast_concat]
    · exact attached
  case notStolen => exact notStolen
  case owner => exact .inr ⟨found, callerStolen⟩

/-- A steal that gets past the Dekker protocol turns the stacklet into a chain
of closures. -/
theorem closureSteal_chainBuilt
    (stacklet : OldestStacklet s victim cl frames)
    (allocated : ClosuresAllocated s cl)
    (running : (s.closures cl).status = .running)
    (dekker : (s.workers victim).head < (s.workers victim).tail)
    (newFiber : ∀ c, (s.closures c).fiber ≠ some fiber)
    (enough : frames.length < fuel) :
    ∃ t res child chain, closureSteal s fuel victim fiber = some (t, res) ∧
      ChainBuilt s t victim cl fiber frames res child chain
        (frontClosure s victim cl) := by
  have youngest := stacklet.youngest
  cases stacklet.top with
  | @resumed frame found stolen =>
      have isFrame : frameToSteal s victim = frame := by
        simpa using youngest.symm
      obtain ⟨t, stole, built⟩ := closureSteal_itself stacklet
        (.inl (isFrame ▸ ⟨found, stolen⟩)) allocated running dekker newFiber
          fuel
      refine ⟨t, cl, s.created, [cl], stole, ?_⟩
      rwa [frontClosure, if_pos (.inr (isFrame ▸ found))]
  | @spawned older oldest noFrame detached notStolen =>
      rw [frontClosure, if_pos (.inl noFrame)]
      cases older with
      | nil =>
          have isFrame : frameToSteal s victim = oldest := by
            simpa using youngest.symm
          obtain ⟨t, stole, built⟩ := closureSteal_itself stacklet
            (.inr (isFrame ▸ ⟨noFrame, detached⟩)) allocated running dekker
              newFiber fuel
          exact ⟨t, cl, s.created, [cl], stole, built⟩
      | cons first path =>
          simp only [List.cons_append, List.length_cons, List.length_append,
            List.length_nil] at enough
          have enoughRest : path.length + 1 < fuel := by omega
          obtain ⟨t, chain, stole, built⟩ :=
            (stacklet.calleeStacklet_spawned noFrame detached
              notStolen).closureSteal allocated running dekker newFiber
                enoughRest
          exact ⟨t, _, _, _, stole, built⟩
  | @called older oldest caller found callerStolen attached link notStolen =>
      obtain ⟨first, path, shape⟩ : ∃ first path,
          older ++ [oldest] = first :: path := by
        cases older with
        | nil => exact ⟨oldest, [], rfl⟩
        | cons first older => exact ⟨first, _, rfl⟩
      rw [shape] at stacklet youngest notStolen enough ⊢
      have notYoungest : (s.closures cl).frame ≠
          some (frameToSteal s victim) := by
        rw [found, ← youngest]
        rintro same
        cases same
        rw [notStolen caller List.mem_cons_self] at callerStolen
        cases callerStolen
      rw [List.length_cons] at enough
      obtain ⟨t, chain, stole, built⟩ :=
        (stacklet.calleeStacklet_called shape.symm found callerStolen attached
          link notStolen).closureSteal allocated running dekker newFiber
            (by omega)
      refine ⟨t, s.created, s.created + 1, s.created :: chain, stole, ?_⟩
      rw [frontClosure, if_neg (not_or.mpr ⟨by simp [found], notYoungest⟩)]
      exact built.front

/-- A resumed frame has called a frame that has called a spawning one. -/
def calledTwice : State Unit where
  closures := fun c =>
    if c = 0 then { status := .running, frame := some 0, fiber := some 0 }
    else {}
  created := 1
  frames := fun f =>
    if f = 0 then { stolen := true, worker := some 0 }
    else if f = 1 then { callParent := some 0, worker := some 0 }
    else if f = 2 then
      { callParent := some 1, worker := some 0, sp := some 0 }
    else { detached := true, callParent := some 2, worker := some 0 }
  entered := 4
  workers := fun _ => {
    shadowStack := fun _ => 2
    tail := 2
    currentStackFrame := some 3 }
  deques := fun w => if w = 0 then [0] else []
  rootClosure := 0
  pool := [1]
  mapped := 2
  unmapped := []
  taken := []
  returned := []
  destroyed := []

theorem closureSteal_chainBuilt_calledTwice :
    ∃ t res child chain, closureSteal calledTwice 3 0 1 = some (t, res) ∧
      ChainBuilt calledTwice t 0 0 1 [2, 1] res child chain
        (frontClosure calledTwice 0 0) := by
  refine closureSteal_chainBuilt ?_ ?_ rfl (by decide) ?_ (by decide)
  · constructor
    case deque => rfl
    case youngest => rfl
    case nodup => decide
    case linked => decide
    case undetached => decide
    case top =>
      have notStolen : ∀ f ∈ [2] ++ [1],
          (calledTwice.frames f).stolen = false := by decide
      exact .called rfl rfl rfl rfl notStolen
  · constructor
    case allocated => decide
    case siblings => exact fun sibling found => by cases found
    case unused => exact fun c new => if_neg (Nat.one_le_iff_ne_zero.mp new)
  · intro c
    by_cases isTop : c = 0 <;> simp [calledTwice, isTop]

end Main

end Multicilk.Scheduler
