import Multicilk.Pedigree.Dprng
import Multicilk.Support.Run

/-!
# Pedigrees of frames

A frame records its rank among the strands of its caller, and counts the strands
that come after one another in itself.  Both ways to enter a frame and the bump
of the rank keep the dot product of the pedigree along with it.  Frames are
numbered in the order in which they are entered.  A rank is an `int64_t`, whose
overflow is undefined, and so it is a natural number here.
-/

namespace Multicilk.Pedigree

open TransitionSystem

/-- `__cilkrts_pedigree`.  The parent is the frame with the node that is pointed
to. -/
structure PedigreeNode where
  rank : ℕ
  parent : Option ℕ

/-- The fields of a `__cilkrts_stack_frame` that matter for pedigrees. -/
structure StackFrame where
  /-- `CILK_FRAME_LAST`. -/
  last : Bool
  callParent : Option ℕ
  pedigree : PedigreeNode
  rank : ℕ
  dprngDotproduct : BitVec 64
  dprngDepth : ℕ

structure State where
  frames : ℕ → StackFrame
  entered : ℕ
  /-- The frames that have been entered and not been popped. -/
  live : ℕ → Bool
  /-- `current_stack_frame` of each worker. -/
  currentStackFrame : ℕ → Option ℕ

namespace State

def modifyFrame (s : State) (f : ℕ) (change : StackFrame → StackFrame) :
    State :=
  { s with frames := Function.update s.frames f (change (s.frames f)) }

def setCurrent (s : State) (w : ℕ) (frame : Option ℕ) : State :=
  { s with currentStackFrame := Function.update s.currentStackFrame w frame }

end State

section Operations

variable (dprng : Dprng)

/-- A strand of the frame ends. -/
def bumpRank (s : State) (f : ℕ) : State :=
  s.modifyFrame f fun frame => { frame with
    rank := frame.rank + 1
    dprngDotproduct := dprngSumModP frame.dprngDotproduct
      (dprng.mArray frame.dprngDepth) }

/-- The pedigree maintenance that both ways to enter a frame contain. -/
def maintainPedigree (s : State) (sf : ℕ) : State :=
  let s := match (s.frames sf).callParent, (s.frames sf).last with
    | some callParent, false =>
      let parent := s.frames callParent
      let s := s.modifyFrame sf ({ · with
        pedigree := { rank := parent.rank, parent := some callParent }
        dprngDepth := parent.dprngDepth + 1 })
      let s := bumpRank dprng s callParent
      s.modifyFrame sf ({ · with
        dprngDotproduct := (s.frames callParent).dprngDotproduct })
    | _, _ => s.modifyFrame sf ({ · with
        pedigree := { rank := 0, parent := none }
        dprngDepth := 0
        dprngDotproduct := dprng.mX })
  s.modifyFrame sf ({ · with rank := 0 })

/-- What both ways to enter a frame do after the first lines. -/
def linkFrame (s : State) (w sf : ℕ) : State :=
  let s := s.modifyFrame sf ({ · with callParent := s.currentStackFrame w })
  maintainPedigree dprng (s.setCurrent w (some sf)) sf

/-- The storage of the next frame is used, and its flags are cleared. -/
def nextFrame (s : State) : State :=
  { s with
    entered := s.entered + 1
    live := Function.update s.live s.entered true }.modifyFrame s.entered
      ({ · with last := false })

/-- `cilkify`: `invoke_cilkified_root` marks the frame, and a worker resumes it
when it has been set up for execution. -/
def cilkify (s : State) (w sf : ℕ) : State :=
  (s.modifyFrame sf ({ · with last := true })).setCurrent w (some sf)

/-- `__cilkrts_enter_frame`, by a worker or by a thread that is none and leaves
the frame to the worker `resumes`. -/
def enterFrame (s : State) (tlsWorker : Option ℕ) (resumes : ℕ) : State :=
  let sf := s.entered
  match tlsWorker with
  | some w => linkFrame dprng (nextFrame s) w sf
  | none => linkFrame dprng (cilkify (nextFrame s) resumes sf) resumes sf

/-- `__cilkrts_enter_frame_fast`. -/
def enterFrameFast (s : State) (w : ℕ) : State :=
  linkFrame dprng (nextFrame s) w s.entered

def popFrame (s : State) (w sf : ℕ) : State :=
  let s := s.setCurrent w (s.frames sf).callParent
  { s.modifyFrame sf ({ · with callParent := none }) with
    live := Function.update s.live sf false }

/-- The worker is one that has a current frame. -/
def bumpWorkerRank (s : State) (w : ℕ) : State :=
  match s.currentStackFrame w with
  | some f => bumpRank dprng s f
  | none => s

def getDprand (s : State) (w : ℕ) : State × Option (BitVec 64) :=
  let s := bumpWorkerRank dprng s w
  (s, (s.currentStackFrame w).map fun f =>
    dprngMixModP (s.frames f).dprngDotproduct)

def getPedigree (s : State) (w : ℕ) : Option PedigreeNode :=
  (s.currentStackFrame w).map fun f =>
    { rank := (s.frames f).rank, parent := some f }

end Operations

inductive Action where
  | enterFrame (w : ℕ)
  | enterFrameFast (w : ℕ)
  | popFrame (w : ℕ)
  | bumpWorkerRank (w : ℕ)
  | getDprand (w : ℕ)
  | getPedigree (w : ℕ)
  | schedule (w : ℕ) (frame : Option ℕ)

/-- The worker executes this frame. -/
def State.Executes (s : State) (w f : ℕ) : Prop :=
  s.currentStackFrame w = some f ∧ s.live f = true

/-- The strands are assigned to workers in any way.  What a frame has called or
spawned returns before the frame itself. -/
inductive Step (dprng : Dprng) : State → Action → State → Prop where
  | enterFrame {s : State} {w f : ℕ} : s.Executes w f →
      Step dprng s (.enterFrame w) (enterFrame dprng s (some w) w)
  | enterFrameFast {s : State} {w f : ℕ} : s.Executes w f →
      Step dprng s (.enterFrameFast w) (enterFrameFast dprng s w)
  | popFrame {s : State} {w f : ℕ} : s.Executes w f →
      (∀ g, s.live g = true → g ≠ f → (s.frames g).callParent ≠ some f) →
      Step dprng s (.popFrame w) (popFrame s w f)
  | bumpWorkerRank {s : State} {w f : ℕ} : s.Executes w f →
      Step dprng s (.bumpWorkerRank w) (bumpWorkerRank dprng s w)
  | getDprand {s : State} {w f : ℕ} : s.Executes w f →
      Step dprng s (.getDprand w) (getDprand dprng s w).1
  | getPedigree {s : State} {w f : ℕ} : s.Executes w f →
      Step dprng s (.getPedigree w) s
  | schedule {s : State} {w : ℕ} {frame : Option ℕ} :
      (∀ f, frame = some f → s.live f = true) →
      Step dprng s (.schedule w frame) (s.setCurrent w frame)

/-- The root frame has been entered, and some worker has resumed it. -/
def Begins (dprng : Dprng) (s : State) : Prop :=
  ∃ frames currentStackFrame w, s = enterFrame dprng
    { frames, entered := 0, live := fun _ => false, currentStackFrame } none w

end Multicilk.Pedigree
