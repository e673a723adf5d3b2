import Multicilk.Join.Family
import Mathlib.Logic.Function.Basic

/-!
# Closures, frames, fibers and workers

The data of the scheduler of one runtime, with the operations on the closure
tree and on the ready deques.  Closures, frames and fibers are numbered in the
order in which they are made, and a number is used once.
-/

namespace Multicilk.Scheduler


/-- `__cilkrts_stack_frame`, with one field for each flag. -/
structure StackFrame where
  stolen : Bool := false
  detached : Bool := false
  unsynched : Bool := false
  last : Bool := false
  callParent : Option ℕ := none
  /-- No worker stands for the poison `0xbfbfbfbfbf`. -/
  worker : Option ℕ := none
  /-- The fiber into which `SP(sf)` points. -/
  sp : Option ℕ := none
deriving DecidableEq

/-- The default values are those of `Closure_init`. -/
structure Closure (M : Type*) where
  status : ClosureStatus := .preInvalid
  frame : Option ℕ := none
  fiber : Option ℕ := none
  fiberChild : Option ℕ := none
  hasCilkCallee : Bool := false
  simulatedStolen : Bool := false
  joinCounter : ℕ := 0
  /-- The fiber into which `orig_rsp` points. -/
  origRsp : Option ℕ := none
  callee : Option ℕ := none
  callParent : Option ℕ := none
  spawnParent : Option ℕ := none
  leftSib : Option ℕ := none
  rightSib : Option ℕ := none
  rightMostChild : Option ℕ := none
  childRmap : Option M := none
  rightRmap : Option M := none
  userRmap : Option M := none

/-- The fields of `__cilkrts_worker` and of its local state. -/
structure Worker (M : Type*) where
  shadowStack : ℕ → ℕ := fun _ => 0
  head : ℕ := 1
  tail : ℕ := 1
  exc : ℕ := 1
  currentStackFrame : Option ℕ := none
  fiberToFree : Option ℕ := none
  provablyGoodSteal : Bool := false
  reducerMap : Option M := none

/-- The first position of a shadow stack.  The positions count from one, since
`tail` may come to lie one below the first. -/
def shadowStackInit : ℕ := 1

/-- Who has destroyed a closure. -/
inductive Destroyer where
  | closureReturn
  | cilkSetReturn
deriving DecidableEq

structure Destruction (M : Type*) where
  closure : ℕ
  destroyer : Destroyer
  /-- What was in the closure when `Closure_clean` looked at it. -/
  contents : Closure M

@[ext] structure State (M : Type*) where
  closures : ℕ → Closure M
  created : ℕ
  frames : ℕ → StackFrame
  entered : ℕ
  workers : ℕ → Worker M
  /-- The ready deques, from the top to the bottom. -/
  deques : ℕ → List ℕ
  rootClosure : ℕ
  /-- The fibers in all pools. -/
  pool : List ℕ
  /-- The number of fibers that have been mapped. -/
  mapped : ℕ
  /-- The fibers that have been unmapped again. -/
  unmapped : List ℕ
  /-- The history of the pools: what was taken from them, and given to them. -/
  taken : List ℕ
  returned : List ℕ
  destroyed : List (Destruction M)

variable {M : Type*}

def State.modifyClosure (s : State M) (c : ℕ)
    (change : Closure M → Closure M) : State M :=
  { s with closures := Function.update s.closures c (change (s.closures c)) }

def State.modifyFrame (s : State M) (f : ℕ)
    (change : StackFrame → StackFrame) : State M :=
  { s with frames := Function.update s.frames f (change (s.frames f)) }

/-- A change through a pointer that the code takes for not `NULL`. -/
def State.modifyFrameOf (s : State M) (frame : Option ℕ)
    (change : StackFrame → StackFrame) : State M :=
  match frame with
  | some f => s.modifyFrame f change
  | none => s

def State.modifyWorker (s : State M) (w : ℕ)
    (change : Worker M → Worker M) : State M :=
  { s with workers := Function.update s.workers w (change (s.workers w)) }

section Deques

def dequePeekTop (s : State M) (w : ℕ) : Option ℕ :=
  (s.deques w).head?

def dequePeekBottom (s : State M) (w : ℕ) : Option ℕ :=
  (s.deques w).getLast?

def dequeXtractTop (s : State M) (w : ℕ) : State M :=
  { s with deques := Function.update s.deques w (s.deques w).tail }

def dequeXtractBottom (s : State M) (w : ℕ) : State M :=
  { s with deques := Function.update s.deques w (s.deques w).dropLast }

def dequeAddBottom (s : State M) (c : ℕ) (w : ℕ) : State M :=
  { s with deques := Function.update s.deques w (s.deques w ++ [c]) }

end Deques

section Fibers

/-- The fiber is one that lies in a pool. -/
def cilkFiberAllocateFromPool (s : State M) (fiber : ℕ) : State M :=
  { s with pool := s.pool.erase fiber, taken := fiber :: s.taken }

def cilkFiberDeallocateToPool (s : State M) (fiber : ℕ) : State M :=
  { s with pool := fiber :: s.pool, returned := fiber :: s.returned }

/-- The batch functions map a fiber for a pool. -/
def cilkFiberAllocate (s : State M) : State M :=
  { s with pool := s.mapped :: s.pool, mapped := s.mapped + 1 }

/-- The batch functions unmap a fiber of a pool. -/
def cilkFiberDeallocate (s : State M) (fiber : ℕ) : State M :=
  { s with pool := s.pool.erase fiber, unmapped := fiber :: s.unmapped }

end Fibers

section ClosureTree

/-- `Closure_has_children`. -/
def Closure.hasChildren (c : Closure M) : Bool :=
  c.hasCilkCallee || c.joinCounter != 0

/-- `Closure_create` of the closure with the next number. -/
def closureCreate (s : State M) : State M :=
  { s with
    closures := Function.update s.closures s.created {}
    created := s.created + 1 }

def doubleLinkChildren (s : State M) (left right : Option ℕ) :
    State M :=
  let linked := match left with
    | some sibling => s.modifyClosure sibling ({ · with rightSib := right })
    | none => s
  match right with
  | some sibling => linked.modifyClosure sibling ({ · with leftSib := left })
  | none => linked

def unlinkChild (s : State M) (cl : ℕ) : State M :=
  let leftUnlinked := match (s.closures cl).leftSib with
    | some sibling => s.modifyClosure sibling
        ({ · with rightSib := (s.closures cl).rightSib })
    | none => s
  let unlinked := match (s.closures cl).rightSib with
    | some sibling => leftUnlinked.modifyClosure sibling
        ({ · with leftSib := (s.closures cl).leftSib })
    | none => leftUnlinked
  unlinked.modifyClosure cl ({ · with leftSib := none, rightSib := none })

def closureAddChild (s : State M) (parent child : ℕ) : State M :=
  (doubleLinkChildren s (s.closures parent).rightMostChild
    (some child)).modifyClosure parent
      ({ · with rightMostChild := some child })

def closureRemoveChild (s : State M) (parent child : ℕ) : State M :=
  let removed :=
    if (s.closures parent).rightMostChild = some child then
      s.modifyClosure parent
        ({ · with rightMostChild := (s.closures child).leftSib })
    else s
  unlinkChild removed child

def closureAddTempCallee (s : State M) (caller callee : ℕ) :
    State M :=
  (s.modifyClosure callee ({ · with callParent := some caller })).modifyClosure
    caller ({ · with hasCilkCallee := true })

def closureAddCallee (s : State M) (caller callee : ℕ) : State M :=
  (s.modifyClosure callee ({ · with callParent := some caller })).modifyClosure
    caller ({ · with callee := some callee, hasCilkCallee := true })

def closureRemoveCallee (s : State M) (caller : ℕ) : State M :=
  s.modifyClosure caller ({ · with hasCilkCallee := false, callee := none })

def closureSetStatus (s : State M) (cl : ℕ) (status : ClosureStatus) :
    State M :=
  s.modifyClosure cl ({ · with status := status })

def closureSuspendVictim (s : State M) (victim : ℕ) (cl : ℕ) :
    State M :=
  dequeXtractBottom (closureSetStatus s cl .suspended) victim

def closureSuspend (s : State M) (w : ℕ) (cl : ℕ) : State M :=
  let poisoned := (closureSetStatus s cl .suspended).modifyFrameOf
    (s.closures cl).frame ({ · with worker := none })
  dequeXtractBottom poisoned w

def closureMakeReady (s : State M) (cl : ℕ) : State M :=
  closureSetStatus s cl .ready

/-- `Closure_clean` finds nothing to complain about. -/
structure Closure.Clean (c : Closure M) : Prop where
  leftSib : c.leftSib = none
  rightSib : c.rightSib = none
  rightMostChild : c.rightMostChild = none
  userRmap : c.userRmap = none
  childRmap : c.childRmap = none
  rightRmap : c.rightRmap = none

def closureDestroy (s : State M) (destroyer : Destroyer) (cl : ℕ) :
    State M :=
  { closureSetStatus s cl .postInvalid with
    destroyed := ⟨cl, destroyer, s.closures cl⟩ :: s.destroyed }

end ClosureTree

section Projections

variable {s : State M} {c d : ℕ} {f g : ℕ} {w v : ℕ}

theorem State.modifyClosure_apply (change : Closure M → Closure M) :
    (s.modifyClosure c change).closures d =
      if d = c then change (s.closures c) else s.closures d :=
  Function.update_apply ..

@[simp] theorem State.modifyFrame_self (change : StackFrame → StackFrame) :
    (s.modifyFrame f change).frames f = change (s.frames f) :=
  Function.update_self ..

@[simp] theorem State.modifyFrame_other (change : StackFrame → StackFrame)
    (other : g ≠ f) : (s.modifyFrame f change).frames g = s.frames g :=
  Function.update_of_ne other ..

@[simp] theorem State.modifyWorker_self (change : Worker M → Worker M) :
    (s.modifyWorker w change).workers w = change (s.workers w) :=
  Function.update_self ..

@[simp] theorem State.modifyWorker_other (change : Worker M → Worker M)
    (other : v ≠ w) : (s.modifyWorker w change).workers v = s.workers v :=
  Function.update_of_ne other ..

end Projections

end Multicilk.Scheduler
