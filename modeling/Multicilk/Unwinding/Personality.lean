import Multicilk.Scheduler.Moves

/-!
# Exceptions in a Cilkified region

While an exception passes through a frame, the personality function syncs the
frame first.  The fiber from which the exception comes is needed until then, and
is parked in the closure.  The rest is what the workers do without exceptions.

An exception that is raised anew in the personality function comes back to the
same frame, since the frames below it have been left already.
-/

namespace Multicilk.Unwinding

open Scheduler TransitionSystem

/-- The fields of a closure for exceptions, and what is kept in its frame. -/
structure ClosureExns where
  userExn : Option ℕ := none
  childExn : Option ℕ := none
  rightExn : Option ℕ := none
  parentRsp : Option ℕ := none
  savedThrowingFiber : Option ℕ := none
  /-- `CILK_FRAME_EXCEPTION_PENDING`. -/
  pending : Bool := false
  /-- The exception with which the personality function has last saved the
  context of the frame, unless the compiled code has saved it. -/
  context : Option ℕ := none
deriving DecidableEq

/-- What a worker is doing besides running ordinary code. -/
inductive Mode where
  | ordinary
  /-- Behind a sync, before the test of `CILK_FRAME_EXCEPTION_PENDING`. -/
  | checking
  /-- Before the personality function of the current frame, or before
  `Cilk_exception_handler` when the frame has been popped. -/
  | unwinding (exn : ℕ)
  /-- In the personality function, behind its sync. -/
  | synced (exn : ℕ)
  /-- In the loop of `Closure_return` that reduces exceptions. -/
  | reducing
deriving DecidableEq

/-- The argument of `Cilk_exception_handler`. -/
def Mode.exn : Mode → Option ℕ
  | .unwinding exn => some exn
  | _ => none

/-- A fiber is recorded with the closure it is parked in. -/
structure ExnMachine (M : Type*) extends Machine M where
  exns : ℕ → ClosureExns
  mode : ℕ → Mode
  parked : List (ℕ × ℕ)
  freed : List (ℕ × ℕ)
  overwritten : List (ℕ × ℕ)

variable {M : Type*}

/-- The exception of a child replaces the one of the parent. -/
def ClosureExns.takeChildExn (c : ClosureExns) : ClosureExns :=
  match c.childExn with
  | none => c
  | some exn => { c with userExn := some exn, childExn := none, pending := true }

namespace ExnMachine

def scheduled (m : ExnMachine M) (base : Machine M) (w : ℕ) (mode : Mode) :
    ExnMachine M :=
  { m with toMachine := base, mode := Function.update m.mode w mode }

def switch (m : ExnMachine M) (w : ℕ) (mode : Mode) : ExnMachine M :=
  { m with mode := Function.update m.mode w mode }

def modifyExns (m : ExnMachine M) (c : ℕ)
    (change : ClosureExns → ClosureExns) : ExnMachine M :=
  { m with exns := Function.update m.exns c (change (m.exns c)) }

section Sync

def park (m : ExnMachine M) (t : ℕ) (fiber : Option ℕ) : ExnMachine M :=
  { m.modifyExns t ({ · with savedThrowingFiber := fiber }) with
    parked := (fiber.map fun f => (t, f)).toList ++ m.parked
    overwritten := ((m.exns t).savedThrowingFiber.map
      fun f => (t, f)).toList ++ m.overwritten }

/-- `Cilk_sync`, when the rest of it leads to the base.  A fiber that is parked
is not given back. -/
def cilkSync (m : ExnMachine M) (base : Machine M) (w t : ℕ) (mode : Mode) :
    ExnMachine M :=
  if (m.sched.closures t).hasChildren then
    if (m.exns t).userExn = none then m.scheduled base w .ordinary
    else
      let s := base.sched.modifyWorker w ({ · with fiberToFree := none })
      (m.scheduled { base with sched := s } w .ordinary).park t
        (m.sched.closures t).fiber
  else (m.scheduled base w mode).modifyExns t .takeChildExn

/-- `__cilkrts_check_exception_raise`, which is called when the exception is
pending. -/
def checkExceptionRaise (m : ExnMachine M) (w t : ℕ) : ExnMachine M :=
  if (m.exns t).pending then
    let cleared := m.modifyExns t
      ({ · with userExn := none, pending := false })
    match (m.exns t).userExn with
    | some exn => cleared.switch w (.unwinding exn)
    | none => cleared.switch w .ordinary
  else m.switch w .ordinary

/-- Where a worker goes on when it resumes a frame. -/
def resumption (m : ExnMachine M) (w t : ℕ) : Mode :=
  if (m.sched.workers w).provablyGoodSteal then
    match (m.exns t).context with
    | some exn => .synced exn
    | none => .checking
  else .ordinary

end Sync

section Personality

/-- The context of the frame is saved, and the sync is to return to it. -/
def saveContext (m : ExnMachine M) (t sf exn : ℕ) : ExnMachine M :=
  let s := m.sched.modifyFrame sf
    ({ · with sp := (m.sched.closures t).fiber })
  { m.modifyExns t ({ · with
      parentRsp := (m.sched.closures t).origRsp
      userExn := some exn
      context := some exn }) with
    sched := s.modifyClosure t
      ({ · with origRsp := (s.frames sf).sp }) }

def deallocateSaved (m : ExnMachine M) (t : ℕ) : ExnMachine M :=
  match (m.exns t).savedThrowingFiber with
  | none => m
  | some fiber =>
    { m.modifyExns t ({ · with savedThrowingFiber := none }) with
      sched := cilkFiberDeallocateToPool m.sched fiber
      freed := (t, fiber) :: m.freed }

/-- `__cilkrts_cleanup_fiber` of a handler. -/
def cleanupFiber (m : ExnMachine M) (t sf : ℕ) : ExnMachine M :=
  match (m.exns t).parentRsp with
  | none => m
  | some rsp =>
    { m.modifyExns t ({ · with parentRsp := none }) with
      sched := m.sched.modifyFrame sf ({ · with sp := some rsp })
    }.deallocateSaved t

/-- `Cilk_exception_handler` with the exception that leaves a spawned frame. -/
def exceptionHandler (m : ExnMachine M) (base : Machine M) (w t : ℕ) :
    ExnMachine M :=
  if (m.sched.workers w).tail < (m.sched.workers w).head then
    (m.scheduled base w .ordinary).modifyExns t
      fun c => { c with userExn := (m.mode w).exn.or c.userExn }
  else m.scheduled base w (m.mode w)

/-- No other exception has been found in the closure. -/
def Settled (m : ExnMachine M) (w exn : ℕ) : Prop :=
  ∀ t ∈ dequePeekBottom m.sched w, ∀ other ∈ (m.exns t).userExn, other = exn

end Personality

section Return

def leftExn (m : ExnMachine M) (parent child : ℕ) : Option ℕ :=
  match (m.sched.closures child).leftSib with
  | some sibling => (m.exns sibling).rightExn
  | none => (m.exns parent).childExn

def storeLeftExn (m : ExnMachine M) (parent child : ℕ) (exn : Option ℕ) :
    ExnMachine M :=
  match (m.sched.closures child).leftSib with
  | some sibling => m.modifyExns sibling ({ · with rightExn := exn })
  | none => m.modifyExns parent ({ · with childExn := exn })

/-- The left-most exception is kept. -/
def exceptionIteration (m : ExnMachine M) (parent child : ℕ) : ExnMachine M :=
  let active := (m.leftExn parent child).or
    ((m.exns child).userExn.or (m.exns child).rightExn)
  let m := m.modifyExns child ({ · with rightExn := none })
  let m := m.storeLeftExn parent child none
  m.modifyExns child ({ · with userExn := active })

/-- The loop for the exceptions ends, and the one for the reducers begins. -/
def depositExn (m : ExnMachine M) (w parent child : ℕ) : ExnMachine M :=
  if m.mode w = .reducing then
    (m.storeLeftExn parent child (m.exns child).userExn).switch w .ordinary
  else m

/-- There is nothing to reduce any more, if there is a loop. -/
def Reduced (m : ExnMachine M) (w parent child : ℕ) : Prop :=
  m.mode w = .ordinary ∨ m.mode w = .reducing ∧
    m.leftExn parent child = none ∧ (m.exns child).rightExn = none

/-- The parent is resumed with the exception of its children. -/
def resumeExns (m : ExnMachine M) (w parent : ℕ) : ExnMachine M :=
  if m.pc w = .holding parent then m.modifyExns parent .takeChildExn else m

end Return

end ExnMachine

open ExnMachine

inductive Action where
  | scheduler (action : Scheduler.Action)
  | sync (w : ℕ)
  | checkException (w : ℕ)
  | throw (w : ℕ)
  | personality (w : ℕ)
  | reraise (w : ℕ)
  /-- The standard personality function has found a handler, a cleanup, or
  nothing. -/
  | handler (w : ℕ)
  | cleanup (w : ℕ)
  | leave (w : ℕ)
  | reduceExceptions (w : ℕ)

/-- A step to which exceptions do not matter. -/
def isPlain : Scheduler.Action → Bool
  | .sync _ | .exceptionHandler _ | .execute _ | .returnValue _
  | .reducerIteration _ | .finishReturn _ => false
  | _ => true

variable [Monoid M]

inductive Step : ExnMachine M → Action → ExnMachine M → Prop where
  | plain {m : ExnMachine M} {action : Scheduler.Action} {base : Machine M} :
      isPlain action = true →
      (∀ w, action.worker = some w → m.mode w = .ordinary) →
      Scheduler.Step m.toMachine action base →
      Step m (.scheduler action) { m with toMachine := base }
  /-- The compiled code saves the context. -/
  | sync {m : ExnMachine M} {w t : ℕ} {base : Machine M} :
      m.mode w = .ordinary →
      dequePeekBottom m.sched w = some t →
      Scheduler.Step m.toMachine (.sync w) base →
      Step m (.sync w)
        ((m.modifyExns t ({ · with context := none })).cilkSync base w t
          .checking)
  | checkException {m : ExnMachine M} {w t : ℕ} :
      m.pc w = .user →
      m.mode w = .checking →
      dequePeekBottom m.sched w = some t →
      m.Unlocked t →
      Step m (.checkException w) (m.checkExceptionRaise w t)
  /-- An exception is thrown, or a cleanup resumes the unwinding. -/
  | throw {m : ExnMachine M} {w : ℕ} (exn : ℕ) :
      m.pc w = .user →
      m.mode w = .ordinary →
      Step m (.throw w) (m.switch w (.unwinding exn))
  | personality {m : ExnMachine M} {w sf exn : ℕ} :
      m.pc w = .user →
      m.mode w = .unwinding exn →
      (m.sched.workers w).currentStackFrame = some sf →
      (m.sched.frames sf).unsynched = false →
      Step m (.personality w) (m.switch w (.synced exn))
  | personalitySync {m : ExnMachine M} {w t sf exn : ℕ} {base : Machine M} :
      m.pc w = .user →
      m.mode w = .unwinding exn →
      (m.sched.workers w).currentStackFrame = some sf →
      dequePeekBottom m.sched w = some t →
      Scheduler.Step (m.saveContext t sf exn).toMachine (.sync w) base →
      Step m (.personality w)
        ((m.saveContext t sf exn).cilkSync base w t (.synced exn))
  | reraise {m : ExnMachine M} {w t exn other : ℕ} :
      m.pc w = .user →
      m.mode w = .synced exn →
      dequePeekBottom m.sched w = some t →
      m.Unlocked t →
      (m.exns t).userExn = some other →
      other ≠ exn →
      Step m (.reraise w)
        ((m.modifyExns t
          ({ · with userExn := none, pending := false })).switch w
            (.synced other))
  | handler {m : ExnMachine M} {w t sf exn : ℕ} :
      m.pc w = .user →
      m.mode w = .synced exn →
      m.Settled w exn →
      (m.sched.workers w).currentStackFrame = some sf →
      dequePeekBottom m.sched w = some t →
      Step m (.handler w) ((m.cleanupFiber t sf).switch w .ordinary)
  /-- `__cilkrts_cleanup_fiber` does nothing. -/
  | cleanup {m : ExnMachine M} {w exn : ℕ} :
      m.pc w = .user →
      m.mode w = .synced exn →
      m.Settled w exn →
      Step m (.cleanup w) (m.switch w .ordinary)
  /-- A called frame is popped and left by the personality function, and a
  spawned one is popped and paused by its cleanup. -/
  | leave {m : ExnMachine M} {w exn : ℕ} {action : Scheduler.Action}
      {base : Machine M} :
      m.mode w = .synced exn →
      m.Settled w exn →
      action = .leaveCalled w ∨ action = .setReturn w ∨
        action = .leaveSpawned w →
      Scheduler.Step m.toMachine action base →
      Step m (.leave w) (m.scheduled base w (.unwinding exn))
  | leaveLast {m : ExnMachine M} {w exn : ℕ} {base : Machine M} :
      m.mode w = .synced exn →
      m.Settled w exn →
      Scheduler.Step m.toMachine (.exit w) base →
      Step m (.leave w) (m.scheduled base w .ordinary)
  | exceptionHandler {m : ExnMachine M} {w t : ℕ} {base : Machine M} :
      dequePeekBottom m.sched w = some t →
      Scheduler.Step m.toMachine (.exceptionHandler w) base →
      Step m (.scheduler (.exceptionHandler w)) (m.exceptionHandler base w t)
  | execute {m : ExnMachine M} {w t : ℕ} {base : Machine M} :
      m.mode w = .ordinary →
      m.pc w = .executing t →
      Scheduler.Step m.toMachine (.execute w) base →
      Step m (.scheduler (.execute w))
        (m.scheduled base w (m.resumption w t))
  | returnValue {m : ExnMachine M} {w : ℕ} {base : Machine M} :
      m.mode w = .ordinary →
      Scheduler.Step m.toMachine (.returnValue w) base →
      Step m (.scheduler (.returnValue w)) (m.scheduled base w .reducing)
  | reduceExceptions {m : ExnMachine M} {w child parent : ℕ} :
      m.pc w = .returning child →
      m.mode w = .reducing →
      (m.sched.closures child).spawnParent = some parent →
      m.Unlocked parent →
      m.Unlocked child →
      (m.leftExn parent child).isSome ∨ (m.exns child).rightExn.isSome →
      Step m (.reduceExceptions w) (m.exceptionIteration parent child)
  | reducerIteration {m : ExnMachine M} {w child parent : ℕ}
      {base : Machine M} :
      m.pc w = .returning child →
      (m.sched.closures child).spawnParent = some parent →
      m.Reduced w parent child →
      Scheduler.Step m.toMachine (.reducerIteration w) base →
      Step m (.scheduler (.reducerIteration w))
        { m.depositExn w parent child with toMachine := base }
  | finishReturn {m : ExnMachine M} {w child parent : ℕ} {base : Machine M} :
      m.pc w = .returning child →
      (m.sched.closures child).spawnParent = some parent →
      m.Reduced w parent child →
      Scheduler.Step m.toMachine (.finishReturn w) base →
      Step m (.scheduler (.finishReturn w))
        ({ m.depositExn w parent child with toMachine := base }.resumeExns w
          parent)

/-- No exception has been thrown yet. -/
structure Initial (m : ExnMachine M) : Prop where
  base : Scheduler.Initial m.toMachine
  exns : ∀ c, m.exns c = {}
  mode : ∀ w, m.mode w = .ordinary
  parked : m.parked = []
  freed : m.freed = []
  overwritten : m.overwritten = []

end Multicilk.Unwinding
