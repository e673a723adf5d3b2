import Multicilk.Scheduler.State

/-!
# Stealing from a victim

A thief promotes the oldest stacklet of its victim.  The child of the youngest
frame of the stacklet gets a closure of its own and stays with the victim.  All
frames of the stacklet get closures too, the youngest one first and the others
when the deque of the victim has been unlocked.
-/

namespace Multicilk.Scheduler

variable {M : Type*}

def setStolen (s : State M) (frame : ℕ) : State M :=
  s.modifyFrame frame ({ · with stolen := true })

/-- The frame at `*head`. -/
def frameToSteal (s : State M) (victim : ℕ) : ℕ :=
  (s.workers victim).shadowStack (s.workers victim).head

def trivialStacklet (s : State M) (head : ℕ) : Bool :=
  (s.frames head).detached

/-- The loop follows at most as many links as there is fuel. -/
def oldestNonStolenFrameInStacklet (s : State M) :
    ℕ → ℕ → Option ℕ
  | 0, _ => none
  | fuel + 1, cur =>
    if (s.frames cur).detached then some cur
    else
      match (s.frames cur).callParent with
      | none => some cur
      | some callParent =>
        if (s.frames callParent).stolen then some cur
        else oldestNonStolenFrameInStacklet s fuel callParent

/-- The recursion follows the links to the older frames, and the closures are
made on the way back.  It fails where the code follows a `NULL` pointer. -/
def setupCallParentClosureHelper (s : State M) (oldest : ℕ) :
    ℕ → ℕ → Option (State M × ℕ)
  | 0, _ => none
  | fuel + 1, frame =>
    if (s.closures oldest).frame = some frame then some (s, oldest)
    else
      (s.frames frame).callParent.bind fun parentFrame =>
        (setupCallParentClosureHelper s oldest fuel parentFrame).map
          fun (s, callParent) =>
            let currCl := s.created
            let s := closureCreate (setStolen s frame)
            let s := s.modifyClosure currCl ({ · with
              frame := some frame
              status := .suspended
              fiber := (s.closures callParent).fiber })
            let s := s.modifyFrame frame ({ · with worker := none })
            (closureAddCallee s callParent currCl, currCl)

/-- The oldest closure gets the oldest frame unless it has one, and its frame is
poisoned. -/
def promoteOldest (s : State M) (oldestCl oldest : ℕ) : State M :=
  let s :=
    if (s.closures oldestCl).frame = none then
      (setStolen s oldest).modifyClosure oldestCl
        ({ · with frame := some oldest })
    else s
  s.modifyFrameOf (s.closures oldestCl).frame ({ · with worker := none })

def setupClosuresInStacklet (s : State M) (fuel : ℕ) (youngestCl : ℕ) :
    Option (State M) :=
  (s.closures youngestCl).callParent.bind fun oldestCl =>
  (s.closures youngestCl).frame.bind fun youngest =>
  (oldestNonStolenFrameInStacklet s fuel youngest).bind fun oldest =>
  (s.frames youngest).callParent.bind fun parentFrame =>
    (setupCallParentClosureHelper (promoteOldest s oldestCl oldest) oldestCl
      fuel parentFrame).map
      fun (s, callParent) => closureAddCallee s callParent youngestCl

/-- The exception pointer of the victim is raised while its tail is read. -/
def doDekkerOn (s : State M) (victim : ℕ) : Bool :=
  (s.workers victim).head < (s.workers victim).tail

def incrementExceptionPointer (s : State M) (victim : ℕ) : State M :=
  s.modifyWorker victim fun v => { v with exc := v.exc + 1 }

/-- The first part of `promote_child`: the closure of the spawning frame, and
whether it is a new one. -/
def promoteSpawnParent (s : State M) (victim : ℕ) (cl : ℕ) :
    State M × ℕ × Option ℕ :=
  let frame := frameToSteal s victim
  if (s.closures cl).frame = some frame then (s, cl, none)
  else if trivialStacklet s frame then
    (setStolen (s.modifyClosure cl ({ · with frame := some frame })) frame,
      cl, none)
  else
    let spawnParent := s.created
    let s := (closureCreate s).modifyClosure spawnParent
      ({ · with frame := some frame })
    let s := closureSetStatus (setStolen s frame) spawnParent .running
    let s := closureAddTempCallee s cl spawnParent
    (closureSuspendVictim s victim cl, spawnParent, some spawnParent)

def recordOrigRsp (s : State M) (spawnParent : ℕ) (frame : ℕ) :
    State M :=
  s.modifyClosure spawnParent fun c =>
    { c with origRsp := c.origRsp.or (s.frames frame).sp }

/-- The second part of `promote_child`: the closure of the child goes to the
bottom of the deque of the victim. -/
def promoteSpawnChild (s : State M) (victim : ℕ) (spawnParent : ℕ) :
    State M :=
  let spawnChild := s.created
  let s := (closureCreate s).modifyClosure spawnChild
    ({ · with spawnParent := some spawnParent, status := .running })
  let s := closureAddChild s spawnParent spawnChild
  let s := s.modifyClosure spawnParent
    fun c => { c with joinCounter := c.joinCounter + 1 }
  let s := s.modifyWorker victim fun v => { v with head := v.head + 1 }
  let s := s.modifyClosure spawnChild ({ · with frame := none })
  dequeAddBottom s spawnChild victim

/-- The child, and the spawning parent when that is a new closure. -/
def promoteChild (s : State M) (victim : ℕ) (cl : ℕ) :
    State M × ℕ × Option ℕ :=
  let frame := frameToSteal s victim
  let (s, spawnParent, res) := promoteSpawnParent s victim cl
  let s := recordOrigRsp s spawnParent frame
  (promoteSpawnChild s victim spawnParent, s.created, res)

/-- A worker that promotes its own deque takes no fiber. -/
def takeFiber (s : State M) : Option ℕ → State M
  | some fiber => cilkFiberAllocateFromPool s fiber
  | none => s

/-- The fiber is the one that the pool gives for a real steal. -/
def extractTopSpawningClosure (s : State M) (victim : ℕ) (cl : ℕ)
    (fiber : Option ℕ) : State M × ℕ :=
  let parentFiber := (s.closures cl).fiber
  let (s, child, res) := promoteChild s victim cl
  let (s, res) := match res with
    | some res => (s, res)
    | none => (dequeXtractTop s victim, cl)
  let s := (takeFiber s fiber).modifyClosure res ({ · with fiber := fiber })
  (s.modifyClosure child ({ · with fiber := parentFiber }), res)

/-- The end of `finish_promote`. -/
def readyParent (s : State M) (parent : ℕ) : State M :=
  closureMakeReady (s.modifyFrameOf (s.closures parent).frame
    ({ · with unsynched := true })) parent

def finishPromote (s : State M) (fuel : ℕ) (parent : ℕ)
    (hasFramesToPromote : Bool) : Option (State M) :=
  let promoted :=
    if hasFramesToPromote then setupClosuresInStacklet s fuel parent
    else some s
  promoted.map fun s => readyParent s parent

/-- What `Closure_steal` does under the lock of the deque.  It gives the closure
at the top and the one that is stolen. -/
def closureStealTop (s : State M) (victim : ℕ) (fiber : ℕ) :
    Option (State M × ℕ × ℕ) :=
  (dequePeekTop s victim).bind fun cl =>
    if (s.closures cl).status = .running ∧ doDekkerOn s victim then
      let (s, res) := extractTopSpawningClosure
        (incrementExceptionPointer s victim) victim cl (some fiber)
      some (s, cl, res)
    else none

/-- A successful `Closure_steal`. -/
def closureSteal (s : State M) (fuel : ℕ) (victim : ℕ)
    (fiber : ℕ) : Option (State M × ℕ) :=
  (closureStealTop s victim fiber).bind fun (s, cl, res) =>
    (finishPromote s fuel res (cl ≠ res)).map fun s => (s, res)

end Multicilk.Scheduler
