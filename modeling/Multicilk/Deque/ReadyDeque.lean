import Mathlib.Logic.Function.Basic
import Multicilk.Support.DoublyLinked
import Multicilk.Support.Run

/-!
# Ready deques

The closures of a ready deque are linked through their own fields, which are left
as they are when a closure is extracted.  An operation is `none` where an
assertion fails or `NULL` is followed.  Without `CILK_DEBUG` nothing is asserted,
and the field `owner_ready_deque` is not kept.
-/

namespace Multicilk.Deque

open DoublyLinked TransitionSystem

/-- The fields of a closure that belong to the deques.  `NO_WORKER` is `none`. -/
structure Closure where
  ownerReadyDeque : Option ℕ
  nextReady : Option ℕ
  prevReady : Option ℕ

structure ReadyDeque where
  mutexOwner : Option ℕ
  top : Option ℕ
  bottom : Option ℕ

structure State where
  closures : ℕ → Closure
  deques : ℕ → ReadyDeque
  rootClosure : ℕ

namespace State

def modifyClosure (s : State) (c : ℕ) (change : Closure → Closure) : State :=
  { s with closures := Function.update s.closures c (change (s.closures c)) }

def modifyDeque (s : State) (pn : ℕ) (change : ReadyDeque → ReadyDeque) :
    State :=
  { s with deques := Function.update s.deques pn (change (s.deques pn)) }

def setOwner (s : State) (c : ℕ) (owner : Option ℕ) : State :=
  s.modifyClosure c ({ · with ownerReadyDeque := owner })

def setNext (s : State) (c : ℕ) (next : Option ℕ) : State :=
  s.modifyClosure c ({ · with nextReady := next })

def setPrev (s : State) (c : ℕ) (prev : Option ℕ) : State :=
  s.modifyClosure c ({ · with prevReady := prev })

def setTop (s : State) (pn : ℕ) (top : Option ℕ) : State :=
  s.modifyDeque pn ({ · with top := top })

def setBottom (s : State) (pn : ℕ) (bottom : Option ℕ) : State :=
  s.modifyDeque pn ({ · with bottom := bottom })

def setMutexOwner (s : State) (pn : ℕ) (w : Option ℕ) : State :=
  s.modifyDeque pn ({ · with mutexOwner := w })

end State

section Operations

variable (debug : Bool)

/-- `CILK_ASSERT`. -/
def cilkAssert (condition : Bool) : Option Unit :=
  if debug && !condition then none else some ()

def dequeAssertOwnership (s : State) (w pn : ℕ) : Option Unit :=
  cilkAssert debug ((s.deques pn).mutexOwner = some w)

/-- `WHEN_CILK_DEBUG` of an assignment to `owner_ready_deque`. -/
def debugOwner (s : State) (cl : ℕ) (owner : Option ℕ) : State :=
  if debug then s.setOwner cl owner else s

/-- The lock is free, and taken by the worker. -/
def dequeLock (s : State) (w pn : ℕ) : Option State :=
  match (s.deques pn).mutexOwner with
  | none => some (s.setMutexOwner pn (some w))
  | some _ => none

def dequeUnlock (s : State) (pn : ℕ) : State :=
  s.setMutexOwner pn none

def dequeXtractTop (s : State) (w pn : ℕ) : Option (State × Option ℕ) := do
  dequeAssertOwnership debug s w pn
  match (s.deques pn).top with
  | some cl =>
    cilkAssert debug ((s.closures cl).ownerReadyDeque = some pn)
    let s := s.setTop pn (s.closures cl).nextReady
    let s ←
      if some cl = (s.deques pn).bottom then do
        cilkAssert debug ((s.closures cl).nextReady = none)
        some (s.setBottom pn none)
      else (s.closures cl).nextReady.map fun next => s.setPrev next none
    return (debugOwner debug s cl none, some cl)
  | none =>
    cilkAssert debug ((s.deques pn).bottom = none)
    return (s, none)

def dequePeekTop (s : State) (w pn : ℕ) : Option (State × Option ℕ) := do
  dequeAssertOwnership debug s w pn
  match (s.deques pn).top with
  | some cl =>
    cilkAssert debug ((s.closures cl).ownerReadyDeque = some pn ||
      (w != pn && cl == s.rootClosure))
    return (s, some cl)
  | none =>
    cilkAssert debug ((s.deques pn).bottom = none)
    return (s, none)

def dequeXtractBottom (s : State) (w pn : ℕ) : Option (State × Option ℕ) := do
  dequeAssertOwnership debug s w pn
  match (s.deques pn).bottom with
  | some cl =>
    cilkAssert debug ((s.closures cl).ownerReadyDeque = some pn)
    let s := s.setBottom pn (s.closures cl).prevReady
    let s ←
      if some cl = (s.deques pn).top then do
        cilkAssert debug ((s.closures cl).prevReady = none)
        some (s.setTop pn none)
      else (s.closures cl).prevReady.map fun prev => s.setNext prev none
    return (debugOwner debug s cl none, some cl)
  | none =>
    cilkAssert debug ((s.deques pn).top = none)
    return (s, none)

def dequePeekBottom (s : State) (w pn : ℕ) : Option (State × Option ℕ) := do
  dequeAssertOwnership debug s w pn
  match (s.deques pn).bottom with
  | some cl =>
    cilkAssert debug ((s.closures cl).ownerReadyDeque = some pn)
    return (s, some cl)
  | none =>
    cilkAssert debug ((s.deques pn).top = none)
    return (s, none)

def dequeAddBottom (s : State) (w cl pn : ℕ) : Option State := do
  dequeAssertOwnership debug s w pn
  cilkAssert debug ((s.closures cl).ownerReadyDeque = none)
  let s := s.setPrev cl (s.deques pn).bottom
  let s := s.setNext cl none
  let s := s.setBottom pn (some cl)
  let s := debugOwner debug s cl (some pn)
  match (s.deques pn).top with
  | some _ =>
    (s.closures cl).prevReady.map fun prev => s.setNext prev (some cl)
  | none => some (s.setTop pn (some cl))

end Operations

inductive Call where
  | lock (w pn : ℕ)
  | unlock (w pn : ℕ)
  | addBottom (w cl pn : ℕ)
  | xtractTop (w pn : ℕ)
  | xtractBottom (w pn : ℕ)
  | peekTop (w pn : ℕ)
  | peekBottom (w pn : ℕ)

/-- The state after a call, and the closure that is returned. -/
def State.perform (debug : Bool) (s : State) :
    Call → Option (State × Option ℕ)
  | .lock w pn => (dequeLock s w pn).map (·, none)
  | .unlock _ pn => some (dequeUnlock s pn, none)
  | .addBottom w cl pn => (dequeAddBottom debug s w cl pn).map (·, none)
  | .xtractTop w pn => dequeXtractTop debug s w pn
  | .xtractBottom w pn => dequeXtractBottom debug s w pn
  | .peekTop w pn => dequePeekTop debug s w pn
  | .peekBottom w pn => dequePeekBottom debug s w pn

def State.performAll (debug : Bool) (s : State) :
    List Call → Option (State × List (Option ℕ))
  | [] => some (s, [])
  | call :: calls => do
    let (s, result) ← s.perform debug call
    let (s, results) ← s.performAll debug calls
    return (s, result :: results)

/-- What the deques are for: sequences of closures, from the top to the bottom,
and the workers that have locked them. -/
structure Sequences where
  contents : ℕ → List ℕ
  holder : ℕ → Option ℕ

def Sequences.setContents (a : Sequences) (pn : ℕ) (closures : List ℕ) :
    Sequences :=
  { a with contents := Function.update a.contents pn closures }

def Sequences.setHolder (a : Sequences) (pn : ℕ) (w : Option ℕ) : Sequences :=
  { a with holder := Function.update a.holder pn w }

/-- The calls that are allowed, with their results.  A closure is added that is
in no deque, and a deque is used by the worker that has locked it. -/
inductive Sequences.Step : Sequences → Call × Option ℕ → Sequences → Prop where
  | lock {a : Sequences} {w pn : ℕ} : a.holder pn = none →
      Step a (.lock w pn, none) (a.setHolder pn (some w))
  | unlock {a : Sequences} {w pn : ℕ} : a.holder pn = some w →
      Step a (.unlock w pn, none) (a.setHolder pn none)
  | addBottom {a : Sequences} {w cl pn : ℕ} : a.holder pn = some w →
      (∀ qn, cl ∉ a.contents qn) →
      Step a (.addBottom w cl pn, none)
        (a.setContents pn (a.contents pn ++ [cl]))
  | xtractTop {a : Sequences} {w pn : ℕ} : a.holder pn = some w →
      Step a (.xtractTop w pn, (a.contents pn).head?)
        (a.setContents pn (a.contents pn).tail)
  | xtractBottom {a : Sequences} {w pn : ℕ} : a.holder pn = some w →
      Step a (.xtractBottom w pn, (a.contents pn).getLast?)
        (a.setContents pn (a.contents pn).dropLast)
  | peekTop {a : Sequences} {w pn : ℕ} : a.holder pn = some w →
      Step a (.peekTop w pn, (a.contents pn).head?) a
  | peekBottom {a : Sequences} {w pn : ℕ} : a.holder pn = some w →
      Step a (.peekBottom w pn, (a.contents pn).getLast?) a

/-- The pointers of the deques represent disjoint sequences.  Nothing is said
about the links of closures that are in none. -/
structure Represents (debug : Bool) (s : State) (a : Sequences) : Prop where
  holder : ∀ pn, (s.deques pn).mutexOwner = a.holder pn
  top : ∀ pn, (s.deques pn).top = (a.contents pn).head?
  bottom : ∀ pn, (s.deques pn).bottom = (a.contents pn).getLast?
  linked : ∀ pn, Linked (fun c => (s.closures c).prevReady)
    (fun c => (s.closures c).nextReady) (a.contents pn)
  nodup : ∀ pn, (a.contents pn).Nodup
  disjoint : ∀ pn qn c, c ∈ a.contents pn → c ∈ a.contents qn → pn = qn
  owner : debug = true → ∀ c pn,
    (s.closures c).ownerReadyDeque = some pn ↔ c ∈ a.contents pn

section Projections

variable {debug condition : Bool} {s : State} {c cl pn qn : ℕ}
  {value : Option ℕ}

theorem cilkAssert_of (holds : debug = true → condition = true) :
    cilkAssert debug condition = some () := by
  cases debug with
  | false => rfl
  | true => rw [holds rfl]; rfl

@[simp] theorem cilkAssert_true : cilkAssert debug true = some () :=
  cilkAssert_of fun _ => rfl

theorem dequeAssertOwnership_of {w : ℕ}
    (holds : (s.deques pn).mutexOwner = some w) :
    dequeAssertOwnership debug s w pn = some () :=
  cilkAssert_of fun _ => decide_eq_true holds

theorem modifyDeque_apply (change : ReadyDeque → ReadyDeque) :
    (s.modifyDeque pn change).deques qn =
      if qn = pn then change (s.deques pn) else s.deques qn :=
  Function.update_apply ..

theorem modifyClosure_apply (change : Closure → Closure) :
    (s.modifyClosure cl change).closures c =
      if c = cl then change (s.closures cl) else s.closures c :=
  Function.update_apply ..

@[simp] theorem setTop_apply : (s.setTop pn value).deques qn =
    if qn = pn then { s.deques pn with top := value } else s.deques qn :=
  modifyDeque_apply _

@[simp] theorem setBottom_apply : (s.setBottom pn value).deques qn =
    if qn = pn then { s.deques pn with bottom := value } else s.deques qn :=
  modifyDeque_apply _

@[simp] theorem setMutexOwner_apply : (s.setMutexOwner pn value).deques qn =
    if qn = pn then { s.deques pn with mutexOwner := value }
    else s.deques qn :=
  modifyDeque_apply _

@[simp] theorem setTop_closures :
    (s.setTop pn value).closures = s.closures := rfl

@[simp] theorem setBottom_closures :
    (s.setBottom pn value).closures = s.closures := rfl

@[simp] theorem setMutexOwner_closures :
    (s.setMutexOwner pn value).closures = s.closures := rfl

@[simp] theorem setNext_deques :
    (s.setNext cl value).deques = s.deques := rfl

@[simp] theorem setPrev_deques :
    (s.setPrev cl value).deques = s.deques := rfl

@[simp] theorem debugOwner_deques :
    (debugOwner debug s cl value).deques = s.deques := by
  cases debug <;> rfl

@[simp] theorem setNext_nextReady :
    ((s.setNext cl value).closures c).nextReady =
      if c = cl then value else (s.closures c).nextReady := by
  rw [State.setNext, modifyClosure_apply]
  split <;> rfl

@[simp] theorem setNext_prevReady :
    ((s.setNext cl value).closures c).prevReady =
      (s.closures c).prevReady := by
  rw [State.setNext, modifyClosure_apply]
  split
  case isTrue same => rw [same]
  case isFalse => rfl

@[simp] theorem setNext_owner :
    ((s.setNext cl value).closures c).ownerReadyDeque =
      (s.closures c).ownerReadyDeque := by
  rw [State.setNext, modifyClosure_apply]
  split
  case isTrue same => rw [same]
  case isFalse => rfl

@[simp] theorem setPrev_prevReady :
    ((s.setPrev cl value).closures c).prevReady =
      if c = cl then value else (s.closures c).prevReady := by
  rw [State.setPrev, modifyClosure_apply]
  split <;> rfl

@[simp] theorem setPrev_nextReady :
    ((s.setPrev cl value).closures c).nextReady =
      (s.closures c).nextReady := by
  rw [State.setPrev, modifyClosure_apply]
  split
  case isTrue same => rw [same]
  case isFalse => rfl

@[simp] theorem setPrev_owner :
    ((s.setPrev cl value).closures c).ownerReadyDeque =
      (s.closures c).ownerReadyDeque := by
  rw [State.setPrev, modifyClosure_apply]
  split
  case isTrue same => rw [same]
  case isFalse => rfl

theorem debugOwner_apply : (debugOwner debug s cl value).closures c =
    if debug = true ∧ c = cl then
      { s.closures cl with ownerReadyDeque := value }
    else s.closures c := by
  cases debug with
  | false => rfl
  | true => simp [debugOwner, State.setOwner, modifyClosure_apply]

@[simp] theorem debugOwner_nextReady :
    ((debugOwner debug s cl value).closures c).nextReady =
      (s.closures c).nextReady := by
  rw [debugOwner_apply]
  split
  case isTrue same => rw [same.2]
  case isFalse => rfl

@[simp] theorem debugOwner_prevReady :
    ((debugOwner debug s cl value).closures c).prevReady =
      (s.closures c).prevReady := by
  rw [debugOwner_apply]
  split
  case isTrue same => rw [same.2]
  case isFalse => rfl

theorem debugOwner_owner (debugging : debug = true) :
    ((debugOwner debug s cl value).closures c).ownerReadyDeque =
      if c = cl then value else (s.closures c).ownerReadyDeque := by
  rw [debugOwner_apply]
  by_cases same : c = cl <;> simp [debugging, same]

end Projections

section Refinement

variable {debug : Bool} {s t : State} {a b : Sequences} {w pn cl : ℕ}
  {closures rest : List ℕ} {result : Option ℕ}

theorem Sequences.setContents_self (same : a.contents pn = closures) :
    a.setContents pn closures = a := by
  rw [← same, Sequences.setContents, Function.update_eq_self]

/-- One deque gets another sequence, and the others do not notice. -/
theorem Represents.setContents (represents : Represents debug s a)
    (holder : ∀ qn, (t.deques qn).mutexOwner = (s.deques qn).mutexOwner)
    (others : ∀ qn, qn ≠ pn → t.deques qn = s.deques qn)
    (top : (t.deques pn).top = closures.head?)
    (bottom : (t.deques pn).bottom = closures.getLast?)
    (linked : Linked (fun c => (t.closures c).prevReady)
      (fun c => (t.closures c).nextReady) closures)
    (nodup : closures.Nodup)
    (apart : ∀ qn, qn ≠ pn → ∀ c ∈ closures, c ∉ a.contents qn)
    (kept : ∀ c, c ∉ a.contents pn → c ∉ closures →
      (t.closures c).prevReady = (s.closures c).prevReady ∧
        (t.closures c).nextReady = (s.closures c).nextReady)
    (owner : debug = true → ∀ c, (t.closures c).ownerReadyDeque =
      if c ∈ closures then some pn
      else if c ∈ a.contents pn then none
      else (s.closures c).ownerReadyDeque) :
    Represents debug t (a.setContents pn closures) := by
  have here : (a.setContents pn closures).contents pn = closures :=
    Function.update_self ..
  have there (qn : ℕ) (other : qn ≠ pn) :
      (a.setContents pn closures).contents qn = a.contents qn :=
    Function.update_of_ne other ..
  have notHere (qn : ℕ) (other : qn ≠ pn) (c : ℕ) (member : c ∈ a.contents qn) :
      c ∉ a.contents pn ∧ c ∉ closures :=
    ⟨fun inDeque => other (represents.disjoint qn pn c member inDeque),
      fun inClosures => apart qn other c inClosures member⟩
  constructor
  case holder => exact fun qn => (holder qn).trans (represents.holder qn)
  case top =>
    intro qn
    by_cases same : qn = pn
    · rw [same, here, top]
    · rw [there qn same, others qn same, represents.top qn]
  case bottom =>
    intro qn
    by_cases same : qn = pn
    · rw [same, here, bottom]
    · rw [there qn same, others qn same, represents.bottom qn]
  case linked =>
    intro qn
    by_cases same : qn = pn
    · rw [same, here]
      exact linked
    · rw [there qn same]
      apply (represents.linked qn).congr
      · intro c member
        have outside := notHere qn same c member
        exact (kept c outside.1 outside.2).1
      · intro c member
        have outside := notHere qn same c member
        exact (kept c outside.1 outside.2).2
  case nodup =>
    intro qn
    by_cases same : qn = pn
    · rw [same, here]
      exact nodup
    · rw [there qn same]
      exact represents.nodup qn
  case disjoint =>
    intro qn rn c member member'
    by_cases same : qn = pn <;> by_cases same' : rn = pn
    · rw [same, same']
    · rw [same, here] at member
      rw [there rn same'] at member'
      exact absurd member' (apart rn same' c member)
    · rw [there qn same] at member
      rw [same', here] at member'
      exact absurd member (apart qn same c member')
    · rw [there qn same] at member
      rw [there rn same'] at member'
      exact represents.disjoint qn rn c member member'
  case owner =>
    intro debugging c qn
    have owned := represents.owner debugging c
    rw [owner debugging c]
    by_cases member : c ∈ closures
    · rw [if_pos member]
      by_cases same : qn = pn
      · simp [same, here, member]
      · have apart := apart qn same c member
        simp [there qn same, apart, Ne.symm same]
    rw [if_neg member]
    by_cases wasHere : c ∈ a.contents pn
    · rw [if_pos wasHere]
      by_cases same : qn = pn
      · simp [same, here, member]
      · have elsewhere : c ∉ a.contents qn := fun inDeque =>
          same (represents.disjoint qn pn c inDeque wasHere)
        simp [there qn same, elsewhere]
    · rw [if_neg wasHere]
      by_cases same : qn = pn
      · simp [same, here, member, owned, wasHere]
      · rw [there qn same, owned]

theorem Represents.locked (represents : Represents debug s a)
    (holds : a.holder pn = some w) : (s.deques pn).mutexOwner = some w :=
  (represents.holder pn).trans holds

/-- The owner of a closure is the deque it is in. -/
theorem Represents.owned (represents : Represents debug s a)
    (member : cl ∈ a.contents pn) :
    debug = true → decide ((s.closures cl).ownerReadyDeque = some pn) = true :=
  fun debugging => decide_eq_true ((represents.owner debugging cl pn).mpr member)

/-- A closure is taken out of a deque, and its neighbours are linked to each
other. -/
theorem Represents.extract {init : List ℕ} (represents : Represents debug s a)
    (isContents : a.contents pn = init ++ cl :: rest)
    (holder : ∀ qn, (t.deques qn).mutexOwner = (s.deques qn).mutexOwner)
    (others : ∀ qn, qn ≠ pn → t.deques qn = s.deques qn)
    (top : (t.deques pn).top = (init ++ rest).head?)
    (bottom : (t.deques pn).bottom = (init ++ rest).getLast?)
    (next : ∀ c, (t.closures c).nextReady =
      if init.getLast? = some c then rest.head? else (s.closures c).nextReady)
    (prev : ∀ c, (t.closures c).prevReady =
      if rest.head? = some c then init.getLast? else (s.closures c).prevReady)
    (owner : debug = true → ∀ c, (t.closures c).ownerReadyDeque =
      if c = cl then none else (s.closures c).ownerReadyDeque) :
    Represents debug t (a.setContents pn (init ++ rest)) := by
  have linked := represents.linked pn
  have nodup := represents.nodup pn
  rw [isContents] at linked nodup
  have member (c : ℕ) :
      c ∈ a.contents pn ↔ c = cl ∨ c ∈ init ++ rest := by
    rw [isContents]
    simp only [List.mem_append, List.mem_cons]
    grind
  have absent : cl ∉ init ++ rest :=
    (List.nodup_cons.mp (List.perm_middle.nodup_iff.mp nodup)).1
  have lastMember {c : ℕ} (isLast : init.getLast? = some c) :
      c ∈ init ++ rest :=
    List.mem_append_left _ (List.mem_of_getLast? isLast)
  have headMember {c : ℕ} (isHead : rest.head? = some c) : c ∈ init ++ rest :=
    List.mem_append_right _ (List.mem_of_mem_head? isHead)
  apply represents.setContents holder others top bottom
  case linked =>
    apply linked.remove nodup
    · exact fun c _ notHead => (prev c).trans (if_neg notHead)
    · exact fun c _ notLast => (next c).trans (if_neg notLast)
    · exact fun c isHead => (prev c).trans (if_pos isHead)
    · exact fun c isLast => (next c).trans (if_pos isLast)
  case nodup =>
    exact (List.nodup_cons.mp (List.perm_middle.nodup_iff.mp nodup)).2
  case apart =>
    intro qn other c remains elsewhere
    exact other (represents.disjoint qn pn c elsewhere
      ((member c).mpr (.inr remains)))
  case kept =>
    intro c _ outside
    constructor
    · exact (prev c).trans (if_neg fun isHead => outside (headMember isHead))
    · exact (next c).trans (if_neg fun isLast => outside (lastMember isLast))
  case owner =>
    intro debugging c
    have owned := represents.owner debugging c pn
    rw [owner debugging c]
    by_cases extracted : c = cl
    · simp [extracted, absent, member]
    · by_cases remains : c ∈ init ++ rest
      · rw [if_neg extracted, if_pos remains]
        exact owned.mpr ((member c).mpr (.inr remains))
      · have notHere : c ∉ a.contents pn := by simp [member, extracted, remains]
        rw [if_neg extracted, if_neg remains, if_neg notHere]

/-- A closure that is in no deque is put below the bottom of one. -/
theorem Represents.append (represents : Represents debug s a)
    (absent : ∀ qn, cl ∉ a.contents qn)
    (holder : ∀ qn, (t.deques qn).mutexOwner = (s.deques qn).mutexOwner)
    (others : ∀ qn, qn ≠ pn → t.deques qn = s.deques qn)
    (top : (t.deques pn).top = (a.contents pn ++ [cl]).head?)
    (bottom : (t.deques pn).bottom = some cl)
    (next : ∀ c, (t.closures c).nextReady =
      if c = cl then none
      else if (a.contents pn).getLast? = some c then some cl
      else (s.closures c).nextReady)
    (prev : ∀ c, (t.closures c).prevReady =
      if c = cl then (a.contents pn).getLast? else (s.closures c).prevReady)
    (owner : debug = true → ∀ c, (t.closures c).ownerReadyDeque =
      if c = cl then some pn else (s.closures c).ownerReadyDeque) :
    Represents debug t (a.setContents pn (a.contents pn ++ [cl])) := by
  have notHere : cl ∉ a.contents pn := absent pn
  have member (c : ℕ) :
      c ∈ a.contents pn ++ [cl] ↔ c ∈ a.contents pn ∨ c = cl := by simp
  have notAdded {c : ℕ} (inDeque : c ∈ a.contents pn) : c ≠ cl := by
    rintro rfl
    exact notHere inDeque
  apply represents.setContents holder others top
  case bottom => rw [bottom, List.getLast?_concat]
  case linked =>
    apply (represents.linked pn).add (represents.nodup pn)
    · exact (prev cl).trans (if_pos rfl)
    · exact (next cl).trans (if_pos rfl)
    · exact fun c inDeque => (prev c).trans (if_neg (notAdded inDeque))
    · intro c inDeque notLast
      exact (next c).trans ((if_neg (notAdded inDeque)).trans (if_neg notLast))
    · intro c isLast
      have inDeque := List.mem_of_getLast? isLast
      exact (next c).trans ((if_neg (notAdded inDeque)).trans (if_pos isLast))
  case nodup =>
    rw [List.nodup_append]
    refine ⟨represents.nodup pn, List.nodup_singleton cl, ?_⟩
    rintro c inDeque d isAdded rfl
    exact notAdded inDeque (List.mem_singleton.mp isAdded)
  case apart =>
    intro qn other c added elsewhere
    rcases (member c).mp added with inDeque | rfl
    · exact other (represents.disjoint qn pn c elsewhere inDeque)
    · exact absent qn elsewhere
  case kept =>
    intro c outside notIn
    have different : c ≠ cl := fun same => notIn ((member c).mpr (.inr same))
    have notLast : (a.contents pn).getLast? ≠ some c :=
      fun isLast => outside (List.mem_of_getLast? isLast)
    rw [prev, next, if_neg different, if_neg different, if_neg notLast]
    exact ⟨rfl, rfl⟩
  case owner =>
    intro debugging c
    rw [owner debugging c]
    by_cases added : c = cl
    · simp [added]
    by_cases inDeque : c ∈ a.contents pn
    · rw [if_neg added, if_pos ((member c).mpr (.inl inDeque))]
      exact (represents.owner debugging c pn).mpr inDeque
    · have outside : c ∉ a.contents pn ++ [cl] := by simp [inDeque, added]
      rw [if_neg added, if_neg outside, if_neg inDeque]

theorem dequeXtractTop_refines (represents : Represents debug s a)
    (holds : a.holder pn = some w) :
    ∃ t, dequeXtractTop debug s w pn = some (t, (a.contents pn).head?) ∧
      Represents debug t (a.setContents pn (a.contents pn).tail) := by
  have asserted := @dequeAssertOwnership_of debug s pn w
    (represents.locked holds)
  have top := represents.top pn
  have bottom := represents.bottom pn
  cases isContents : a.contents pn with
  | nil =>
      rw [isContents] at top bottom
      refine ⟨s, ?_, (a.setContents_self isContents).symm ▸ represents⟩
      rw [dequeXtractTop, asserted]
      simp [top, bottom, cilkAssert]
  | cons cl rest =>
      have owned := represents.owned (isContents ▸ List.mem_cons_self)
      have linked := represents.linked pn
      have nodup := represents.nodup pn
      rw [isContents] at top bottom linked nodup
      obtain ⟨-, isNext⟩ := @Linked.links _ _ _ [] rest cl linked
      cases rest with
      | nil =>
          refine ⟨debugOwner debug ((s.setTop pn none).setBottom pn none) cl
            none, ?_, ?_⟩
          · rw [dequeXtractTop, asserted]
            simp [top, bottom, isNext, cilkAssert_of owned]
          · apply @Represents.extract _ _ _ _ _ _ _ [] represents isContents
            case owner => exact fun debugging c => debugOwner_owner debugging
            all_goals simp +contextual [apply_ite]
      | cons second rest =>
          have notLast : (second :: rest).getLast? ≠ some cl := fun isLast =>
            (List.nodup_cons.mp nodup).1 (List.mem_of_getLast? isLast)
          rw [List.getLast?_cons_cons] at bottom
          refine ⟨debugOwner debug ((s.setTop pn (some second)).setPrev second
            none) cl none, ?_, ?_⟩
          · rw [dequeXtractTop, asserted]
            simp [top, bottom, isNext, cilkAssert_of owned, Ne.symm notLast]
          · apply @Represents.extract _ _ _ _ _ _ _ [] represents isContents
            case owner =>
              intro debugging c
              rw [debugOwner_owner debugging]
              simp
            all_goals simp +contextual [apply_ite, bottom, eq_comm]

theorem dequeXtractBottom_refines (represents : Represents debug s a)
    (holds : a.holder pn = some w) :
    ∃ t, dequeXtractBottom debug s w pn =
        some (t, (a.contents pn).getLast?) ∧
      Represents debug t (a.setContents pn (a.contents pn).dropLast) := by
  have asserted := @dequeAssertOwnership_of debug s pn w
    (represents.locked holds)
  have top := represents.top pn
  have bottom := represents.bottom pn
  rcases List.eq_nil_or_concat (a.contents pn) with
    isContents | ⟨init, cl, isContents⟩
  · rw [isContents] at top bottom ⊢
    refine ⟨s, ?_, (a.setContents_self isContents).symm ▸ represents⟩
    rw [dequeXtractBottom, asserted]
    simp [top, bottom, cilkAssert]
  rw [List.concat_eq_append] at isContents
  have isMember : cl ∈ a.contents pn := by
    rw [isContents]
    exact List.mem_append_right _ List.mem_cons_self
  have owned := represents.owned isMember
  have linked := represents.linked pn
  have nodup := represents.nodup pn
  rw [isContents] at top bottom linked nodup ⊢
  obtain ⟨isPrev, -⟩ := @Linked.links _ _ _ init [] cl linked
  rw [List.getLast?_concat] at bottom ⊢
  rw [List.dropLast_concat, ← List.append_nil init]
  rcases List.eq_nil_or_concat init with rfl | ⟨init, second, rfl⟩
  · refine ⟨debugOwner debug ((s.setBottom pn none).setTop pn none) cl none,
      ?_, ?_⟩
    · rw [dequeXtractBottom, asserted]
      simp [top, bottom, isPrev, cilkAssert_of owned]
    · apply represents.extract isContents
      case owner => exact fun debugging c => debugOwner_owner debugging
      all_goals simp +contextual [apply_ite]
  · rw [List.concat_eq_append] at isContents top isPrev nodup ⊢
    rw [List.getLast?_concat] at isPrev
    obtain ⟨first, isFirst⟩ : ∃ first, (init ++ [second]).head? = some first :=
      by cases init <;> exact ⟨_, rfl⟩
    have isTop : (init ++ [second] ++ [cl]).head? = some first := by
      rw [List.head?_append, isFirst, Option.some_or]
    rw [isTop] at top
    have notFirst : cl ≠ first := by
      rintro rfl
      have member : cl ∈ init ++ [second] := List.mem_of_mem_head? isFirst
      exact (List.nodup_append.mp nodup).2.2 cl member cl List.mem_cons_self
        rfl
    refine ⟨debugOwner debug ((s.setBottom pn (some second)).setNext second
      none) cl none, ?_, ?_⟩
    · rw [dequeXtractBottom, asserted]
      simp [top, bottom, isPrev, cilkAssert_of owned, notFirst]
    · apply represents.extract isContents
      case owner =>
        intro debugging c
        rw [debugOwner_owner debugging]
        simp
      case top =>
        rw [List.append_nil, isFirst]
        simp [top]
      all_goals simp +contextual [apply_ite, eq_comm]

theorem dequePeekTop_refines (represents : Represents debug s a)
    (holds : a.holder pn = some w) :
    dequePeekTop debug s w pn = some (s, (a.contents pn).head?) := by
  have top := represents.top pn
  have bottom := represents.bottom pn
  rw [dequePeekTop, dequeAssertOwnership_of (represents.locked holds)]
  cases isContents : a.contents pn with
  | nil =>
      rw [isContents] at top bottom
      simp [top, bottom]
  | cons cl rest =>
      have owned := represents.owned (isContents ▸ List.mem_cons_self)
      rw [isContents] at top
      have asserted : cilkAssert debug
          (decide ((s.closures cl).ownerReadyDeque = some pn) ||
            (w != pn && cl == s.rootClosure)) = some () :=
        cilkAssert_of fun debugging => by rw [owned debugging]; rfl
      simp [top, asserted]

theorem dequePeekBottom_refines (represents : Represents debug s a)
    (holds : a.holder pn = some w) :
    dequePeekBottom debug s w pn = some (s, (a.contents pn).getLast?) := by
  have top := represents.top pn
  have bottom := represents.bottom pn
  rw [dequePeekBottom, dequeAssertOwnership_of (represents.locked holds)]
  rcases List.eq_nil_or_concat (a.contents pn) with
    isContents | ⟨init, cl, isContents⟩
  · rw [isContents] at top bottom ⊢
    simp [top, bottom]
  · rw [List.concat_eq_append] at isContents
    have isMember : cl ∈ a.contents pn := by
      rw [isContents]
      exact List.mem_append_right _ List.mem_cons_self
    have owned := represents.owned isMember
    rw [isContents] at bottom ⊢
    simp [bottom, cilkAssert_of owned]

theorem dequeAddBottom_refines (represents : Represents debug s a)
    (holds : a.holder pn = some w) (absent : ∀ qn, cl ∉ a.contents qn) :
    ∃ t, dequeAddBottom debug s w cl pn = some t ∧
      Represents debug t (a.setContents pn (a.contents pn ++ [cl])) := by
  have asserted := @dequeAssertOwnership_of debug s pn w
    (represents.locked holds)
  have notOwned : debug = true →
      decide ((s.closures cl).ownerReadyDeque = none) = true := by
    intro debugging
    rw [decide_eq_true_iff, Option.eq_none_iff_forall_ne_some]
    intro qn isOwned
    exact absent qn ((represents.owner debugging cl qn).mp isOwned)
  have top := represents.top pn
  have bottom := represents.bottom pn
  rcases List.eq_nil_or_concat (a.contents pn) with
    isContents | ⟨init, last, isContents⟩
  · rw [isContents] at top bottom
    refine ⟨(debugOwner debug (((s.setPrev cl none).setNext cl none).setBottom
      pn (some cl)) cl (some pn)).setTop pn (some cl), ?_, ?_⟩
    · rw [dequeAddBottom, asserted, cilkAssert_of notOwned]
      simp [top, bottom]
    · apply represents.append absent
      case owner =>
        intro debugging c
        rw [setTop_closures, debugOwner_owner debugging]
        simp
      all_goals simp +contextual [isContents, apply_ite]
  · rw [List.concat_eq_append] at isContents
    have notLast : last ≠ cl := by
      rintro rfl
      exact absent pn (by simp [isContents])
    obtain ⟨first, isFirst⟩ : ∃ first, (a.contents pn).head? = some first := by
      rw [isContents]
      cases init <;> exact ⟨_, rfl⟩
    have isLast : (a.contents pn).getLast? = some last := by
      rw [isContents, List.getLast?_concat]
    rw [isFirst] at top
    rw [isLast] at bottom
    refine ⟨(debugOwner debug (((s.setPrev cl (some last)).setNext cl
      none).setBottom pn (some cl)) cl (some pn)).setNext last (some cl),
      ?_, ?_⟩
    · rw [dequeAddBottom, asserted, cilkAssert_of notOwned]
      simp [top, bottom]
    · apply represents.append absent
      case owner =>
        intro debugging c
        rw [setNext_owner, debugOwner_owner debugging]
        simp
      case next =>
        intro c
        by_cases added : c = cl
        · simp [added, notLast.symm]
        · simp [added, isLast, eq_comm]
      case top =>
        rw [List.head?_append, isFirst]
        simp [top]
      all_goals simp +contextual [isLast, apply_ite]

/-- A lock changes hands. -/
theorem Represents.setHolder {holder : Option ℕ}
    (represents : Represents debug s a) :
    Represents debug (s.setMutexOwner pn holder) (a.setHolder pn holder) := by
  obtain ⟨held, top, bottom, linked, nodup, disjoint, owner⟩ := represents
  constructor
  case holder =>
    intro qn
    simp only [setMutexOwner_apply, Sequences.setHolder,
      Function.update_apply]
    split
    · rfl
    · exact held qn
  case top =>
    intro qn
    rw [setMutexOwner_apply]
    split
    case isTrue same => exact same ▸ top qn
    case isFalse => exact top qn
  case bottom =>
    intro qn
    rw [setMutexOwner_apply]
    split
    case isTrue same => exact same ▸ bottom qn
    case isFalse => exact bottom qn
  case linked => exact linked
  case nodup => exact nodup
  case disjoint => exact disjoint
  case owner => exact owner

/-- Every call that is allowed does what it does to the sequences. -/
theorem Sequences.Step.refines {call : Call}
    (taken : a.Step (call, result) b) (represents : Represents debug s a) :
    ∃ t, s.perform debug call = some (t, result) ∧ Represents debug t b := by
  cases taken with
  | @lock w pn isFree =>
      refine ⟨_, ?_, represents.setHolder⟩
      rw [State.perform, dequeLock, represents.holder pn, isFree]
      rfl
  | unlock isHeld => exact ⟨_, rfl, represents.setHolder⟩
  | addBottom isHeld absent =>
      obtain ⟨t, added, represented⟩ :=
        dequeAddBottom_refines represents isHeld absent
      exact ⟨t, by rw [State.perform, added]; rfl, represented⟩
  | xtractTop isHeld => exact dequeXtractTop_refines represents isHeld
  | xtractBottom isHeld => exact dequeXtractBottom_refines represents isHeld
  | peekTop isHeld =>
      exact ⟨s, dequePeekTop_refines represents isHeld, represents⟩
  | peekBottom isHeld =>
      exact ⟨s, dequePeekBottom_refines represents isHeld, represents⟩

theorem State.performAll_concat {calls : List Call} {call : Call}
    {results : List (Option ℕ)} {r : State}
    (earlier : s.performAll debug calls = some (t, results))
    (last : t.perform debug call = some (r, result)) :
    s.performAll debug (calls ++ [call]) =
      some (r, results ++ [result]) := by
  induction calls generalizing s results with
  | nil =>
      cases earlier
      rw [List.nil_append, State.performAll, last]
      rfl
  | cons first calls induction =>
      rw [State.performAll] at earlier
      simp only [Option.bind_eq_bind, Option.bind_eq_some_iff, Prod.exists,
        Option.pure_def] at earlier
      obtain ⟨next, firstResult, performed, final, later, rest, same⟩ := earlier
      cases same
      rw [List.cons_append, State.performAll, performed]
      simp [induction rest]

/-- At the start all deques are empty, whatever the links of the closures. -/
theorem represents_empty (empty : ∀ pn, s.deques pn = ⟨none, none, none⟩)
    (unowned : ∀ c, (s.closures c).ownerReadyDeque = none) :
    Represents debug s ⟨fun _ => [], fun _ => none⟩ := by
  constructor <;> simp [empty, unowned, Linked, Segment]

end Refinement

/-- In every sequence of calls under the locks, no assertion fails, and every
call returns and does what it does to the sequences, which can be read along the
links in either direction. -/
theorem ready_deques_refine (debug : Bool) (s : State) (a : Sequences)
    (trace : List (Sequences × (Call × Option ℕ)))
    (empty : ∀ pn, s.deques pn = ⟨none, none, none⟩)
    (unowned : ∀ c, (s.closures c).ownerReadyDeque = none)
    (run : Run Sequences.Step ⟨fun _ => [], fun _ => none⟩ trace a) :
    ∃ t, s.performAll debug (trace.map fun entry => entry.2.1) =
        some (t, trace.map fun entry => entry.2.2) ∧
      Represents debug t a ∧
      ∀ pn, Follows (fun c => (t.closures c).nextReady) (t.deques pn).top
          (a.contents pn) ∧
        Follows (fun c => (t.closures c).prevReady) (t.deques pn).bottom
          (a.contents pn).reverse := by
  obtain ⟨t, performed, represents⟩ : ∃ t,
      s.performAll debug (trace.map fun entry => entry.2.1) =
        some (t, trace.map fun entry => entry.2.2) ∧
      Represents debug t a := by
    induction run with
    | refl => exact ⟨s, rfl, represents_empty empty unowned⟩
    | snoc _ last induction =>
        obtain ⟨t, performed, represents⟩ := induction
        obtain ⟨r, call, represented⟩ := last.refines represents
        refine ⟨r, ?_, represented⟩
        rw [List.map_append, List.map_append]
        exact State.performAll_concat performed call
  refine ⟨t, performed, represents, fun pn => ⟨?_, ?_⟩⟩
  · rw [represents.top pn]
    exact (represents.linked pn).follows
  · rw [represents.bottom pn]
    exact (represents.linked pn).follows_reverse

/-- All deques are empty, and every closure points to itself. -/
def staleLinks : State where
  closures := fun c => ⟨none, some c, some c⟩
  deques := fun _ => ⟨none, none, none⟩
  rootClosure := 0

/-- A closure travels from one deque to another. -/
theorem ready_deques_refine_travel :
    ∃ t, staleLinks.performAll true
        [.lock 0 0, .addBottom 0 5 0, .xtractTop 0 0, .lock 0 1,
          .addBottom 0 5 1] =
      some (t, [none, none, some 5, none, none]) ∧
    Follows (fun c => (t.closures c).prevReady) (t.deques 1).bottom [5] := by
  have run : Run Sequences.Step ⟨fun _ => [], fun _ => none⟩ _ _ :=
    ((((Run.refl.snoc (@Sequences.Step.lock _ 0 0 rfl)).snoc
      (@Sequences.Step.addBottom _ 0 5 0 rfl fun _ => List.not_mem_nil)).snoc
      (@Sequences.Step.xtractTop _ 0 0 rfl)).snoc
      (@Sequences.Step.lock _ 0 1 rfl)).snoc
      (@Sequences.Step.addBottom _ 0 5 1 rfl (by
        intro qn
        simp [Sequences.setHolder, Sequences.setContents]))
  obtain ⟨t, performed, -, follows⟩ := ready_deques_refine true staleLinks _ _
    (fun _ => rfl) (fun _ => rfl) run
  exact ⟨t, performed, (follows 1).2⟩

end Multicilk.Deque
