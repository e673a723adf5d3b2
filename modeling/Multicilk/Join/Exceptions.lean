import Mathlib.Data.Multiset.Basic
import Mathlib.Algebra.Order.Group.Multiset
import Mathlib.Tactic.Abel
import Multicilk.Join.Resumption
import Multicilk.Support.First
import Multicilk.Support.SiblingReduction

/-!
# The exceptions of a family

Exceptions go from right to left through the slots of the siblings, as maps do,
but in a loop of their own.  A round ends when the frame goes on after a sync.
Only the exception check empties the slot of the parent, and it is not called
when the frame gets from the sync the exception that it has thrown itself.  This
exception stays in the slot, where the next round finds it.
-/

namespace Multicilk.Join

open SiblingReduction TransitionSystem

variable {M E : Type*}

/-- An exception slot as a collection of exceptions. -/
def kept (exn : Option E) : Multiset E := exn.toList

@[simp] theorem kept_none : kept (none : Option E) = 0 := rfl

@[simp] theorem kept_some (exn : E) : kept (some exn) = {exn} := rfl

theorem kept_eq_zero {exn : Option E} : kept exn = 0 ↔ exn = none := by
  cases exn <;> simp [kept]

/-- The exceptions that a child or its worker has, until they are left in the
slot on the left, and those in its right slot. -/
def Child.exns (child : Child M E) : Multiset E :=
  (match child.pc with
  | .running _ | .exceptionLoop _ => kept child.userExn
  | .exceptionUnlocked _ left right =>
      kept left + kept child.userExn + kept right
  | .reducerLoop _ | .reducerUnlocked _ _ _ => 0) + kept child.rightExn

def exnsOf (children : List (Child M E)) : Multiset E :=
  (children.map Child.exns).sum

def Strand.isIdle : Strand M → Bool
  | .syncing _ | .parked => false
  | _ => true

/-- What the slot of the parent has to do with this round.  Until the frame gets
to the sync, an exception in this slot is from an earlier round. -/
def Family.ownExn (family : Family M E) : Option E :=
  if family.syncs = 0 ∧ family.strand.isIdle = true then none
  else family.parent.userExn

/-- The exceptions that the family has. -/
def Family.exns (family : Family M E) : Multiset E :=
  kept family.parent.childExn + exnsOf family.children + kept family.ownExn

/-- The exception of the serially leftmost thrower. -/
def Family.firstThrown (family : Family M E) : Option E :=
  (List.range (tracePosition family.spawned + 1)).findSome? fun position =>
    family.thrown.lookup position

/-- What is promised of the exceptions.  Every one of them is kept or deleted,
and just once.  The first one is left when the sync has been passed. -/
structure ExceptionsKept (s : Family M E) : Prop where
  accounted : s.exns + s.deleted = (s.thrown.map Prod.snd : List E)
  leftmost : 0 < s.syncs → s.parent.userExn = s.firstThrown
  nobody : 0 < s.syncs → (s.parent.userExn = none ↔ s.thrown = [])
  pending : 0 < s.syncs → ∀ entry ∈ s.thrown, ∀ spawnIndex,
    entry.1 = childPosition spawnIndex → s.parent.exceptionPending = true
  others : 0 < s.syncs →
    kept s.parent.userExn + s.deleted = (s.thrown.map Prod.snd : List E)

/-- The frame goes on after a sync, and what it throws from now on is kept
apart from what has been thrown before. -/
def Family.newRound (family : Family M E) : Family M E :=
  { family with
    thrown := []
    deleted := []
    syncs := 0 }

/-- The exception with which the continuation got to the sync. -/
def Family.traceExn (family : Family M E) : Option E :=
  family.thrown.lookup (tracePosition family.spawned)

/-- The exception check is called after a sync, by the frame if it has an
exception pending, and by the personality function if the sync has left another
exception than the one that is being handled. -/
def Family.ChecksException (family : Family M E) : Prop :=
  match family.traceExn with
  | none => family.parent.exceptionPending = true
  | some exn =>
      family.parent.userExn ≠ none ∧ family.parent.userExn ≠ some exn

inductive RoundAction (M E : Type*) where
  | join (action : Action M E)
  /-- The frame goes on after a sync without an exception check. -/
  | goOn

/-- The steps of a family in rounds. -/
inductive RoundStep [Monoid M] :
    Family M E → RoundAction M E → Family M E → Prop where
  /-- Before the sync, only the personality function calls the check, when the
  frame throws and its slot has an exception of an earlier round. -/
  | step {s next : Family M E} {action : Action M E} :
      s.syncs = 0 → (action = .checkException → s.parent.userExn ≠ none) →
      Step false s action next → RoundStep s (.join action) next
  | execute {s next : Family M E} :
      0 < s.syncs → Step false s .execute next →
      RoundStep s (.join .execute) next
  | checkException {s next : Family M E} :
      0 < s.syncs → s.ChecksException → Step false s .checkException next →
      RoundStep s (.join .checkException) next.newRound
  | goOn {s : Family M E} {map : Option M} :
      0 < s.syncs → ¬ s.ChecksException → s.strand = .running map →
      RoundStep s .goOn s.newRound

/-- A child that is going to be unlinked has no exception in its right slot. -/
def UnlinksClean (s : Family M E) (action : RoundAction M E) : Prop :=
  ∀ younger child older map, s.children = younger ++ child :: older →
    child.pc = .reducerLoop map →
    action = .join (.reducerIteration child.spawnIndex) →
    leftRmap s.parent older = none → child.rightRmap = none →
    child.rightExn = none

/-- A frame that gets to a sync without throwing has no exception in its
slot. -/
def SyncsClean (s : Family M E) (action : RoundAction M E) : Prop :=
  action = .join (.sync none) → s.parent.userExn = none

/-- No slot is given up, or taken for one of this round, with an exception that
does not belong there. -/
def SlotsClean (s : Family M E) (action : RoundAction M E) : Prop :=
  UnlinksClean s action ∧ SyncsClean s action

section OwnException

variable {s : Family M E}

theorem ownExn_idle (round : s.syncs = 0) (idle : s.strand.isIdle = true) :
    s.ownExn = none := by
  rw [Family.ownExn, if_pos ⟨round, idle⟩]

theorem ownExn_syncing (syncing : s.strand.isIdle = false) :
    s.ownExn = s.parent.userExn := by
  simp [Family.ownExn, syncing]

theorem ownExn_passed (past : 0 < s.syncs) : s.ownExn = s.parent.userExn := by
  rw [Family.ownExn, if_neg]
  rintro ⟨round, -⟩
  exact absurd round (Nat.ne_of_gt past)

theorem Strand.isIdle_of_isParked {strand : Strand M}
    (parked : strand.isParked = true) : strand.isIdle = false := by
  cases strand <;> first | rfl | cases parked

end OwnException

section Accounting

variable {parent : Parent M E} {exn : Option E} {younger older : List (Child M E)}
  {child : Child M E}

theorem exnsOf_append :
    exnsOf (younger ++ child :: older) =
      exnsOf younger + child.exns + exnsOf older := by
  simp [exnsOf, add_assoc]

/-- The slot on the left and the rest of what the older siblings have. -/
theorem kept_storeLeftExn :
    kept (storeLeftExn exn parent older).1.childExn +
        exnsOf (storeLeftExn exn parent older).2 + kept (leftExn parent older) =
      kept parent.childExn + exnsOf older + kept exn := by
  cases older with
  | nil =>
      simp only [storeLeftExn, leftExn, exnsOf, List.map_nil, List.sum_nil]
      abel
  | cons sibling older =>
      simp only [storeLeftExn, leftExn, exnsOf, List.map_cons, List.sum_cons,
        Child.exns]
      abel

theorem kept_reduceException (parent : Parent M E) :
    kept parent.reduceException.childExn + kept parent.reduceException.userExn +
        parent.replacedException =
      kept parent.childExn + kept parent.userExn := by
  rw [Parent.reduceException_eq, Parent.replacedException]
  cases parent.childExn with
  | none => simp
  | some exn => simp [kept]

theorem kept_reduceExceptions (left user right : Option E) :
    kept (reduceExceptions left user right).1 +
        (reduceExceptions left user right).2 =
      kept left + kept user + kept right := by
  cases left <;> cases user <;>
    simp only [reduceExceptions, kept_none, kept_some, ← Multiset.coe_add] <;>
    simp [kept]

variable [Monoid M] {s middle : Family M E}

/-- The exceptions stay with the family when the last child resumes the
parent. -/
theorem exns_resume {parent : Parent M E}
    (real : parent.simulatedStolen = false)
    (sameChild : parent.childExn = s.parent.childExn)
    (sameOwn : parent.userExn = s.ownExn) :
    (s.resume parent).exns + (s.resume parent).deleted =
      s.exns + s.deleted := by
  have reduced := kept_reduceException parent
  rw [sameChild, sameOwn] at reduced
  have passed : (s.resume parent).ownExn = parent.reduceException.userExn := by
    apply ownExn_passed
    simp [Family.resume, real]
  rw [Family.exns, passed]
  simp only [Family.exns, Family.resume, ← Multiset.coe_add]
  calc
    _ = kept parent.reduceException.childExn +
          kept parent.reduceException.userExn + parent.replacedException +
          exnsOf s.children + s.deleted := by abel
    _ = _ := by
      rw [reduced]
      abel

theorem Joined.exns_finishReturn (joined : Joined false s)
    (same : SameJoin s middle) (sameStrand : middle.strand = s.strand)
    (linked : s.children.length = middle.children.length + 1) :
    middle.finishReturn.exns + middle.finishReturn.deleted =
      middle.exns + middle.deleted := by
  have real : middle.parent.simulatedStolen = false := by
    rw [same.simulated, ← Bool.not_eq_true]
    exact fun stolen => absurd (joined.simulated stolen) Bool.false_ne_true
  rcases joined.finishReturn_cases same linked with
    ⟨-, -, result⟩ | ⟨parked, -, -, -, unsynched, result⟩
  · rw [result]
    rfl
  · have syncing : middle.strand.isIdle = false := by
      rw [sameStrand]
      exact Strand.isIdle_of_isParked parked
    rw [result]
    exact exns_resume real rfl (ownExn_syncing syncing).symm

end Accounting

end Multicilk.Join
