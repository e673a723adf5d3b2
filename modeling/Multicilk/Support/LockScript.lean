import Mathlib.Data.List.Nodup
import Mathlib.Logic.Relation
import Multicilk.Support.Run

/-!
# Threads that take locks

A thread follows a script of lock operations, of changes to a shared state and
of looks at it.  When every thread asks only for locks that come after all those
it holds, no threads wait for each other in a circle.
-/

namespace LockScript

variable {State : Type u} {Lock : Type v} {Label : Type x}

inductive Script (State : Type u) (Lock : Type v) (Label : Type x) where
  | goto (label : Label)
  | lock (lock : Lock) (next : Script State Lock Label)
  | tryLock (lock : Lock) (taken failed : Script State Lock Label)
  | unlock (lock : Lock) (next : Script State Lock Label)
  | act (change : State → State → Prop) (next : Script State Lock Label)
  | look (next : State → Script State Lock Label)
  | choose (next : ℕ → Script State Lock Label)
  | stop

structure Threads (State : Type u) (Lock : Type v) (Label : Type x) where
  state : State
  owner : Lock → Option ℕ
  script : ℕ → Script State Lock Label

namespace Threads

def resume (m : Threads State Lock Label) (w : ℕ)
    (next : Script State Lock Label) : Threads State Lock Label :=
  { m with script := Function.update m.script w next }

def own [DecidableEq Lock] (m : Threads State Lock Label) (lock : Lock)
    (w : Option ℕ) : Threads State Lock Label :=
  { m with owner := Function.update m.owner lock w }

/-- A thread is blocked by the owner of the lock it asks for. -/
def WaitsFor (m : Threads State Lock Label) (w v : ℕ) : Prop :=
  ∃ lock next, m.script w = .lock lock next ∧ m.owner lock = some v

end Threads

open Threads

inductive Step [DecidableEq Lock]
    (program : ℕ → Label → Script State Lock Label) :
    Threads State Lock Label → ℕ → Threads State Lock Label → Prop where
  | goto {m : Threads State Lock Label} {w : ℕ} {label : Label} :
      m.script w = .goto label →
      Step program m w (m.resume w (program w label))
  | lock {m : Threads State Lock Label} {w : ℕ} {lock : Lock}
      {next : Script State Lock Label} :
      m.script w = .lock lock next →
      m.owner lock = none →
      Step program m w ((m.own lock (some w)).resume w next)
  | tryTaken {m : Threads State Lock Label} {w : ℕ} {lock : Lock}
      {taken failed : Script State Lock Label} :
      m.script w = .tryLock lock taken failed →
      m.owner lock = none →
      Step program m w ((m.own lock (some w)).resume w taken)
  | tryFailed {m : Threads State Lock Label} {w : ℕ} {lock : Lock}
      {taken failed : Script State Lock Label} :
      m.script w = .tryLock lock taken failed →
      m.owner lock ≠ none →
      Step program m w (m.resume w failed)
  | unlock {m : Threads State Lock Label} {w : ℕ} {lock : Lock}
      {next : Script State Lock Label} :
      m.script w = .unlock lock next →
      Step program m w ((m.own lock none).resume w next)
  | act {m : Threads State Lock Label} {w : ℕ}
      {change : State → State → Prop} {next : Script State Lock Label}
      {state : State} :
      m.script w = .act change next →
      change m.state state →
      Step program m w ({ m with state := state }.resume w next)
  | look {m : Threads State Lock Label} {w : ℕ}
      {next : State → Script State Lock Label} :
      m.script w = .look next →
      Step program m w (m.resume w (next m.state))
  | choose {m : Threads State Lock Label} {w : ℕ}
      {next : ℕ → Script State Lock Label} (n : ℕ) :
      m.script w = .choose next →
      Step program m w (m.resume w (next n))

/-- What a thread that holds some locks relies on, in which order it asks for
them, which it may hold together, and what holds at a label. -/
structure Contract (State : Type u) (Lock : Type v) (Label : Type x) where
  sound : State → Prop
  rely : List Lock → State → State → Prop
  before : State → Lock → Lock → Prop
  fits : List Lock → Prop
  expects : ℕ → Label → State → List Lock → Prop
  refl : ∀ held s, rely held s s
  trans : ∀ held s t u, rely held s t → rely held t u → rely held s u
  weaken : ∀ held fewer s t, (∀ lock ∈ fewer, lock ∈ held) →
    rely held s t → rely fewer s t
  stable : ∀ w label held s t, sound t → rely held s t →
    expects w label s held → expects w label t held
  empty : fits []
  fewer : ∀ held fewer, (∀ lock ∈ fewer, lock ∈ held) → fits held → fits fewer

/-- What the holder of some locks does, no one else minds. -/
def Contract.Allows (contract : Contract State Lock Label) (held : List Lock)
    (s t : State) : Prop :=
  contract.sound t ∧
    ∀ other, (∀ lock ∈ other, lock ∉ held) → contract.rely other s t

/-- The script keeps to the contract when it goes on in the state with these
locks. -/
def Script.Keeps [DecidableEq Lock] (contract : Contract State Lock Label)
    (w : ℕ) : Script State Lock Label → State → List Lock → Prop
  | .goto label, s, held => contract.expects w label s held
  | .lock l next, s, held => ∀ t, contract.sound t →
      contract.rely held s t →
      (∀ h ∈ held, contract.before t h l) ∧ contract.fits (l :: held) ∧
        next.Keeps contract w t (l :: held)
  | .tryLock l taken failed, s, held => ∀ t, contract.sound t →
      contract.rely held s t →
      contract.fits (l :: held) ∧ taken.Keeps contract w t (l :: held) ∧
        failed.Keeps contract w t held
  | .unlock l next, s, held =>
      l ∈ held ∧ next.Keeps contract w s (held.erase l)
  | .act change next, s, held => ∀ t u, contract.sound t →
      contract.rely held s t → change t u →
      contract.Allows held t u ∧ next.Keeps contract w u held
  | .look next, s, held => ∀ t, contract.sound t →
      contract.rely held s t → (next t).Keeps contract w t held
  | .choose next, s, held => ∀ n, (next n).Keeps contract w s held
  | .stop, _, _ => True

variable [DecidableEq Lock] {contract : Contract State Lock Label}
  {script next : Script State Lock Label} {s t : State} {held : List Lock}
  {lock : Lock} {w v : ℕ}

/-- A script does not mind what it relies on the others for. -/
theorem Script.Keeps.stable (keeps : script.Keeps contract w s held)
    (sound : contract.sound t) (rely : contract.rely held s t) :
    script.Keeps contract w t held := by
  induction script generalizing held with
  | goto label => exact contract.stable w label held s t sound rely keeps
  | lock lock next =>
      intro u later goesOn
      exact keeps u later (contract.trans _ _ _ _ rely goesOn)
  | tryLock lock taken failed =>
      intro u later goesOn
      exact keeps u later (contract.trans _ _ _ _ rely goesOn)
  | unlock lock next induction =>
      refine ⟨keeps.1, induction keeps.2 ?_⟩
      exact contract.weaken _ _ _ _ (fun _ => List.mem_of_mem_erase) rely
  | act change next =>
      intro u v later goesOn
      exact keeps u v later (contract.trans _ _ _ _ rely goesOn)
  | look next =>
      intro u later goesOn
      exact keeps u later (contract.trans _ _ _ _ rely goesOn)
  | choose next induction => exact fun n => induction n (keeps n) rely
  | stop => trivial

/-- Every thread keeps to the contract with the locks that it owns. -/
structure Kept (contract : Contract State Lock Label)
    (m : Threads State Lock Label) (held : ℕ → List Lock) : Prop where
  sound : contract.sound m.state
  keeps : ∀ w, (m.script w).Keeps contract w m.state (held w)
  owns : ∀ w lock, lock ∈ held w ↔ m.owner lock = some w
  nodup : ∀ w, (held w).Nodup
  fits : ∀ w, contract.fits (held w)

variable {m m' start : Threads State Lock Label} {locks : ℕ → List Lock}
  {program : ℕ → Label → Script State Lock Label}

/-- A thread goes on with the same locks. -/
theorem Kept.resume (kept : Kept contract m locks)
    (keeps : next.Keeps contract w m.state (locks w)) :
    Kept contract (m.resume w next) locks := by
  refine ⟨kept.sound, fun v => ?_, kept.owns, kept.nodup, kept.fits⟩
  by_cases same : v = w
  · subst same
    simpa [Threads.resume] using keeps
  · simpa [Threads.resume, same] using kept.keeps v

theorem Kept.taken (kept : Kept contract m locks)
    (free : m.owner lock = none) (fits : contract.fits (lock :: locks w))
    (keeps : next.Keeps contract w m.state (lock :: locks w)) :
    Kept contract ((m.own lock (some w)).resume w next)
      (Function.update locks w (lock :: locks w)) := by
  have notHeld (v : ℕ) : lock ∉ locks v := by
    intro holds
    rw [kept.owns, free] at holds
    cases holds
  constructor
  case sound => exact kept.sound
  case keeps =>
    intro v
    by_cases same : v = w
    · subst same
      simpa [Threads.resume, Threads.own] using keeps
    · simpa [Threads.resume, Threads.own, same] using kept.keeps v
  case owns =>
    intro v other
    have owns := kept.owns v other
    by_cases same : v = w <;> by_cases isLock : other = lock
    · simp [Threads.resume, Threads.own, same, isLock]
    · simpa [Threads.resume, Threads.own, same, isLock] using same ▸ owns
    · have different : w ≠ v := Ne.symm same
      simp [Threads.resume, Threads.own, same, isLock, different, notHeld v]
    · simpa [Threads.resume, Threads.own, same, isLock] using owns
  case nodup =>
    intro v
    by_cases same : v = w
    · subst same
      simpa using ⟨notHeld v, kept.nodup v⟩
    · simpa [same] using kept.nodup v
  case fits =>
    intro v
    by_cases same : v = w
    · subst same
      simpa using fits
    · simpa [same] using kept.fits v

theorem Kept.given (kept : Kept contract m locks) (holds : lock ∈ locks w)
    (keeps : next.Keeps contract w m.state ((locks w).erase lock)) :
    Kept contract ((m.own lock none).resume w next)
      (Function.update locks w ((locks w).erase lock)) := by
  have owner := (kept.owns w lock).mp holds
  constructor
  case sound => exact kept.sound
  case keeps =>
    intro v
    by_cases same : v = w
    · subst same
      simpa [Threads.resume, Threads.own] using keeps
    · simpa [Threads.resume, Threads.own, same] using kept.keeps v
  case owns =>
    intro v other
    have owns := kept.owns v other
    have remains : other ∈ (locks w).erase lock ↔
        other ≠ lock ∧ other ∈ locks w := (kept.nodup w).mem_erase_iff
    by_cases same : v = w <;> by_cases isLock : other = lock
    · subst same
      simp [Threads.resume, Threads.own, isLock, (kept.nodup v).not_mem_erase]
    · subst same
      simpa [Threads.resume, Threads.own, isLock, remains] using owns
    · subst isLock
      rw [owner] at owns
      simpa [Threads.resume, Threads.own, same, Ne.symm same] using owns
    · simpa [Threads.resume, Threads.own, same, isLock] using owns
  case nodup =>
    intro v
    by_cases same : v = w
    · subst same
      simpa using (kept.nodup v).erase lock
    · simpa [same] using kept.nodup v
  case fits =>
    intro v
    by_cases same : v = w
    · subst same
      have fits := contract.fewer _ ((locks v).erase lock)
        (fun _ => List.mem_of_mem_erase) (kept.fits v)
      simpa using fits
    · simpa [same] using kept.fits v

/-- The others do not mind what a thread does. -/
theorem Kept.changed (kept : Kept contract m locks)
    (allows : contract.Allows (locks w) m.state t)
    (keeps : next.Keeps contract w t (locks w)) :
    Kept contract ({ m with state := t }.resume w next) locks := by
  refine ⟨allows.1, fun v => ?_, kept.owns, kept.nodup, kept.fits⟩
  by_cases same : v = w
  · subst same
    simpa [Threads.resume] using keeps
  · have apart (lock : Lock) (holds : lock ∈ locks v) : lock ∉ locks w := by
      intro alsoHolds
      have first := (kept.owns v lock).mp holds
      rw [(kept.owns w lock).mp alsoHolds] at first
      exact same (Option.some.inj first).symm
    have stable := (kept.keeps v).stable allows.1 (allows.2 _ apart)
    simpa [Threads.resume, same] using stable

theorem Kept.step (kept : Kept contract m locks)
    (correct : ∀ w label s held, contract.sound s →
      contract.expects w label s held →
      (program w label).Keeps contract w s held)
    (taken : Step program m w m') : ∃ locks, Kept contract m' locks := by
  have keeps := kept.keeps w
  have refl := contract.refl (locks w) m.state
  cases taken with
  | goto script =>
      rw [script] at keeps
      exact ⟨locks, kept.resume (correct _ _ _ _ kept.sound keeps)⟩
  | lock script free =>
      rw [script] at keeps
      obtain ⟨-, fits, goesOn⟩ := keeps _ kept.sound refl
      exact ⟨_, kept.taken free fits goesOn⟩
  | tryTaken script free =>
      rw [script] at keeps
      obtain ⟨fits, goesOn, -⟩ := keeps _ kept.sound refl
      exact ⟨_, kept.taken free fits goesOn⟩
  | tryFailed script busy =>
      rw [script] at keeps
      exact ⟨locks, kept.resume (keeps _ kept.sound refl).2.2⟩
  | unlock script =>
      rw [script] at keeps
      exact ⟨_, kept.given keeps.1 keeps.2⟩
  | act script changes =>
      rw [script] at keeps
      obtain ⟨allows, goesOn⟩ := keeps _ _ kept.sound refl changes
      exact ⟨locks, kept.changed allows goesOn⟩
  | look script =>
      rw [script] at keeps
      exact ⟨locks, kept.resume (keeps _ kept.sound refl)⟩
  | choose n script =>
      rw [script] at keeps
      exact ⟨locks, kept.resume (keeps n)⟩

/-- All locks that a thread holds come before the one it asks for. -/
theorem Kept.ordered (kept : Kept contract m locks)
    (asks : m.script w = .lock lock next) {h : Lock}
    (owns : m.owner h = some w) : contract.before m.state h lock := by
  have keeps := kept.keeps w
  rw [asks] at keeps
  exact (keeps _ kept.sound (contract.refl ..)).1 h ((kept.owns w h).mpr owns)

/-- No threads wait for each other in a circle. -/
theorem Kept.not_waitsFor_self (kept : Kept contract m locks)
    (irrefl : ∀ lock, ¬ contract.before m.state lock lock)
    (trans : ∀ first second third, contract.before m.state first second →
      contract.before m.state second third →
      contract.before m.state first third) :
    ¬ Relation.TransGen m.WaitsFor w w := by
  have climbs (v : ℕ) (waits : Relation.TransGen m.WaitsFor w v) :
      ∃ first next last, m.script w = .lock first next ∧
        m.owner last = some v ∧
        (last = first ∨ contract.before m.state first last) := by
    induction waits with
    | single waits =>
        obtain ⟨first, next, asks, owner⟩ := waits
        exact ⟨first, next, first, asks, owner, .inl rfl⟩
    | tail earlier waits induction =>
        obtain ⟨first, next, middle, asks, owner, order⟩ := induction
        obtain ⟨last, later, asksLast, ownsLast⟩ := waits
        have step := kept.ordered asksLast owner
        refine ⟨first, next, last, asks, ownsLast, .inr ?_⟩
        rcases order with rfl | order
        · exact step
        · exact trans _ _ _ order step
  intro circle
  obtain ⟨first, next, last, asks, owner, order⟩ := climbs w circle
  have step := kept.ordered asks owner
  rcases order with rfl | order
  · exact irrefl _ step
  · exact irrefl _ (trans _ _ _ order step)

end LockScript
