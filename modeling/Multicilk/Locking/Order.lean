import Multicilk.Locking.Program

/-!
# The order of the locks

A worker asks for the lock of a deque when it holds nothing, for that of a
closure when it holds a deque or an ancestor of the closure, and for a shared
one when it holds no other shared one.
-/

namespace Multicilk.Locking

open Scheduler LockScript

section Order

/-- Deques come before closures, closures before their descendants, and the
shared locks last. -/
inductive Before (core : Core) : Lock → Lock → Prop where
  | deque (w c : ℕ) : Before core (.deque w) (.closure c)
  | closure {p c : ℕ} :
      Relation.TransGen core.Parent p c →
      Before core (.closure p) (.closure c)
  | dequeShared (w : ℕ) (what : Shared) :
      Before core (.deque w) (.shared what)
  | closureShared (c : ℕ) (what : Shared) :
      Before core (.closure c) (.shared what)

variable {core : Core} {first second third : Lock}

theorem Before.irrefl (ancestry : core.Ancestry) (lock : Lock) :
    ¬ Before core lock lock := by
  intro before
  cases before with
  | closure path => exact ancestry.wellFounded.transGen.irrefl.irrefl _ path

theorem Before.trans (earlier : Before core first second)
    (later : Before core second third) : Before core first third := by
  cases earlier with
  | deque w c =>
      cases later with
      | closure => exact .deque w _
      | closureShared _ what => exact .dequeShared w what
  | closure path =>
      cases later with
      | closure further => exact .closure (path.trans further)
      | closureShared _ what => exact .closureShared _ what
  | dequeShared | closureShared => cases later

end Order

section Steps

variable {M : Type*} [Monoid M] {m m' : Machine M} {action : Scheduler.Action}
  {v : ℕ}

/-- The worker whose deque is changed. -/
def touches : Scheduler.Action → Option ℕ
  | .setReturn w | .exit w | .sync w | .xtractBottom w | .execute w => some w
  | .steal _ victim => some victim
  | _ => none

theorem deques_kept (placed : Placed m.sched.core m.pc)
    (taken : step action m m') (other : touches action ≠ some v) :
    m'.sched.deques v = m.sched.deques v := by
  have elsewhere (own : action.worker = touches action)
      (notVictim : ∀ w, action ≠ .steal w v) :
      m'.sched.deques v = m.sched.deques v :=
    (taken.elsewhere placed (own ▸ other) notVictim).2.2
  have same {s s' : State M} (core : s'.core = s.core) :
      s'.deques v = s.deques v := congrArg (fun core => core.deques v) core
  cases taken with
  | call | update | leaveCalled | mapFiber | unmapFiber => rfl
  | xtractNothing | returnValue => rfl
  | setReturn | exit | sync | xtractBottom | execute =>
      exact elsewhere rfl (by simp)
  | @spawn w t => exact same (core_spawn t)
  | @leaveSpawned w sf s isUser current synched notLast detached isState =>
      exact same (isState ▸ core_leaveDetached sf)
  | exceptionHandler isPopped bottom unlocked handled =>
      rcases cilkExceptionHandler_cases handled with ⟨-, -, core⟩ | ⟨-, -, core⟩
      · exact same core
      · refine (congrArg (fun core => core.deques v) core).trans ?_
        split <;> rfl
  | freeFiber => exact same core_freeFiber
  | @steal w victim fiber cl res s isThief different pooled top unlocked
      stolen =>
      have notVictim : v ≠ victim := fun isVictim => other (isVictim ▸ rfl)
      have running := (closureStealTop_some stolen).2.1
      rcases closureStealTop_cases stolen
        (placed.allocated (by simp [Node.Live, running]))
        (placed.kin.siblingsAllocated cl) with ⟨-, core⟩ | ⟨-, core⟩
      all_goals
        exact (congrArg (fun core => core.deques v) core).trans
          (Function.update_of_ne notVictim ..)
  | @finishPromote w cl res fuel s isPromoting finished =>
      obtain ⟨caller, clAllocated, allocated⟩ := placed.promoting isPromoting
      rcases finishPromote_cases finished caller clAllocated allocated with
        ⟨-, core⟩ | ⟨different, closures, chain⟩
      · exact congrArg (fun core => core.deques v) core
      · exact congrArg (fun deques => deques v) chain.deques
  | @setupForExecution w t =>
      exact congrArg (fun core => core.deques v) (core_setupForExecution t)
  | @reducerIteration w child parent =>
      exact same (core_reducerIteration parent child)
  | @finishReturn w child parent s res isReturning isParent unlocked unlocked'
      left right finished =>
      have different : child ≠ parent :=
        Nat.ne_of_gt (placed.kin.parent child parent isParent)
      rcases finishReturn_cases (placed.kin.real parent) different finished with
        ⟨-, -, -, core⟩ | ⟨-, -, core⟩ <;>
        exact congrArg (fun core => core.deques v) core

end Steps

section Contracts

variable {M : Type*}

/-- The tree of closures grows, and a deque that is locked stays as it is. -/
def Relies (held : List Lock) (m m' : Machine M) : Prop :=
  (∀ c p, (m.sched.core.nodes c).spawnParent = some p →
    (m'.sched.core.nodes c).spawnParent = some p) ∧
  ∀ v, .deque v ∈ held → m'.sched.deques v = m.sched.deques v

def Expects (_w : ℕ) (label : Label) (m : Machine M) (held : List Lock) :
    Prop :=
  match label with
  | .worker => held = []
  | .returnExceptions parent child | .returnMaps parent child =>
    held = [.closure child, .closure parent] ∧
      (m.sched.core.nodes child).spawnParent = some parent

/-- The contract that all workers keep. -/
def contract (M : Type*) : Contract (Machine M) Lock Label where
  sound m := Placed m.sched.core m.pc ∧ m.sched.core.Ancestry
  rely := Relies
  before m := Before m.sched.core
  fits held := ∀ first second, .shared first ∈ held →
    .shared second ∈ held → first = second
  expects := Expects
  refl _ _ := ⟨fun _ _ isParent => isParent, fun _ _ => rfl⟩
  trans _ _ _ _ first second :=
    ⟨fun c p isParent => second.1 c p (first.1 c p isParent),
      fun v held => (second.2 v held).trans (first.2 v held)⟩
  weaken _ _ _ _ fewer rely := ⟨rely.1, fun v held => rely.2 v (fewer _ held)⟩
  stable _ label _ _ _ _ rely expects := by
    cases label with
    | worker => exact expects
    | returnExceptions | returnMaps =>
        exact ⟨expects.1, rely.1 _ _ expects.2⟩
  empty := by simp
  fewer _ _ fewer fits first second has alsoHas :=
    fits first second (fewer _ has) (fewer _ alsoHas)

variable [Monoid M] {m m' : Machine M} {action : Scheduler.Action}
  {held : List Lock} {w : ℕ}

theorem allows_step (sound : (contract M).sound m) (taken : step action m m')
    (locked : ∀ v, touches action = some v → .deque v ∈ held) :
    (contract M).Allows held m m' := by
  have move := taken.coreMove sound.1
  refine ⟨⟨step_placed sound.1 taken, move.ancestry sound.1 sound.2⟩, ?_⟩
  intro others apart
  refine ⟨fun c p => move.spawnParent sound.1, fun v isHeld => ?_⟩
  apply deques_kept sound.1 taken
  intro isTouched
  exact apart _ isHeld (locked v isTouched)

end Contracts

section Keeping

variable {M : Type*} [Monoid M] {m : Machine M} {held : List Lock}
  {next : Code M} {w : ℕ}

omit [Monoid M] in
/-- A shared lock is taken and given back. -/
theorem keeps_visits {what : Shared} (n : ℕ)
    (before : ∀ m : Machine M, ∀ h ∈ held,
      Before m.sched.core h (.shared what))
    (fits : (contract M).fits (.shared what :: held))
    (keeps : next.Keeps (contract M) w m held) :
    (visits what n next).Keeps (contract M) w m held := by
  induction n generalizing m with
  | zero => exact keeps
  | succ n induction =>
      intro t sound rely
      refine ⟨before t, fits, by simp, ?_⟩
      rw [List.erase_cons_head]
      exact induction (keeps.stable sound rely)

/-- No shared lock is held. -/
def Unshared (held : List Lock) : Prop :=
  ∀ what, .shared what ∉ held

theorem Unshared.before (unshared : Unshared held) {what : Shared}
    (core : Core) : ∀ h ∈ held, Before core h (.shared what) := by
  intro h member
  cases h with
  | deque v => exact .dequeShared v what
  | closure c => exact .closureShared c what
  | shared other => exact absurd member (unshared other)

omit [Monoid M] in
theorem Unshared.fits (unshared : Unshared held) (what : Shared) :
    (contract M).fits (.shared what :: held) := by
  have only (other : Shared) (member : .shared other ∈ .shared what :: held) :
      other = what := by
    rcases List.mem_cons.mp member with same | further
    · exact Lock.shared.inj same
    · exact absurd further (unshared other)
  intro first second isFirst isSecond
  rw [only first isFirst, only second isSecond]

omit [Monoid M] in
theorem keeps_internalMalloc (unshared : Unshared held)
    (keeps : next.Keeps (contract M) w m held) :
    (internalMalloc next).Keeps (contract M) w m held :=
  fun n => keeps_visits n (fun t => unshared.before t.sched.core)
    (unshared.fits _) keeps

omit [Monoid M] in
theorem keeps_fiberBatch (unshared : Unshared held)
    (keeps : next.Keeps (contract M) w m held) :
    (fiberBatch next).Keeps (contract M) w m held :=
  fun n => keeps_visits n (fun t => unshared.before t.sched.core)
    (unshared.fits _) (keeps_internalMalloc unshared keeps)

omit [Monoid M] in
theorem Relies.weaken {t : Machine M} (rely : Relies held m t) :
    Relies [] m t :=
  (contract M).weaken held [] m t (by simp) rely

theorem keeps_act {action : Scheduler.Action}
    (locked : ∀ v, touches action = some v → .deque v ∈ held)
    (keeps : ∀ t, Relies [] m t → next.Keeps (contract M) w t held) :
    (Script.act (step action) next).Keeps (contract M) w m held := by
  intro t u sound rely taken
  have allows := allows_step sound taken locked
  refine ⟨allows, keeps u ?_⟩
  exact (contract M).trans _ _ _ _ (Relies.weaken rely) (allows.2 [] (by simp))

theorem keeps_finishPromote {res : ℕ} :
    (finishPromote w res).Keeps (contract M) w m [.closure res] := by
  apply keeps_internalMalloc (by simp [Unshared])
  apply keeps_act (by simp [touches])
  intro t rely
  exact ⟨by simp, by simp [contract, Expects, Script.Keeps]⟩

theorem keeps_extract {victim cl res : ℕ} :
    (extractTopSpawningClosure w victim cl res).Keeps (contract M) w m
      [.closure cl, .deque victim] := by
  apply keeps_internalMalloc (by simp [Unshared])
  split
  case isTrue same =>
    apply keeps_fiberBatch (by simp [Unshared])
    refine ⟨by simp, ?_⟩
    have remains : [Lock.closure cl, .deque victim].erase (.deque victim) =
        [.closure res] := by simp [same]
    rw [remains]
    exact keeps_finishPromote
  case isFalse different =>
    refine ⟨by simp, ?_⟩
    rw [List.erase_cons_head]
    intro t sound rely
    refine ⟨fun h member => ?_, by simp [contract], ?_⟩
    · obtain rfl := List.mem_singleton.mp member
      exact .deque victim res
    apply keeps_internalMalloc (by simp [Unshared])
    apply keeps_fiberBatch (by simp [Unshared])
    refine ⟨by simp, ?_⟩
    have remains : [Lock.closure res, .deque victim].erase (.deque victim) =
        [.closure res] := by simp
    rw [remains]
    exact keeps_finishPromote

omit [Monoid M] in
theorem keeps_giveUp {victim cl : ℕ} :
    (giveUp victim cl).Keeps (contract M) w m
      [.closure cl, .deque victim] := by
  refine ⟨by simp, ?_⟩
  rw [List.erase_cons_head]
  exact ⟨by simp, by simp [contract, Expects, Script.Keeps]⟩

/-- The thief steals under the lock of the deque, or nothing happens. -/
theorem allows_trySteal {victim : ℕ} {t u : Machine M}
    (sound : (contract M).sound t) (tries : trySteal w victim t u)
    (locked : .deque victim ∈ held) : (contract M).Allows held t u := by
  rcases tries with ⟨pooled, rfl | maps, steals⟩ | rfl
  · apply allows_step sound steals
    intro v isVictim
    cases isVictim
    exact locked
  · have mapped := @allows_step _ _ _ _ _ held sound maps (by simp [touches])
    have stolen := @allows_step _ _ _ _ _ held mapped.1 steals fun v isVictim =>
      by cases isVictim; exact locked
    refine ⟨stolen.1, fun others apart => ?_⟩
    exact (contract M).trans _ _ _ _ (mapped.2 others apart)
      (stolen.2 others apart)
  · exact ⟨sound, fun others _ => (contract M).refl others _⟩

/-- A closure in a deque that is locked runs or returns. -/
theorem keeps_stealTop {victim cl : ℕ} (member : cl ∈ m.sched.deques victim) :
    (stealTop w victim cl).Keeps (contract M) w m
      [.closure cl, .deque victim] := by
  intro t sound rely
  have here : cl ∈ t.sched.deques victim := by
    rw [rely.2 victim (by simp)]
    exact member
  have status : (t.sched.closures cl).status = .running ∨
      (t.sched.closures cl).status = .returning :=
    (sound.1.posture victim).of_mem here
  beta_reduce
  rcases status with running | returning
  · rw [running]
    intro u v sound rely tries
    refine ⟨allows_trySteal sound tries (by simp), ?_⟩
    intro x sound rely
    beta_reduce
    split
    · exact keeps_extract
    · exact keeps_giveUp
  · rw [returning]
    exact keeps_giveUp

theorem keeps_closureSteal {victim : ℕ} :
    (closureSteal w victim).Keeps (contract M) w m [] := by
  intro t sound rely
  refine ⟨by simp [contract], fun u sound rely => ?_, rfl⟩
  have leave (x : Machine M) :
      (Script.unlock (.deque victim) (.goto .worker)).Keeps (contract M) w x
        [.deque victim] := ⟨by simp, by simp [contract, Expects, Script.Keeps]⟩
  beta_reduce
  split
  case h_1 => exact leave u
  case h_2 cl top =>
    intro x sound rely
    refine ⟨by simp [contract], keeps_stealTop ?_, leave x⟩
    have member : cl ∈ u.sched.deques victim := List.mem_of_head? top
    rw [rely.2 victim (by simp)]
    exact member

omit [Monoid M] in
theorem keeps_worker : (Script.goto .worker : Code M).Keeps (contract M) w m [] :=
  rfl

omit [Monoid M] in
/-- The lock of a deque and that of a closure are given back. -/
theorem keeps_unlock (c : ℕ) (keeps : next.Keeps (contract M) w m []) :
    (Script.unlock (.closure c) (.unlock (.deque w) next)).Keeps (contract M) w
      m [.closure c, .deque w] := by
  refine ⟨by simp, ?_⟩
  rw [List.erase_cons_head]
  refine ⟨by simp, ?_⟩
  rw [List.erase_cons_head]
  exact keeps

omit [Monoid M] in
/-- The closure at the bottom of a deque is locked with the deque. -/
theorem keeps_bottom {body : ℕ → Code M}
    (keeps : ∀ c t, (body c).Keeps (contract M) w t
      [.closure c, .deque w]) :
    (Script.lock (.deque w) <| .look fun m =>
      match dequePeekBottom m.sched w with
      | none => .stop
      | some c => .lock (.closure c) (body c)).Keeps (contract M) w m [] := by
  intro t sound rely
  refine ⟨by simp, by simp [contract], fun u sound rely => ?_⟩
  beta_reduce
  split
  case h_1 => trivial
  case h_2 c bottom =>
    intro x sound rely
    refine ⟨fun h member => ?_, by simp [contract], keeps c x⟩
    obtain rfl := List.mem_singleton.mp member
    exact .deque w c

theorem keeps_cilkSync : (cilkSync w).Keeps (contract M) w m [] := by
  apply keeps_bottom
  intro c t
  apply keeps_fiberBatch (by simp [Unshared])
  apply keeps_act (by simp [touches])
  intro u rely
  apply keeps_unlock
  exact keeps_internalMalloc (by simp [Unshared]) keeps_worker

theorem keeps_cilkExceptionHandler :
    (cilkExceptionHandler w).Keeps (contract M) w m [] := by
  apply keeps_bottom
  intro c t
  apply keeps_act (by simp [touches])
  intro u rely
  exact keeps_unlock c keeps_worker

theorem keeps_cilkSetReturn : (cilkSetReturn w).Keeps (contract M) w m [] := by
  apply keeps_bottom
  intro c t u sound rely
  beta_reduce
  split
  case h_1 => trivial
  case h_2 callParent isCaller =>
    refine ⟨by simp, ?_⟩
    rw [List.erase_cons_head]
    intro x sound rely
    refine ⟨fun h member => ?_, by simp [contract], ?_⟩
    · obtain rfl := List.mem_singleton.mp member
      exact .deque w callParent
    · apply keeps_act (by simp [touches])
      intro y rely
      refine ⟨by simp, ?_⟩
      rw [List.erase_cons_head]
      apply keeps_internalMalloc (by simp [Unshared])
      refine ⟨by simp, ?_⟩
      rw [List.erase_cons_head]
      exact keeps_worker

theorem keeps_compiledCode : (compiledCode w).Keeps (contract M) w m [] := by
  intro n
  match n with
  | 0 | 1 | 2 | 3 | 4 =>
      exact keeps_act (by simp [touches]) fun t rely => keeps_worker
  | 5 =>
      intro t sound rely
      beta_reduce
      split
      · exact keeps_cilkSync
      · exact keeps_worker
  | 6 =>
      intro t sound rely
      beta_reduce
      split
      · exact keeps_cilkSetReturn
      · exact keeps_worker
  | 7 => exact keeps_internalMalloc (by simp [Unshared]) keeps_worker
  | n + 8 => trivial

omit [Monoid M] in
/-- The parent is locked first, then the child. -/
theorem keeps_lockBoth {parent child : ℕ} {label : Label}
    (isParent : (m.sched.core.nodes child).spawnParent = some parent)
    (isLabel : label = .returnExceptions parent child ∨
      label = .returnMaps parent child) :
    (Script.lock (.closure parent) <| .lock (.closure child)
      (.goto label)).Keeps (contract M) w m [] := by
  intro t sound rely
  refine ⟨by simp, by simp [contract], fun u sound later => ?_⟩
  have stillParent := later.1 _ _ (rely.1 _ _ isParent)
  refine ⟨fun h member => ?_, by simp [contract], ?_⟩
  · obtain rfl := List.mem_singleton.mp member
    exact .closure (.single (.inl stillParent))
  · rcases isLabel with rfl | rfl <;> exact ⟨rfl, stillParent⟩

omit [Monoid M] in
theorem keeps_closureReturn {child : ℕ} :
    (closureReturn child).Keeps (contract M) w m [] := by
  intro t sound rely
  beta_reduce
  split
  case h_1 => trivial
  case h_2 parent isParent => exact keeps_lockBoth isParent (.inl rfl)

omit [Monoid M] in
theorem keeps_unlockBoth {parent child : ℕ}
    (keeps : next.Keeps (contract M) w m []) :
    (Script.unlock (.closure child) (.unlock (.closure parent) next)).Keeps
      (contract M) w m [.closure child, .closure parent] := by
  refine ⟨by simp, ?_⟩
  rw [List.erase_cons_head]
  refine ⟨by simp, ?_⟩
  rw [List.erase_cons_head]
  exact keeps

omit [Monoid M] in
theorem keeps_returnExceptions {parent child : ℕ}
    (isParent : (m.sched.core.nodes child).spawnParent = some parent) :
    (returnExceptions parent child).Keeps (contract M) w m
      [.closure child, .closure parent] := by
  intro n
  match n with
  | 0 => exact ⟨rfl, isParent⟩
  | n + 1 => exact keeps_unlockBoth (keeps_lockBoth isParent (.inl rfl))

theorem keeps_returnMaps {parent child : ℕ}
    (isParent : (m.sched.core.nodes child).spawnParent = some parent) :
    (returnMaps w parent child).Keeps (contract M) w m
      [.closure child, .closure parent] := by
  intro t sound rely
  beta_reduce
  split
  case isTrue maps =>
    apply keeps_act (by simp [touches])
    intro u later
    apply keeps_unlockBoth
    apply keeps_internalMalloc (by simp [Unshared])
    exact keeps_lockBoth (later.1 _ _ (rely.1 _ _ isParent)) (.inr rfl)
  case isFalse =>
    apply keeps_fiberBatch (by simp [Unshared])
    apply keeps_act (by simp [touches])
    intro u later
    refine ⟨by simp, ?_⟩
    rw [List.erase_cons_head]
    apply keeps_internalMalloc (by simp [Unshared])
    refine ⟨by simp, ?_⟩
    rw [List.erase_cons_head]
    exact keeps_worker

theorem keeps_doWhatItSays {c : ℕ} :
    (doWhatItSays w c).Keeps (contract M) w m [] := by
  intro t sound rely
  refine ⟨by simp, by simp [contract], fun u sound rely => ?_⟩
  have leave (x : Machine M) :
      (Script.unlock (.closure c) (.goto .worker)).Keeps (contract M) w x
        [.closure c] := ⟨by simp, by simp [contract, Expects, Script.Keeps]⟩
  beta_reduce
  split
  case h_1 => exact keeps_act (by simp [touches]) fun x _ => leave x
  case h_2 => exact keeps_act (by simp [touches]) fun x _ => leave x
  case h_3 => trivial

/-- The lock of a deque is all that a change of it needs. -/
theorem keeps_dequeAct {action : Scheduler.Action}
    (own : touches action = some w) :
    (Script.lock (.deque w) <| .act (step action) <|
      .unlock (.deque w) (.goto .worker)).Keeps (contract M) w m [] := by
  intro t sound rely
  refine ⟨by simp, by simp [contract], ?_⟩
  refine keeps_act (fun v isTouched => ?_) fun u later => ?_
  · cases own.symm.trans isTouched
    exact List.mem_singleton_self _
  · exact ⟨by simp, by simp [contract, Expects, Script.Keeps]⟩

theorem keeps_program {label : Label} (expects : Expects w label m held) :
    (program w label).Keeps (contract M) w m held := by
  cases label with
  | worker =>
      cases expects
      intro t sound rely
      beta_reduce
      split
      case h_1 => exact keeps_compiledCode
      case h_2 => exact keeps_cilkExceptionHandler
      case h_3 =>
        apply keeps_fiberBatch (by simp [Unshared])
        exact keeps_act (by simp [touches]) fun u _ => keeps_worker
      case h_4 => exact keeps_dequeAct rfl
      case h_5 =>
        intro victim
        beta_reduce
        split
        · exact keeps_worker
        · exact keeps_closureSteal
      case h_6 => trivial
      case h_7 c isPc => exact keeps_doWhatItSays
      case h_8 => exact keeps_dequeAct rfl
      case h_9 child isPc => exact keeps_closureReturn
  | returnExceptions parent child =>
      obtain ⟨rfl, isParent⟩ := expects
      exact keeps_returnExceptions isParent
  | returnMaps parent child =>
      obtain ⟨rfl, isParent⟩ := expects
      exact keeps_returnMaps isParent

end Keeping

section Reachable

variable {M : Type*} [Monoid M] {m : Threads M}

omit [Monoid M] in
theorem initial_kept (initial : Initial m) :
    Kept (contract M) m fun _ => [] := by
  constructor
  case sound =>
    exact ⟨initial_placed initial.state, initial_ancestry initial.state⟩
  case keeps =>
    intro w
    rw [initial.script]
    exact keeps_worker
  case owns =>
    intro w lock
    simp [initial.owner]
  case nodup => exact fun w => List.nodup_nil
  case fits => exact fun w => (contract M).empty

theorem reaches_kept (reached : Reaches m) :
    ∃ locks, Kept (contract M) m locks := by
  apply TransitionSystem.Reachable.invariant reached
  case holdsInitially => exact fun start initial => ⟨_, initial_kept initial⟩
  case preserved =>
    rintro source w target ⟨locks, kept⟩ taken
    exact kept.step (fun _ _ _ _ _ expects => keeps_program expects) taken

/-- Whoever is about to block on a lock holds only locks that come before it,
and so no workers wait for each other in a circle. -/
theorem locks_ordered (reached : Reaches m) :
    (∀ w lock next, m.script w = .lock lock next →
      ∀ h, m.owner h = some w → Before m.state.sched.core h lock) ∧
    (∀ w, ¬ (m.owner (.shared .fiberPool) = some w ∧
      m.owner (.shared .allocator) = some w)) ∧
    (∀ lock, ¬ Before m.state.sched.core lock lock) ∧
    (∀ first second third, Before m.state.sched.core first second →
      Before m.state.sched.core second third →
      Before m.state.sched.core first third) ∧
    ∀ w, ¬ Relation.TransGen m.WaitsFor w w := by
  obtain ⟨locks, kept⟩ := reaches_kept reached
  have irrefl := Before.irrefl kept.sound.2
  have trans (first second third : Lock)
      (earlier : Before m.state.sched.core first second) :=
    @Before.trans _ first second third earlier
  refine ⟨fun w lock next asks h owns => kept.ordered asks owns, ?_, irrefl,
    trans, fun w => kept.not_waitsFor_self irrefl trans⟩
  rintro w ⟨hasPool, hasAllocator⟩
  rw [← kept.owns] at hasPool hasAllocator
  cases kept.fits w .fiberPool .allocator hasPool hasAllocator

end Reachable

def threadsStart : Threads (FreeMonoid ℕ) where
  state := regionStart
  owner := fun _ => none
  script := fun _ => .goto .worker

/-- A thief has stolen the root closure and asks for the allocator, while it
holds the deque and the closure of its victim.  The victim has come to the end of
its child and is blocked. -/
theorem locks_ordered_stolen : ∃ m : Threads (FreeMonoid ℕ),
    m.owner (.deque 0) = some 1 ∧ m.owner (.closure 0) = some 1 ∧
    (∃ next, m.script 1 = .lock (.shared .allocator) next) ∧
    m.WaitsFor 0 1 ∧
    (∀ h, m.owner h = some 1 →
      Before m.state.sched.core h (.shared .allocator)) ∧
    ∀ w, ¬ Relation.TransGen m.WaitsFor w w := by
  have initial : Initial threadsStart :=
    ⟨regionStart_initial, fun _ => rfl, fun _ => rfl⟩
  have begins := @TransitionSystem.Run.refl _ _
    (fun m (w : ℕ) m' => LockScript.Step program m w m') threadsStart
  -- The victim executes the root closure, and spawns.
  have holding := begins.snoc (@LockScript.Step.goto _ _ _ _ _ _ 0 _ rfl)
    |>.snoc (@LockScript.Step.look _ _ _ _ _ _ 0 _ rfl)
    |>.snoc (@LockScript.Step.lock _ _ _ _ _ _ 0 (.closure 0) _ rfl rfl)
    |>.snoc (@LockScript.Step.look _ _ _ _ _ _ 0 _ rfl)
    |>.snoc (@LockScript.Step.act _ _ _ _ _ _ 0 _ _ _ rfl
      (@Scheduler.Step.setupForExecution _ _ _ 0 0 rfl
        (by rintro (_ | w) cl ⟨⟩) rfl))
    |>.snoc (@LockScript.Step.unlock _ _ _ _ _ _ 0 _ _ rfl)
  have executing := holding.snoc (@LockScript.Step.goto _ _ _ _ _ _ 0 _ rfl)
    |>.snoc (@LockScript.Step.look _ _ _ _ _ _ 0 _ rfl)
    |>.snoc (@LockScript.Step.lock _ _ _ _ _ _ 0 (.deque 0) _ rfl rfl)
    |>.snoc (@LockScript.Step.act _ _ _ _ _ _ 0 _ _ _ rfl
      (@Scheduler.Step.execute _ _ _ 0 0 rfl))
    |>.snoc (@LockScript.Step.unlock _ _ _ _ _ _ 0 _ _ rfl)
  have spawned := executing.snoc (@LockScript.Step.goto _ _ _ _ _ _ 0 _ rfl)
    |>.snoc (@LockScript.Step.look _ _ _ _ _ _ 0 _ rfl)
    |>.snoc (@LockScript.Step.choose _ _ _ _ _ _ 0 _ 1 rfl)
    |>.snoc (@LockScript.Step.act _ _ _ _ _ _ 0 _ _ _ rfl
      (@Scheduler.Step.spawn _ _ _ 0 0 0 rfl rfl rfl))
  -- The thief takes both locks, and needs memory for the new closure.
  have chosen := spawned.snoc (@LockScript.Step.goto _ _ _ _ _ _ 1 _ rfl)
    |>.snoc (@LockScript.Step.look _ _ _ _ _ _ 1 _ rfl)
    |>.snoc (@LockScript.Step.choose _ _ _ _ _ _ 1 _ 0 rfl)
    |>.snoc (@LockScript.Step.tryTaken _ _ _ _ _ _ 1 (.deque 0) _ _ rfl rfl)
    |>.snoc (@LockScript.Step.look _ _ _ _ _ _ 1 _ rfl)
    |>.snoc (@LockScript.Step.tryTaken _ _ _ _ _ _ 1 (.closure 0) _ _ rfl rfl)
  have stolen := chosen.snoc (@LockScript.Step.look _ _ _ _ _ _ 1 _ rfl)
    |>.snoc (@LockScript.Step.act _ _ _ _ _ _ 1 _ _ _ rfl
      (.inl ⟨_, .inl rfl, @Scheduler.Step.steal _ _ _ 1 0 1 0 0 _ rfl
        (by decide) (by decide) rfl (by rintro (_ | w) cl ⟨⟩) rfl⟩))
  have asking := stolen.snoc (@LockScript.Step.look _ _ _ _ _ _ 1 _ rfl)
    |>.snoc (@LockScript.Step.choose _ _ _ _ _ _ 1 _ 1 rfl)
  -- The victim has not been told, and comes to the end of the child.
  have blocked := asking.snoc (@LockScript.Step.goto _ _ _ _ _ _ 0 _ rfl)
    |>.snoc (@LockScript.Step.look _ _ _ _ _ _ 0 _ rfl)
    |>.snoc (@LockScript.Step.choose _ _ _ _ _ _ 0 _ 4 rfl)
    |>.snoc (@LockScript.Step.act _ _ _ _ _ _ 0 _ _ _ rfl
      (@Scheduler.Step.leaveSpawned _ _ _ 0 1 _ rfl rfl rfl rfl rfl rfl))
    |>.snoc (@LockScript.Step.goto _ _ _ _ _ _ 0 _ rfl)
    |>.snoc (@LockScript.Step.look _ _ _ _ _ _ 0 _ rfl)
  obtain ⟨ordered, -, -, -, noCircle⟩ :=
    locks_ordered ⟨_, _, initial, blocked⟩
  exact ⟨_, rfl, rfl, ⟨_, rfl⟩, ⟨.deque 0, _, rfl, rfl⟩, ordered 1 _ _ rfl,
    noCircle⟩

end Multicilk.Locking
