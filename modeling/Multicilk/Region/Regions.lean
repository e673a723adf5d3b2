import Multicilk.Region.Baton
import Multicilk.Support.Run

/-!
# One entry, one exit and one signal per region

In every run, each region is entered with the root closure once, by a worker
that has seen `start` in this region.  It is exited once, and `cilkified` is
cleared once, by the worker that has exited.  The Cilkifying thread goes on only
after that.
-/

namespace Multicilk.Region

open TransitionSystem

variable {W : Type*}

/-- What is promised of the regions so far. -/
structure HandsOff [DecidableEq W] (s : State W) : Prop where
  enteredOnce : (s.entries.map Prod.snd).Nodup
  exitedOnce : (s.exits.map Prod.snd).Nodup
  clearedOnce : (s.clears.map Prod.snd).Nodup
  /-- No exit without an entry, and no signal but by the worker that has
  exited. -/
  exited : ∀ exit ∈ s.exits, exit.2 ∈ s.entries.map Prod.snd
  cleared : ∀ clear ∈ s.clears, clear ∈ s.exits
  returned : ∀ region ∈ s.returns, ∃ worker,
    (worker, region) ∈ s.exits ∧ (worker, region) ∈ s.clears
  /-- A worker that is late does not enter with the root closure. -/
  enters : ∀ worker next, Step s (.enterRoot worker) next →
    s.seen worker = s.region ∧ s.region ∉ s.entries.map Prod.snd
  /-- A worker does not signal the end of a region that it has not exited. -/
  clears : ∀ worker next, Step s (.clearCilkified worker) next →
    (worker, s.region) ∈ s.exits ∧ s.region ∉ s.clears.map Prod.snd
  waits : ∀ next, Step s .returnFromWait next →
    ∃ worker, (worker, s.region) ∈ s.exits ∧ (worker, s.region) ∈ s.clears
  /-- A region that has been started can still be entered, if it has not been
  so far. -/
  willEnter : s.boss = .waiting → s.cilkified = true →
    s.region ∉ s.entries.map Prod.snd →
    ∃ trace next, Run Step s trace next ∧
      (s.exitingWorker, s.region) ∈ next.entries

section Logs

variable {s : State W} {entered cleared returned : ℕ} {exited : List (W × ℕ)}

theorem Logged.congr {other : State W}
    (logged : Logged s entered cleared returned exited)
    (sameEntries : other.entries = s.entries)
    (sameExits : other.exits = s.exits)
    (sameClears : other.clears = s.clears)
    (sameReturns : other.returns = s.returns) :
    Logged other entered cleared returned exited :=
  ⟨sameEntries ▸ logged.entries, by rw [sameExits, sameClears, logged.exits],
    sameClears ▸ logged.clears, sameReturns ▸ logged.returns⟩

theorem Logged.entered_iff {region : ℕ}
    (logged : Logged s entered cleared returned exited) :
    region ∈ s.entries.map Prod.snd ↔ 1 ≤ region ∧ region ≤ entered := by
  rw [logged.entries, List.mem_range'_1]
  omega

theorem Logged.cleared_iff {region : ℕ}
    (logged : Logged s entered cleared returned exited) :
    region ∈ s.clears.map Prod.snd ↔ 1 ≤ region ∧ region ≤ cleared := by
  rw [logged.clears, List.mem_range'_1]
  omega

/-- Who has cleared a region has exited it. -/
theorem Logged.clearedBy {region : ℕ}
    (logged : Logged s entered cleared returned exited)
    (positive : 1 ≤ region) (bounded : region ≤ cleared) :
    ∃ worker, (worker, region) ∈ s.exits ∧ (worker, region) ∈ s.clears := by
  obtain ⟨⟨worker, _⟩, member, rfl⟩ :=
    List.mem_map.mp (logged.cleared_iff.mpr ⟨positive, bounded⟩)
  refine ⟨worker, ?_, member⟩
  rw [logged.exits]
  exact List.mem_append_left _ member

theorem Exits.logged {ended : ℕ} {pc : WorkerPc} (exits : Exits s ended pc) :
    ∃ exited, Logged s (ended + 1) ended ended exited ∧
      (exited = [] ∨ exited = [(s.exitingWorker, s.region)]) := by
  cases pc with
  | loop t =>
      cases t with
      | nothing => exact ⟨_, exits.2, .inr rfl⟩
      | _ => exact exits.elim
  | testExiting | storeCilkified => exact ⟨_, exits.2, .inr rfl⟩
  | storeStart | storeDone | clearDeque => exact ⟨_, exits.2, .inl rfl⟩
  | _ => exact exits.elim

/-- The logs of any stage. -/
theorem Stage.logged (stage : Stage s) :
    ∃ entered cleared returned exited,
      Logged s entered cleared returned exited ∧
        returned ≤ cleared ∧ cleared ≤ entered ∧
        (exited = [] ∨
          ∃ worker, exited = [(worker, cleared + 1)] ∧ cleared < entered) := by
  cases stage with
  | apart apart =>
      obtain ⟨returned, logged, counted⟩ := apart.logged
      exact ⟨_, _, _, _, logged, by omega, Nat.le_refl _, .inl rfl⟩
  | starting starting =>
      obtain ⟨ended, logged, counted⟩ := starting.logged
      exact ⟨_, _, _, _, logged, Nat.le_refl _, Nat.le_refl _, .inl rfl⟩
  | running running =>
      obtain ⟨ended, logged, counted⟩ := running.logged
      exact ⟨_, _, _, _, logged, Nat.le_refl _, Nat.le_succ _, .inl rfl⟩
  | exiting exiting =>
      obtain ⟨ended, exits, counted⟩ := exiting.exits
      obtain ⟨exited, logged, shape⟩ := exits.logged
      refine ⟨_, _, _, _, logged, Nat.le_refl _, Nat.le_succ _, ?_⟩
      rcases shape with rfl | rfl
      · exact .inl rfl
      · exact .inr ⟨_, by rw [counted], Nat.lt_succ_self _⟩

end Logs

variable [DecidableEq W] {s next : State W} {worker : W}

/-- Only the exiting worker enters with the root closure, in a region that has
just been started. -/
theorem Stage.enters (stage : Stage s)
    (taken : Step s (.enterRoot worker) next) :
    s.seen worker = s.region ∧ s.region ∉ s.entries.map Prod.snd := by
  cases taken with
  | enterRoot here same =>
      subst same
      cases stage with
      | apart apart =>
          have rests := apart.rests
          rw [here] at rests
          exact rests.elim
      | starting starting =>
          obtain ⟨ended, logged, counted⟩ := starting.logged
          refine ⟨starting.seen (by rw [here]; nofun), ?_⟩
          rw [logged.entered_iff]
          omega
      | running running =>
          have inScheduler := running.inScheduler
          rw [here] at inScheduler
          cases inScheduler
      | exiting exiting =>
          obtain ⟨ended, exits, -⟩ := exiting.exits
          rw [here] at exits
          exact exits.elim

theorem Stage.clears (stage : Stage s)
    (taken : Step s (.clearCilkified worker) next) :
    (worker, s.region) ∈ s.exits ∧ s.region ∉ s.clears.map Prod.snd := by
  cases taken with
  | clearCilkified here =>
      have notOrdinary : (s.worker worker).ordinary = false := by
        rw [here]
        rfl
      have notRoot : (s.worker worker).hasRoot = false := by
        rw [here]
        rfl
      cases stage with
      | apart apart =>
          exact absurd (notOrdinary.symm.trans (apart.ordinary worker)) nofun
      | starting starting =>
          exact absurd (notOrdinary.symm.trans (starting.ordinary worker)) nofun
      | running running =>
          have hasRoot := (running.root.holder notOrdinary).2.1
          exact absurd (notRoot.symm.trans hasRoot) nofun
      | exiting exiting =>
          have same := exiting.atExit notOrdinary
          obtain ⟨ended, exits, counted⟩ := exiting.exits
          rw [← same, here] at exits
          obtain ⟨-, logged⟩ := exits
          constructor
          · rw [logged.exits, same]
            exact List.mem_append_right _ (List.mem_singleton_self _)
          · rw [logged.cleared_iff]
            omega

theorem Stage.waits (stage : Stage s) (taken : Step s .returnFromWait next) :
    ∃ worker, (worker, s.region) ∈ s.exits ∧ (worker, s.region) ∈ s.clears := by
  cases taken with
  | returnFromWait here cleared =>
      cases stage with
      | apart apart =>
          obtain ⟨returned, logged, counted⟩ := apart.logged
          rw [if_pos here] at counted
          exact logged.clearedBy (by omega) (Nat.le_refl _)
      | starting starting =>
          exact absurd cleared starting.flags.noBoss.2.2.2.2.2
      | running running =>
          exact absurd cleared running.flags.noBoss.2.2.2.2.2
      | exiting exiting =>
          obtain ⟨ended, exits, -⟩ := exiting.exits
          obtain ⟨start, done, flags⟩ := exits.flags
          exact absurd cleared flags.noBoss.2.2.2.2.2

theorem willEnter_of_testEntering
    (here : s.worker s.exitingWorker = .testEntering) :
    ∃ trace next, Run Step s trace next ∧
      (s.exitingWorker, s.region) ∈ next.entries :=
  ⟨_, _, Run.refl.snoc (.enterRoot here rfl),
    List.mem_append_right _ (List.mem_singleton_self _)⟩

theorem willEnter_of_testTerminate
    (here : s.worker s.exitingWorker = .testTerminate)
    (goesOn : s.terminate = false) :
    ∃ trace next, Run Step s trace next ∧
      (s.exitingWorker, s.region) ∈ next.entries := by
  have moved : WorkerStep s s.exitingWorker (s.worker s.exitingWorker)
      .testEntering := by
    rw [here]
    exact .goOn goesOn
  obtain ⟨trace, next, run, entered⟩ := willEnter_of_testEntering
    (s := s.move s.exitingWorker .testEntering) move_self
  exact ⟨_, next, (Run.refl.snoc (.move moved)).trans run, entered⟩

/-- The exiting worker gets from the start to its entry by itself. -/
theorem Starting.willEnter (starting : Starting s) :
    ∃ trace next, Run Step s trace next ∧
      (s.exitingWorker, s.region) ∈ next.entries := by
  rcases starting.enters with waits | tests | enters
  · obtain ⟨trace, next, run, entered⟩ := willEnter_of_testTerminate
      (s := { s.move s.exitingWorker .testTerminate with
        seen := Function.update s.seen s.exitingWorker s.region })
      move_self starting.flags.terminate
    exact ⟨_, next, (Run.refl.snoc (.passStart waits starting.flags.start)).trans
      run, entered⟩
  · exact willEnter_of_testTerminate tests starting.flags.terminate
  · exact willEnter_of_testEntering enters

theorem Stage.willEnter (stage : Stage s) (waiting : s.boss = .waiting)
    (cilkified : s.cilkified = true)
    (notEntered : s.region ∉ s.entries.map Prod.snd) :
    ∃ trace next, Run Step s trace next ∧
      (s.exitingWorker, s.region) ∈ next.entries := by
  cases stage with
  | apart apart =>
      have boss := apart.boss
      rw [BossFits, waiting] at boss
      exact absurd (boss.2.symm.trans cilkified) Bool.false_ne_true
  | starting starting => exact starting.willEnter
  | running running =>
      obtain ⟨ended, logged, counted⟩ := running.logged
      rw [logged.entered_iff] at notEntered
      omega
  | exiting exiting =>
      obtain ⟨ended, exits, counted⟩ := exiting.exits
      obtain ⟨exited, logged, -⟩ := exits.logged
      rw [logged.entered_iff] at notEntered
      omega

/-- In every state of every run, the regions are handed over one by one. -/
theorem hands_off {zero : W} {trace : List (State W × Action W)}
    (run : Run Step (initial zero) trace s) : HandsOff s := by
  have stage : Stage s := run.invariant (stage_initial zero)
    fun _ _ _ stage taken => stage.step taken
  obtain ⟨entered, cleared, returned, exited, logged, inOrder, ofEntered,
    shape⟩ := stage.logged
  have clearedExited : ∀ clear ∈ s.clears, clear ∈ s.exits := by
    intro clear member
    rw [logged.exits]
    exact List.mem_append_left _ member
  have exits : ∃ count ≤ entered,
      s.exits.map Prod.snd = List.range' 1 count := by
    rw [logged.exits, List.map_append, logged.clears]
    rcases shape with rfl | ⟨worker, rfl, more⟩
    · exact ⟨cleared, ofEntered, by simp⟩
    · exact ⟨cleared + 1, more, by simp [List.range'_1_concat, Nat.add_comm]⟩
  obtain ⟨count, bounded, exits⟩ := exits
  constructor
  case enteredOnce =>
    rw [logged.entries]
    exact List.nodup_range'
  case exitedOnce =>
    rw [exits]
    exact List.nodup_range'
  case clearedOnce =>
    rw [logged.clears]
    exact List.nodup_range'
  case exited =>
    intro exit member
    have counted := List.mem_map_of_mem (f := Prod.snd) member
    rw [exits, List.mem_range'_1] at counted
    rw [logged.entered_iff]
    omega
  case cleared => exact clearedExited
  case returned =>
    intro region member
    rw [logged.returns, List.mem_range'_1] at member
    exact logged.clearedBy member.1 (by omega)
  case enters => exact fun _ _ taken => stage.enters taken
  case clears => exact fun _ _ taken => stage.clears taken
  case waits => exact fun _ taken => stage.waits taken
  case willEnter => exact stage.willEnter

/-- The second worker sees `start` in the first region, but goes on only when
the next one has been started.  There it steals the root closure, and exits. -/
theorem hands_off_late :
    ∃ (trace : List (State (Fin 2) × Action (Fin 2))) (s : State (Fin 2)),
      Run Step (initial 0) trace s ∧
      (∃ late, (trace.drop 25).head? = some (late, .move 1 .testEntering) ∧
        late.seen 1 = 1 ∧ late.region = 2) ∧
      s.returns = [1, 2] ∧ s.entries = [(0, 1), (0, 2)] ∧
      s.exits = [(0, 1), (1, 2)] ∧ HandsOff s := by
  have start := @Run.refl _ _ (@Step (Fin 2) _) (initial 0)
  have first := start.snoc (.makeRootReady rfl)
    |>.snoc (.setCilkified rfl)
    |>.snoc (.resetDone rfl)
    |>.snoc (.setStart rfl)
    |>.snoc (@Step.passStart _ _ _ 0 rfl rfl)
    |>.snoc (@Step.passStart _ _ _ 1 rfl rfl)
    |>.snoc (@Step.move _ _ _ 0 _ (.goOn rfl))
    |>.snoc (@Step.enterRoot _ _ _ 0 rfl rfl)
    |>.snoc (@Step.move _ _ _ 0 _ (.executeRoot rfl))
  have left := first.snoc (@Step.recordExit _ _ _ 0 rfl)
    |>.snoc (@Step.resetStart _ _ _ 0 rfl)
    |>.snoc (@Step.setDone _ _ _ 0 rfl)
    |>.snoc (@Step.exitRegion _ _ _ 0 rfl)
    |>.snoc (@Step.move _ _ _ 0 _ (@WorkerStep.leave _ _ _ .nothing rfl))
    |>.snoc (@Step.move _ _ _ 0 _ (.isExiting rfl))
    |>.snoc (@Step.clearCilkified _ _ _ 0 rfl)
    |>.snoc (.returnFromWait rfl rfl)
  have second := left.snoc (.makeRootReady rfl)
    |>.snoc (.setCilkified rfl)
    |>.snoc (.resetDone rfl)
    |>.snoc (.setStart rfl)
    |>.snoc (@Step.passStart _ _ _ 0 rfl rfl)
    |>.snoc (@Step.move _ _ _ 0 _ (.goOn rfl))
    |>.snoc (@Step.enterRoot _ _ _ 0 rfl rfl)
    |>.snoc (@Step.move _ _ _ 0 _ (.executeRoot rfl))
  have stolen := second.snoc (@Step.move _ _ _ 1 _ (.goOn rfl))
    |>.snoc (@Step.move _ _ _ 1 _ (.enter (by decide)))
    |>.snoc (@Step.move _ _ _ 1 _ (.search rfl))
    |>.snoc (@Step.stealRoot _ _ _ 1 0 rfl rfl)
  have ended := stolen.snoc (@Step.recordExit _ _ _ 1 rfl)
    |>.snoc (@Step.resetStart _ _ _ 1 rfl)
    |>.snoc (@Step.setDone _ _ _ 1 rfl)
    |>.snoc (@Step.exitRegion _ _ _ 1 rfl)
    |>.snoc (@Step.move _ _ _ 1 _ (@WorkerStep.leave _ _ _ .nothing rfl))
    |>.snoc (@Step.move _ _ _ 1 _ (.isExiting rfl))
    |>.snoc (@Step.clearCilkified _ _ _ 1 rfl)
    |>.snoc (.returnFromWait rfl rfl)
  exact ⟨_, _, ended, ⟨_, rfl, rfl, rfl⟩, rfl, rfl, rfl, hands_off ended⟩

end Multicilk.Region
