import Mathlib.Data.List.Range
import Multicilk.Region.Handoff

/-!
# Where the right to act for a region is

The exiting worker of the last region enters the next one with the root
closure.  Until then it waits at the start, so that no other worker takes its
place.  From then on it is in `worker_scheduler`, and the right to exit goes with
the root closure.  Whoever exits becomes the exiting worker, and its next steps
are the only ones that lead to the end of the region.
-/

namespace Multicilk.Region

variable {W : Type*}

/-- Every worker can be there, in any region or between two of them. -/
def WorkerPc.ordinary : WorkerPc → Bool
  | .loop .root | .executing true => false
  | .storeStart | .storeDone | .clearDeque | .storeCilkified => false
  | _ => true

def WorkerPc.hasRoot : WorkerPc → Bool
  | .loop .root | .executing true => true
  | _ => false

def WorkerPc.inScheduler : WorkerPc → Bool
  | .loop _ | .searching | .executing _ => true
  | _ => false

/-- Where the exiting worker is between two regions. -/
def WorkerPc.Rests (terminate : Bool) : WorkerPc → Prop
  | .waitStart => True
  | .testTerminate | .terminated => terminate = true
  | _ => False

/-- Where the exiting worker is before it enters with the root closure. -/
def WorkerPc.Enters (pc : WorkerPc) : Prop :=
  pc = .waitStart ∨ pc = .testTerminate ∨ pc = .testEntering

/-- Regions are numbered from 1.  All but the last few of them have been
entered, exited, cleared and returned from. -/
structure Logged (s : State W) (entered cleared returned : ℕ)
    (exited : List (W × ℕ)) : Prop where
  entries : s.entries.map Prod.snd = List.range' 1 entered
  exits : s.exits = s.clears ++ exited
  clears : s.clears.map Prod.snd = List.range' 1 cleared
  returns : s.returns = List.range' 1 returned

/-- The flags from the start of a region to its end. -/
structure InRegion (s : State W) (start done : Bool) : Prop where
  boss : s.boss = .waiting
  cilkified : s.cilkified = true
  terminate : s.terminate = false
  start : s.start = start
  done : s.done = done

/-- What the Cilkifying thread has stored so far. -/
def BossFits (s : State W) : Prop :=
  match s.boss with
  | .outside | .storeCilkified => s.terminate = false
  | .storeDone => s.terminate = false ∧ s.cilkified = true
  | .storeStart =>
      s.terminate = false ∧ s.cilkified = true ∧ s.done = false
  | .waiting => s.terminate = false ∧ s.cilkified = false
  | .stopStart | .joining => s.terminate = true

/-- Between two regions. -/
structure Apart (s : State W) : Prop where
  ordinary : ∀ worker, (s.worker worker).ordinary = true
  parked : s.parked = 0
  rests : (s.worker s.exitingWorker).Rests s.terminate
  stopped : s.start = true → s.terminate = true
  boss : BossFits s
  logged : ∃ returned, Logged s s.region s.region returned [] ∧
    s.region = returned + if s.boss = .waiting then 1 else 0

/-- The workers have been started, and none has the root closure yet. -/
structure Starting (s : State W) : Prop where
  flags : InRegion s true false
  ordinary : ∀ worker, (s.worker worker).ordinary = true
  parked : s.parked = 0
  enters : (s.worker s.exitingWorker).Enters
  seen : s.worker s.exitingWorker ≠ .waitStart →
    s.seen s.exitingWorker = s.region
  logged : ∃ ended, Logged s ended ended ended [] ∧ s.region = ended + 1

/-- One worker has the root closure, or it is suspended. -/
def RootHeld (s : State W) : Prop :=
  (s.parked = 1 ∧ ∀ worker, (s.worker worker).ordinary = true) ∨
    (s.parked = 0 ∧ ∃ holder, (s.worker holder).hasRoot = true ∧
      ∀ worker, worker ≠ holder → (s.worker worker).ordinary = true)

structure Running (s : State W) : Prop where
  flags : InRegion s true false
  inScheduler : (s.worker s.exitingWorker).inScheduler = true
  root : RootHeld s
  logged : ∃ ended, Logged s (ended + 1) ended ended [] ∧ s.region = ended + 1

/-- Where the exiting worker is, from the first store of
`exit_cilkified_root` to the end of the region. -/
def Exits (s : State W) (ended : ℕ) : WorkerPc → Prop
  | .storeStart => InRegion s true false ∧ Logged s (ended + 1) ended ended []
  | .storeDone => InRegion s false false ∧ Logged s (ended + 1) ended ended []
  | .clearDeque => InRegion s false true ∧ Logged s (ended + 1) ended ended []
  | .loop .nothing | .testExiting | .storeCilkified =>
      InRegion s false true ∧
        Logged s (ended + 1) ended ended [(s.exitingWorker, s.region)]
  | _ => False

structure Exiting (s : State W) : Prop where
  ordinary : ∀ worker, worker ≠ s.exitingWorker →
    (s.worker worker).ordinary = true
  parked : s.parked = 0
  exits : ∃ ended, Exits s ended (s.worker s.exitingWorker) ∧
    s.region = ended + 1

inductive Stage (s : State W) : Prop where
  | apart : Apart s → Stage s
  | starting : Starting s → Stage s
  | running : Running s → Stage s
  | exiting : Exiting s → Stage s

theorem stage_initial (zero : W) : Stage (initial zero) := by
  apply Stage.apart
  constructor
  case ordinary => exact fun _ => rfl
  case parked => rfl
  case rests => exact trivial
  case stopped => exact nofun
  case boss => exact rfl
  case logged => exact ⟨0, ⟨rfl, rfl, rfl, rfl⟩, rfl⟩

theorem InRegion.noBoss {start done : Bool} {s : State W}
    (flags : InRegion s start done) :
    s.boss ≠ .outside ∧ s.boss ≠ .storeCilkified ∧ s.boss ≠ .storeDone ∧
      s.boss ≠ .storeStart ∧ s.boss ≠ .stopStart ∧ s.cilkified ≠ false := by
  rw [flags.boss, flags.cilkified]
  exact ⟨nofun, nofun, nofun, nofun, nofun, nofun⟩

section WorkerSteps

variable {s : State W} {worker : W} {pc after : WorkerPc}

theorem WorkerStep.ordinary
    (taken : WorkerStep s worker pc after) (before : pc.ordinary = true) :
    after.ordinary = true ∨
      pc = .testExiting ∧ after = .storeCilkified ∧
        worker = s.exitingWorker := by
  cases taken
  case isExiting isExiting => exact .inr ⟨rfl, rfl, isExiting⟩
  case executeRoot => cases before
  case backToRuntime t different =>
    left
    cases t
    case root => exact absurd rfl different
    all_goals rfl
  all_goals exact .inl rfl

theorem WorkerStep.rests
    (taken : WorkerStep s worker pc after) (before : pc.Rests s.terminate) :
    after.Rests s.terminate := by
  cases taken
  case terminate terminate => exact terminate
  case goOn goOn => exact absurd (before.symm.trans goOn) nofun
  all_goals exact before.elim

theorem WorkerStep.enters
    (taken : WorkerStep s worker pc after) (before : pc.Enters)
    (notTerminate : s.terminate = false) (exits : worker = s.exitingWorker) :
    after.Enters := by
  cases taken
  case terminate terminate => exact absurd (terminate.symm.trans notTerminate) nofun
  case goOn => exact .inr (.inr rfl)
  case enter other => exact absurd exits other
  all_goals rcases before with here | here | here <;> cases here

theorem WorkerStep.hasRoot (taken : WorkerStep s worker pc after)
    (before : pc.hasRoot = true) (notDone : s.done = false) :
    after.hasRoot = true := by
  cases taken
  case leave t done => exact absurd (done.symm.trans notDone) nofun
  all_goals first | rfl | cases before

theorem WorkerStep.inScheduler
    (taken : WorkerStep s worker pc after) (before : pc.inScheduler = true)
    (notDone : s.done = false) : after.inScheduler = true := by
  cases taken
  case leave t done => exact absurd (done.symm.trans notDone) nofun
  all_goals first | rfl | cases before

theorem Exits.flags {ended : ℕ} (exits : Exits s ended pc) :
    ∃ start done, InRegion s start done := by
  cases pc with
  | loop t =>
      cases t with
      | nothing => exact ⟨_, _, exits.1⟩
      | _ => exact exits.elim
  | storeStart | storeDone | clearDeque | testExiting | storeCilkified =>
      exact ⟨_, _, exits.1⟩
  | _ => exact exits.elim

/-- The places of the workers do not matter for what has been stored. -/
theorem Exits.congr {ended : ℕ} {workers : W → WorkerPc} {seen : W → ℕ}
    (exits : Exits s ended pc) :
    Exits { s with worker := workers, seen } ended pc := by
  have stored {start done : Bool} (flags : InRegion s start done) :
      InRegion { s with worker := workers, seen } start done :=
    ⟨flags.boss, flags.cilkified, flags.terminate, flags.start, flags.done⟩
  have kept {exited : List (W × ℕ)}
      (logged : Logged s (ended + 1) ended ended exited) :
      Logged { s with worker := workers, seen } (ended + 1) ended ended exited :=
    ⟨logged.entries, logged.exits, logged.clears, logged.returns⟩
  cases pc with
  | loop t =>
      cases t with
      | nothing => exact ⟨stored exits.1, kept exits.2⟩
      | _ => exact exits.elim
  | storeStart | storeDone | clearDeque | testExiting | storeCilkified =>
      exact ⟨stored exits.1, kept exits.2⟩
  | _ => exact exits.elim

/-- The root closure goes from one worker to another. -/
theorem Running.replace {workers : W → WorkerPc} {parked : ℕ}
    (running : Running s)
    (inScheduler : (workers s.exitingWorker).inScheduler = true)
    (root : RootHeld { s with worker := workers, parked }) :
    Running { s with worker := workers, parked } := by
  obtain ⟨ended, logged, counted⟩ := running.logged
  have flags := running.flags
  exact ⟨⟨flags.boss, flags.cilkified, flags.terminate, flags.start,
    flags.done⟩, inScheduler, root, ended, ⟨logged.entries, logged.exits,
    logged.clears, logged.returns⟩, counted⟩

/-- Only the holder is not at an ordinary place. -/
theorem RootHeld.holder (root : RootHeld s)
    (here : (s.worker worker).ordinary = false) :
    s.parked = 0 ∧ (s.worker worker).hasRoot = true ∧
      ∀ other, other ≠ worker → (s.worker other).ordinary = true := by
  rcases root with ⟨-, ordinary⟩ | ⟨noRoot, holder, hasRoot, others⟩
  · rw [ordinary worker] at here
    cases here
  · have same : worker = holder := by
      by_contra different
      rw [others worker different] at here
      cases here
    subst holder
    exact ⟨noRoot, hasRoot, others⟩

theorem RootHeld.suspended (root : RootHeld s) (parked : 0 < s.parked) :
    s.parked = 1 ∧ ∀ worker, (s.worker worker).ordinary = true := by
  rcases root with suspended | ⟨noRoot, -⟩
  · exact suspended
  · rw [noRoot] at parked
    cases parked

end WorkerSteps

variable [DecidableEq W]

section Moves

variable {s next : State W} {worker : W} {pc : WorkerPc} {action : Action W}

@[simp] theorem move_self : (s.move worker pc).worker worker = pc :=
  Function.update_self ..

theorem move_of_ne {other : W} (different : other ≠ worker) :
    (s.move worker pc).worker other = s.worker other :=
  Function.update_of_ne different ..

/-- What is known of the place of a worker after some worker has moved. -/
theorem move_at {property : WorkerPc → Prop} {other : W}
    (before : other ≠ worker → property (s.worker other))
    (moved : worker = other → property pc) :
    property ((s.move worker pc).worker other) := by
  by_cases same : other = worker
  · subst other
    rw [move_self]
    exact moved rfl
  · rw [move_of_ne same]
    exact before same

theorem ordinary_move {other : W}
    (others : other ≠ worker → (s.worker other).ordinary = true)
    (after : pc.ordinary = true) :
    ((s.move worker pc).worker other).ordinary = true :=
  @move_at _ _ _ _ _ (fun pc => pc.ordinary = true) _ others fun _ => after

theorem inScheduler_move {other : W}
    (before : (s.worker other).inScheduler = true)
    (after : worker = other → pc.inScheduler = true) :
    ((s.move worker pc).worker other).inScheduler = true :=
  @move_at _ _ _ _ _ (fun pc => pc.inScheduler = true) _ (fun _ => before)
    after

end Moves

section Stages

variable {s next : State W} {worker : W} {pc : WorkerPc} {action : Action W}

theorem Apart.wander {seen : W → ℕ} (apart : Apart s)
    (ordinary : pc.ordinary = true)
    (rests : worker = s.exitingWorker → pc.Rests s.terminate) :
    Apart { s.move worker pc with seen } := by
  constructor
  case ordinary =>
    exact fun other => ordinary_move (fun _ => apart.ordinary other) ordinary
  case parked => exact apart.parked
  case rests =>
    exact @move_at _ _ _ _ _ (·.Rests s.terminate) _ (fun _ => apart.rests)
      rests
  case stopped => exact apart.stopped
  case boss => exact apart.boss
  case logged =>
    obtain ⟨returned, logged, counted⟩ := apart.logged
    exact ⟨returned, ⟨logged.entries, logged.exits, logged.clears,
      logged.returns⟩, counted⟩

theorem Apart.step (apart : Apart s) (taken : Step s action next) :
    Stage next := by
  have boss := apart.boss
  have ordinary := apart.ordinary
  obtain ⟨returned, ⟨entries, exits, clears, returns⟩, counted⟩ := apart.logged
  have noRoot : s.parked = 0 := apart.parked
  cases taken
  case makeRootReady here =>
    rw [BossFits, here] at boss
    rw [here] at counted
    exact .apart ⟨ordinary, noRoot, apart.rests, apart.stopped, boss,
      returned, ⟨entries, exits, clears, returns⟩, counted⟩
  case setCilkified here =>
    rw [BossFits, here] at boss
    rw [here] at counted
    exact .apart ⟨ordinary, noRoot, apart.rests, apart.stopped, ⟨boss, rfl⟩,
      returned, ⟨entries, exits, clears, returns⟩, counted⟩
  case resetDone here =>
    rw [BossFits, here] at boss
    rw [here] at counted
    exact .apart ⟨ordinary, noRoot, apart.rests, apart.stopped,
      ⟨boss.1, boss.2, rfl⟩,
      returned, ⟨entries, exits, clears, returns⟩, counted⟩
  case setStart here =>
    rw [BossFits, here] at boss
    obtain ⟨notTerminate, cilkified, notDone⟩ := boss
    rw [here] at counted
    have same : s.region = returned := counted
    have waits : s.worker s.exitingWorker = .waitStart := by
      have rests := apart.rests
      cases place : s.worker s.exitingWorker <;>
        simp [place, WorkerPc.Rests, notTerminate] at rests ⊢
    refine .starting ⟨⟨rfl, cilkified, notTerminate, rfl, notDone⟩, ordinary,
      noRoot, .inl waits, fun started => absurd waits started, s.region,
      ⟨entries, exits, clears, ?_⟩, rfl⟩
    rw [same]
    exact returns
  case returnFromWait here cleared =>
    rw [BossFits, here] at boss
    rw [here] at counted
    refine .apart ⟨ordinary, noRoot, apart.rests, apart.stopped, boss.1,
      s.region, ⟨entries, exits, clears, ?_⟩, rfl⟩
    show s.returns ++ [s.region] = _
    rw [returns, counted]
    simp [List.range'_1_concat, Nat.add_comm]
  case setTerminate here =>
    rw [here] at counted
    refine .apart ⟨ordinary, noRoot, ?_, fun _ => rfl, rfl,
      returned, ⟨entries, exits, clears, returns⟩, counted⟩
    have rests := apart.rests
    show (s.worker s.exitingWorker).Rests true
    cases place : s.worker s.exitingWorker <;>
      simp_all [WorkerPc.Rests]
  case releaseWorkers here =>
    rw [BossFits, here] at boss
    rw [here] at counted
    exact .apart ⟨ordinary, noRoot, apart.rests, fun _ => boss, boss,
      returned, ⟨entries, exits, clears, returns⟩, counted⟩
  case passStart worker here started =>
    refine .apart (apart.wander rfl fun _ => ?_)
    exact apart.stopped started
  case move worker pc taken =>
    have rests : worker = s.exitingWorker → pc.Rests s.terminate := by
      rintro rfl
      exact taken.rests apart.rests
    rcases taken.ordinary (ordinary worker) with stays | ⟨-, rfl, exits⟩
    · exact .apart (@Apart.wander _ _ _ _ _ s.seen apart stays rests)
    · exact (rests exits).elim
  case enterRoot worker here exits =>
    have rests := apart.rests
    rw [← exits, here] at rests
    exact rests.elim
  case continueRoot worker here suspended =>
    rw [noRoot] at suspended
    cases suspended
  case returnToRoot worker here suspended =>
    rw [noRoot] at suspended
    cases suspended
  case stealRoot thief victim searching here =>
    have place := ordinary victim
    rw [here] at place
    cases place
  all_goals
    rename_i worker here
    have place := ordinary worker
    rw [here] at place
    cases place

theorem Starting.wander {seen : W → ℕ} (starting : Starting s)
    (ordinary : pc.ordinary = true)
    (enters : worker = s.exitingWorker → pc.Enters)
    (sees : (s.move worker pc).worker s.exitingWorker ≠ .waitStart →
      seen s.exitingWorker = s.region) :
    Starting { s.move worker pc with seen } := by
  obtain ⟨ended, logged, counted⟩ := starting.logged
  have flags := starting.flags
  constructor
  case flags =>
    exact ⟨flags.boss, flags.cilkified, flags.terminate, flags.start,
      flags.done⟩
  case ordinary =>
    exact fun other =>
      ordinary_move (fun _ => starting.ordinary other) ordinary
  case parked => exact starting.parked
  case enters =>
    exact @move_at _ _ _ _ _ (·.Enters) _ (fun _ => starting.enters) enters
  case seen => exact sees
  case logged =>
    exact ⟨ended, ⟨logged.entries, logged.exits, logged.clears,
      logged.returns⟩, counted⟩

theorem Starting.step (starting : Starting s) (taken : Step s action next) :
    Stage next := by
  have flags := starting.flags
  have noBoss := flags.noBoss
  have ordinary := starting.ordinary
  have noRoot : s.parked = 0 := starting.parked
  obtain ⟨ended, ⟨entries, exits, clears, returns⟩, counted⟩ := starting.logged
  cases taken
  case makeRootReady here => exact absurd here noBoss.1
  case setCilkified here => exact absurd here noBoss.2.1
  case resetDone here => exact absurd here noBoss.2.2.1
  case setStart here => exact absurd here noBoss.2.2.2.1
  case returnFromWait here cleared => exact absurd cleared noBoss.2.2.2.2.2
  case setTerminate here => exact absurd here noBoss.1
  case releaseWorkers here => exact absurd here noBoss.2.2.2.2.1
  case passStart worker here started =>
    refine .starting (starting.wander rfl (fun _ => .inr (.inl rfl)) ?_)
    intro moved
    by_cases same : s.exitingWorker = worker
    · rw [same, Function.update_self]
    · rw [Function.update_of_ne same]
      rw [move_of_ne same] at moved
      exact starting.seen moved
  case move worker pc taken =>
    have enters : worker = s.exitingWorker → pc.Enters := by
      intro same
      exact taken.enters (same ▸ starting.enters) flags.terminate same
    have sees : (s.move worker pc).worker s.exitingWorker ≠ .waitStart →
        s.seen s.exitingWorker = s.region := by
      intro moved
      apply starting.seen
      intro waits
      by_cases same : s.exitingWorker = worker
      · rw [← same, waits] at taken
        cases taken
      · rw [move_of_ne same] at moved
        exact moved waits
    rcases taken.ordinary (ordinary worker) with stays | ⟨-, rfl, same⟩
    · exact .starting
        (@Starting.wander _ _ _ _ _ s.seen starting stays enters sees)
    · rcases enters same with here | here | here <;> cases here
  case enterRoot worker here same =>
    subst same
    refine .running ⟨⟨flags.boss, flags.cilkified, flags.terminate, flags.start,
      flags.done⟩, ?_, .inr ⟨noRoot, s.exitingWorker, ?_, ?_⟩, ended,
      ⟨?_, exits, clears, returns⟩, counted⟩
    · show ((s.move _ _).worker s.exitingWorker).inScheduler = true
      rw [move_self]
      rfl
    · show ((s.move _ _).worker s.exitingWorker).hasRoot = true
      rw [move_self]
      rfl
    · intro other different
      show ((s.move _ _).worker other).ordinary = true
      rw [move_of_ne different]
      exact ordinary other
    · show (s.entries ++ [(s.exitingWorker, s.region)]).map Prod.snd = _
      rw [List.map_append, entries, counted]
      simp [List.range'_1_concat, Nat.add_comm]
  case continueRoot worker here suspended =>
    rw [noRoot] at suspended
    cases suspended
  case returnToRoot worker here suspended =>
    rw [noRoot] at suspended
    cases suspended
  case stealRoot thief victim searching here =>
    have place := ordinary victim
    rw [here] at place
    cases place
  all_goals
    rename_i worker here
    have place := ordinary worker
    rw [here] at place
    cases place

theorem RootHeld.wander {seen : W → ℕ} (root : RootHeld s)
    (ordinary : (s.worker worker).ordinary = true → pc.ordinary = true)
    (hasRoot : (s.worker worker).hasRoot = true → pc.hasRoot = true) :
    RootHeld { s.move worker pc with seen } := by
  rcases root with ⟨suspended, all⟩ | ⟨noRoot, holder, held, others⟩
  · exact .inl ⟨suspended, fun other =>
      ordinary_move (fun _ => all other) (ordinary (all worker))⟩
  · refine .inr ⟨noRoot, holder, ?_, ?_⟩
    · refine @move_at _ _ _ _ _ (fun pc => pc.hasRoot = true) _
        (fun _ => held) ?_
      intro same
      exact hasRoot (same ▸ held)
    · intro other different
      refine @move_at _ _ _ _ _ (fun pc => pc.ordinary = true) _
        (fun _ => others other different) ?_
      intro same
      exact ordinary (same ▸ others other different)

/-- A worker takes the root closure. -/
theorem RootHeld.take (noRoot : next.parked = 0)
    (moved : next.worker = (s.move worker pc).worker)
    (hasRoot : pc.hasRoot = true)
    (others : ∀ other, other ≠ worker → (s.worker other).ordinary = true) :
    RootHeld next := by
  refine .inr ⟨noRoot, worker, ?_, ?_⟩
  · rw [moved, move_self]
    exact hasRoot
  · intro other different
    rw [moved, move_of_ne different]
    exact others other different

theorem Running.wander {seen : W → ℕ} (running : Running s)
    (inScheduler : worker = s.exitingWorker → pc.inScheduler = true)
    (ordinary : (s.worker worker).ordinary = true → pc.ordinary = true)
    (hasRoot : (s.worker worker).hasRoot = true → pc.hasRoot = true) :
    Running { s.move worker pc with seen } := by
  obtain ⟨ended, logged, counted⟩ := running.logged
  have flags := running.flags
  constructor
  case flags =>
    exact ⟨flags.boss, flags.cilkified, flags.terminate, flags.start,
      flags.done⟩
  case inScheduler => exact inScheduler_move running.inScheduler inScheduler
  case root => exact running.root.wander ordinary hasRoot
  case logged =>
    exact ⟨ended, ⟨logged.entries, logged.exits, logged.clears,
      logged.returns⟩, counted⟩

theorem Running.stealRoot {thief victim : W} (running : Running s)
    (here : s.worker victim = .executing true) :
    Running ((s.move victim (.executing false)).move thief
      (.executing true)) := by
  obtain ⟨noRoot, -, others⟩ := running.root.holder (by rw [here]; rfl)
  refine @Running.replace _ s _ s.parked running ?_ ?_
  · exact @inScheduler_move _ _ (s.move victim _) _ _ _
      (inScheduler_move running.inScheduler fun _ => rfl) fun _ => rfl
  · refine @RootHeld.take _ _ (s.move victim (.executing false)) _ thief _
      noRoot rfl rfl ?_
    exact fun other _ => ordinary_move (others other) rfl

theorem Running.step (running : Running s) (taken : Step s action next) :
    Stage next := by
  have flags := running.flags
  have noBoss := flags.noBoss
  have root := running.root
  have inScheduler := running.inScheduler
  obtain ⟨ended, ⟨entries, exits, clears, returns⟩, counted⟩ := running.logged
  cases taken
  case makeRootReady here => exact absurd here noBoss.1
  case setCilkified here => exact absurd here noBoss.2.1
  case resetDone here => exact absurd here noBoss.2.2.1
  case setStart here => exact absurd here noBoss.2.2.2.1
  case returnFromWait here cleared => exact absurd cleared noBoss.2.2.2.2.2
  case setTerminate here => exact absurd here noBoss.1
  case releaseWorkers here => exact absurd here noBoss.2.2.2.2.1
  case passStart worker here started =>
    refine .running (running.wander ?_ (fun _ => rfl) ?_)
    · intro same
      rw [← same, here] at inScheduler
      cases inScheduler
    · intro hasRoot
      rw [here] at hasRoot
      cases hasRoot
  case move worker pc taken =>
    refine .running (@Running.wander _ _ _ _ _ s.seen running ?_ ?_ ?_)
    · intro same
      exact taken.inScheduler (same ▸ inScheduler) flags.done
    · intro ordinary
      rcases taken.ordinary ordinary with stays | ⟨here, -, same⟩
      · exact stays
      · rw [← same, here] at inScheduler
        cases inScheduler
    · intro hasRoot
      exact taken.hasRoot hasRoot flags.done
  case enterRoot worker here same =>
    rw [← same, here] at inScheduler
    cases inScheduler
  case stealRoot thief victim searching here =>
    exact .running (running.stealRoot here)
  case suspendRoot worker here =>
    obtain ⟨noRoot, -, others⟩ := root.holder (by rw [here]; rfl)
    refine .running (running.replace
      (inScheduler_move inScheduler fun _ => rfl) ?_)
    exact .inl ⟨by rw [noRoot], fun other => ordinary_move (others other) rfl⟩
  case continueRoot worker here suspended =>
    obtain ⟨once, ordinary⟩ := root.suspended suspended
    refine .running (running.replace
      (inScheduler_move inScheduler fun _ => rfl) ?_)
    exact RootHeld.take (by rw [once]) rfl rfl fun other _ => ordinary other
  case returnToRoot worker here suspended =>
    obtain ⟨once, ordinary⟩ := root.suspended suspended
    refine .running (running.replace
      (inScheduler_move inScheduler fun _ => rfl) ?_)
    exact RootHeld.take (by rw [once]) rfl rfl fun other _ => ordinary other
  case recordExit worker here =>
    obtain ⟨noRoot, -, others⟩ := root.holder (by rw [here]; rfl)
    refine .exiting ⟨?_, noRoot, ended, ?_, counted⟩
    · intro other different
      show ((s.move worker .storeStart).worker other).ordinary = true
      rw [move_of_ne different]
      exact others other different
    · show Exits _ ended ((s.move worker .storeStart).worker worker)
      rw [move_self]
      exact ⟨⟨flags.boss, flags.cilkified, flags.terminate, flags.start,
        flags.done⟩, ⟨entries, exits, clears, returns⟩⟩
  all_goals
    rename_i worker here
    obtain ⟨-, hasRoot, -⟩ := root.holder (by rw [here]; rfl)
    rw [here] at hasRoot
    cases hasRoot

/-- Another worker moves. -/
theorem Exiting.wander {seen : W → ℕ} (exiting : Exiting s)
    (different : s.exitingWorker ≠ worker) (ordinary : pc.ordinary = true) :
    Exiting { s.move worker pc with seen } := by
  obtain ⟨ended, exits, counted⟩ := exiting.exits
  refine ⟨?_, exiting.parked, ended, ?_, counted⟩
  · intro other notExiting
    exact ordinary_move (fun _ => exiting.ordinary other notExiting) ordinary
  · show Exits _ ended ((s.move worker pc).worker s.exitingWorker)
    rw [move_of_ne different]
    exact exits.congr

/-- The exiting worker moves. -/
theorem Exiting.advance {ended : ℕ} (exiting : Exiting s)
    (same : worker = s.exitingWorker)
    (moved : next.worker = (s.move worker pc).worker)
    (stillExiting : next.exitingWorker = s.exitingWorker)
    (noRoot : next.parked = s.parked)
    (exits : Exits next ended pc) (counted : next.region = ended + 1) :
    Exiting next := by
  refine ⟨?_, noRoot.trans exiting.parked, ended, ?_, counted⟩
  · intro other notExiting
    rw [stillExiting] at notExiting
    rw [moved, move_of_ne (same ▸ notExiting)]
    exact exiting.ordinary other notExiting
  · rw [moved, stillExiting, ← same, move_self]
    exact exits

/-- Only the exiting worker is not at an ordinary place. -/
theorem Exiting.atExit (exiting : Exiting s)
    (here : (s.worker worker).ordinary = false) :
    worker = s.exitingWorker := by
  by_contra different
  rw [exiting.ordinary worker different] at here
  cases here

theorem Exiting.step (exiting : Exiting s) (taken : Step s action next) :
    Stage next := by
  have noRoot : s.parked = 0 := exiting.parked
  obtain ⟨ended, exits, counted⟩ := exiting.exits
  obtain ⟨start, done, flags⟩ := exits.flags
  have noBoss := flags.noBoss
  cases taken
  case makeRootReady here => exact absurd here noBoss.1
  case setCilkified here => exact absurd here noBoss.2.1
  case resetDone here => exact absurd here noBoss.2.2.1
  case setStart here => exact absurd here noBoss.2.2.2.1
  case returnFromWait here cleared => exact absurd cleared noBoss.2.2.2.2.2
  case setTerminate here => exact absurd here noBoss.1
  case releaseWorkers here => exact absurd here noBoss.2.2.2.2.1
  case passStart worker here started =>
    refine .exiting (exiting.wander ?_ rfl)
    intro same
    rw [same, here] at exits
    exact exits
  case move worker pc taken =>
    by_cases same : s.exitingWorker = worker
    · subst same
      generalize here : s.worker s.exitingWorker = before at taken exits
      cases taken
      case leave t isDone =>
        cases t with
        | nothing =>
            exact .exiting (exiting.advance rfl rfl rfl rfl
              (@Exits.congr _ s .testExiting _ _ s.seen exits) counted)
        | _ => exact exits.elim
      case search notDone =>
        exact absurd (notDone.symm.trans exits.1.done) nofun
      case isExiting =>
        exact .exiting (exiting.advance rfl rfl rfl rfl
          (@Exits.congr _ s .storeCilkified _ _ s.seen exits) counted)
      case notExiting different => exact absurd rfl different
      all_goals exact exits.elim
    · have before := exiting.ordinary worker fun moved => same moved.symm
      rcases taken.ordinary before with stays | ⟨-, -, moved⟩
      · exact .exiting (@Exiting.wander _ _ _ _ _ s.seen exiting same stays)
      · exact absurd moved.symm same
  case enterRoot worker here same =>
    rw [← same, here] at exits
    exact exits.elim
  case stealRoot thief victim searching here =>
    have same := @Exiting.atExit _ _ s victim exiting (by rw [here]; rfl)
    rw [← same, here] at exits
    exact exits.elim
  case suspendRoot worker here =>
    have same := @Exiting.atExit _ _ s worker exiting (by rw [here]; rfl)
    rw [← same, here] at exits
    exact exits.elim
  case continueRoot worker here suspended =>
    rw [noRoot] at suspended
    cases suspended
  case returnToRoot worker here suspended =>
    rw [noRoot] at suspended
    cases suspended
  case recordExit worker here =>
    have same := @Exiting.atExit _ _ s worker exiting (by rw [here]; rfl)
    rw [← same, here] at exits
    exact exits.elim
  case resetStart worker here =>
    have same := @Exiting.atExit _ _ s worker exiting (by rw [here]; rfl)
    rw [← same, here] at exits
    exact .exiting (exiting.advance same rfl rfl rfl
      ⟨⟨exits.1.boss, exits.1.cilkified, exits.1.terminate, rfl,
        exits.1.done⟩, ⟨exits.2.entries, exits.2.exits, exits.2.clears,
        exits.2.returns⟩⟩ counted)
  case setDone worker here =>
    have same := @Exiting.atExit _ _ s worker exiting (by rw [here]; rfl)
    rw [← same, here] at exits
    exact .exiting (exiting.advance same rfl rfl rfl
      ⟨⟨exits.1.boss, exits.1.cilkified, exits.1.terminate, exits.1.start,
        rfl⟩, ⟨exits.2.entries, exits.2.exits, exits.2.clears,
        exits.2.returns⟩⟩ counted)
  case exitRegion worker here =>
    have same := @Exiting.atExit _ _ s worker exiting (by rw [here]; rfl)
    rw [← same, here] at exits
    refine .exiting (exiting.advance same rfl rfl rfl
      ⟨⟨exits.1.boss, exits.1.cilkified, exits.1.terminate, exits.1.start,
        exits.1.done⟩, ⟨exits.2.entries, ?_, exits.2.clears,
        exits.2.returns⟩⟩ counted)
    show s.exits ++ [(worker, s.region)] = _
    rw [exits.2.exits, List.append_nil, same]
    rfl
  case clearCilkified worker here =>
    have same := @Exiting.atExit _ _ s worker exiting (by rw [here]; rfl)
    rw [← same, here] at exits
    obtain ⟨flags, logged⟩ := exits
    refine .apart ⟨?_, noRoot, ?_, ?_, ?_, ended, ⟨?_, ?_, ?_, ?_⟩, ?_⟩
    · intro other
      refine ordinary_move (fun different => ?_) rfl
      exact exiting.ordinary other (same ▸ different)
    · show ((s.move worker .waitStart).worker s.exitingWorker).Rests _
      rw [← same, move_self]
      exact trivial
    · intro started
      exact absurd (flags.start.symm.trans started) nofun
    · simp only [BossFits, State.move, flags.boss]
      exact ⟨flags.terminate, trivial⟩
    · show s.entries.map Prod.snd = List.range' 1 s.region
      rw [counted]
      exact logged.entries
    · show s.exits = s.clears ++ [(worker, s.region)] ++ []
      rw [logged.exits, same, List.append_nil]
    · show (s.clears ++ [(worker, s.region)]).map Prod.snd =
        List.range' 1 s.region
      rw [List.map_append, logged.clears, counted]
      simp [List.range'_1_concat, Nat.add_comm]
    · exact logged.returns
    · show s.region = ended + if s.boss = .waiting then 1 else 0
      rw [flags.boss, counted]
      rfl

theorem Stage.step (stage : Stage s) (taken : Step s action next) :
    Stage next := by
  cases stage with
  | apart apart => exact apart.step taken
  | starting starting => exact starting.step taken
  | running running => exact running.step taken
  | exiting exiting => exact exiting.step taken

end Stages

end Multicilk.Region
