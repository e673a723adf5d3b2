import Multicilk.Instances.Threads
import Multicilk.Support.Run

/-!
# What the queries tell about other runtimes

What a query should return is determined by what its own thread has done.  Three
things can go wrong: the process-wide worker count is that of the runtime that
has been started last, a thread has an affinity mask that others have chosen,
and a worker has no runtime in its thread-local storage.
-/

namespace Multicilk.Instances

open TransitionSystem

variable {T : Type}

abbrev Trace (T : Type) := List (Process T × Event T)

def eventsOf (trace : Trace T) : List (Event T) := trace.map Prod.snd

section Specification

/-- The number of workers that the last start-up of a trace has chosen, with the
mask that its thread had then, or that of the default runtime. -/
def lastSize (machine : Machine) (trace : Trace T) : ℕ :=
  trace.foldl
    (fun size entry =>
      match entry.2 with
      | .globalStateInit t config =>
          activeSize machine (entry.1.affinity (.user t)) config.nWorkers
      | _ => size)
    (Process.defaultSize machine)

/-- What a thread chooses for itself: the number of its workers, and its mask,
which is that of the process as long as it has not chosen any. -/
def choose (machine : Machine) (chosen : ℕ × Finset ℕ) :
    Event T → ℕ × Finset ℕ
  | .globalStateInit _ config =>
      (activeSize machine chosen.2 config.nWorkers, chosen.2)
  | .finishInit _ config =>
      (chosen.1, setAffinity machine config.bossAffinity chosen.2)
  | _ => chosen

def chosenSize (machine : Machine) (own : List (Event T)) : ℕ :=
  (own.foldl (choose machine)
    (Process.defaultSize machine, machine.processMask)).1

variable [DecidableEq T]

/-- What a thread and its workers have done. -/
def ownTrace (t : T) (trace : Trace T) : Trace T :=
  trace.filter (·.2.owner = t)

def ownEvents (t : T) (trace : Trace T) : List (Event T) :=
  eventsOf (ownTrace t trace)

/-- The answer that depends on nothing but the own events. -/
def expected (machine : Machine) (t : T) (own : List (Event T)) :
    Query → Answer T
  | .getNworkers | .numWorkers => .number (chosenSize machine own)
  | .isInitialized => .truth true
  | .thrdCurrent => .thread (.user t)

/-- Every query of a run is answered from the own events alone. -/
def QueriesIsolated (machine : Machine) (trace : Trace T) : Prop :=
  ∀ before source thread query after,
    trace = before ++ (source, .query thread query) :: after →
    source.ask thread query =
      expected machine thread.owner (ownEvents thread.owner before) query

end Specification

section Events

variable {machine : Machine} {trace : Trace T} {event : Event T} {t : T}
  {config : CilkConfig} {source : Process T}

theorem lastSize_init :
    lastSize machine (trace ++ [(source, .globalStateInit t config)]) =
      activeSize machine (source.affinity (.user t)) config.nWorkers := by
  simp [lastSize]

/-- No other event chooses a number of workers. -/
theorem lastSize_snoc
    (notInit : ∀ t config, event ≠ .globalStateInit t config) :
    lastSize machine (trace ++ [(source, event)]) = lastSize machine trace := by
  cases event with
  | globalStateInit t config => exact absurd rfl (notInit t config)
  | _ => simp [lastSize]

variable [DecidableEq T]

theorem ownTrace_snoc_own (own : event.owner = t) :
    ownTrace t (trace ++ [(source, event)]) =
      ownTrace t trace ++ [(source, event)] := by
  simp [ownTrace, own]

theorem ownTrace_snoc_other (different : event.owner ≠ t) :
    ownTrace t (trace ++ [(source, event)]) = ownTrace t trace := by
  simp [ownTrace, different]

theorem lastSize_own_snoc
    (notInit : ∀ t config, event ≠ .globalStateInit t config) :
    lastSize machine (ownTrace t (trace ++ [(source, event)])) =
      lastSize machine (ownTrace t trace) := by
  by_cases own : event.owner = t
  · rw [ownTrace_snoc_own own, lastSize_snoc notInit]
  · rw [ownTrace_snoc_other own]

end Events

section Invariant

variable [DecidableEq T] {main : T} {machine : Machine} {trace : Trace T}
  {s target : Process T} {event : Event T}

/-- What holds in every state of a run. -/
structure Consistent (machine : Machine) (trace : Trace T) (s : Process T) :
    Prop where
  nproc : s.cilkgNproc = lastSize machine trace
  userTls : ∀ t, s.tlsWorker (.user t) = none
  workerMine : ∀ g self, s.myCilkrts (.worker g self) = none
  known : ∀ g global, s.globals g = some global →
    global.boss = .user g.starter ∧ g.ordinal < s.started g.starter
  latest : ∀ t g, s.myCilkrts (.user t) = some g → g.starter = t ∧
    (s.starting t = none → g.ordinal + 1 = s.started t)
  begun : ∀ t, s.starting t ≠ none → 0 < s.started t
  size : ∀ g global, s.globals g = some global →
    g.ordinal + 1 = s.started g.starter →
    global.nworkers = lastSize machine (ownTrace g.starter trace)
  threads : ∀ g global, s.globals g = some global →
    global.workersStarted = true → ∀ self, self < global.nworkers →
      s.tlsWorker (.worker g self) = some (g, self)
  inRegion : ∀ g global, s.globals g = some global → global.cilkified = true →
    global.workersStarted = true ∧ s.starting g.starter = none ∧
      s.myCilkrts (.user g.starter) = some g

/-- What is found after an entry has been written. -/
theorem found_after_update {Key Value : Type} [DecidableEq Key]
    {table next : Key → Option Value} {key other : Key} {value found : Value}
    (isFound : next other = some found)
    (written : next = Function.update table key (some value)) :
    other = key ∧ value = found ∨ other ≠ key ∧ table other = some found := by
  subst next
  by_cases same : other = key
  · subst other
    rw [Function.update_self] at isFound
    exact .inl ⟨rfl, Option.some.inj isFound⟩
  · rw [Function.update_of_ne same] at isFound
    exact .inr ⟨same, isFound⟩

theorem consistent_initial :
    Consistent machine [] (Process.initial main machine) := by
  constructor
  case nproc => rfl
  case userTls => exact fun _ => rfl
  case workerMine => exact fun _ _ => rfl
  case known =>
    intro g global found
    rcases found_after_update found rfl with ⟨rfl, rfl⟩ | ⟨-, none⟩
    · exact ⟨rfl, by simp [Process.initial]⟩
    · cases none
  case latest =>
    intro t g found
    rcases found_after_update found rfl with ⟨same, rfl⟩ | ⟨-, none⟩
    · cases same
      exact ⟨rfl, fun _ => by simp [Process.initial]⟩
    · cases none
  case begun => exact fun _ starting => absurd rfl starting
  case size =>
    intro g global found latest
    rcases found_after_update found rfl with ⟨rfl, rfl⟩ | ⟨-, none⟩
    · rfl
    · cases none
  case threads =>
    intro g global found started
    rcases found_after_update found rfl with ⟨rfl, rfl⟩ | ⟨-, none⟩
    · cases started
    · cases none
  case inRegion =>
    intro g global found cilkified
    rcases found_after_update found rfl with ⟨rfl, rfl⟩ | ⟨-, none⟩
    · cases cilkified
    · cases none

theorem Consistent.globalStateInit {t : T} {config : CilkConfig}
    {boss : Thread T}
    (consistent : Consistent machine trace s) (idle : s.Idle t)
    (current : s.thrdCurrent (.user t) = some boss) :
    Consistent machine (trace ++ [(s, .globalStateInit t config)])
      (s.globalStateInit machine t config boss) := by
  have isBoss : boss = .user t := by
    rw [Process.thrdCurrent, consistent.userTls] at current
    exact (Option.some.inj current).symm
  constructor
  case nproc =>
    rw [lastSize_init]
    rfl
  case userTls => exact consistent.userTls
  case workerMine => exact consistent.workerMine
  case known =>
    intro g global found
    rcases found_after_update found rfl with ⟨rfl, rfl⟩ | ⟨-, old⟩
    · exact ⟨isBoss, by simp [Process.globalStateInit]⟩
    · obtain ⟨sameBoss, below⟩ := consistent.known g global old
      refine ⟨sameBoss, ?_⟩
      by_cases same : g.starter = t
      · simp only [Process.globalStateInit, same, Function.update_self]
        exact Nat.lt_succ_of_lt (same ▸ below)
      · simpa [Process.globalStateInit, same] using below
  case latest =>
    intro other g found
    obtain ⟨sameStarter, latest⟩ := consistent.latest other g found
    refine ⟨sameStarter, fun notStarting => ?_⟩
    by_cases same : other = t
    · simp [Process.globalStateInit, same] at notStarting
    · simp only [Process.globalStateInit, Function.update_of_ne same]
        at notStarting ⊢
      exact latest notStarting
  case begun =>
    intro other starting
    by_cases same : other = t
    · simp [Process.globalStateInit, same]
    · simp only [Process.globalStateInit, Function.update_of_ne same]
        at starting ⊢
      exact consistent.begun other starting
  case size =>
    intro g global found latest
    rcases found_after_update found rfl with ⟨rfl, rfl⟩ | ⟨-, old⟩
    · have own : ownTrace t (trace ++ [(s, .globalStateInit t config)]) =
          ownTrace t trace ++ [(s, .globalStateInit t config)] :=
        ownTrace_snoc_own rfl
      rw [own, lastSize_init]
    · by_cases same : g.starter = t
      · have below := (consistent.known g global old).2
        simp only [Process.globalStateInit, same, Function.update_self]
          at latest below
        omega
      · simp only [Process.globalStateInit, Function.update_of_ne same]
          at latest
        rw [ownTrace_snoc_other (Ne.symm same)]
        exact consistent.size g global old latest
  case threads =>
    intro g global found started
    rcases found_after_update found rfl with ⟨rfl, rfl⟩ | ⟨-, old⟩
    · cases started
    · exact consistent.threads g global old started
  case inRegion =>
    intro g global found cilkified
    rcases found_after_update found rfl with ⟨rfl, rfl⟩ | ⟨-, old⟩
    · cases cilkified
    · obtain ⟨started, notStarting, mine⟩ :=
        consistent.inRegion g global old cilkified
      have different : g.starter ≠ t := by
        rintro rfl
        rw [idle.2.2 g global mine old] at cilkified
        cases cilkified
      refine ⟨started, ?_, mine⟩
      simpa [Process.globalStateInit, different] using notStarting

theorem Consistent.finishInit {t : T} {config : CilkConfig}
    (consistent : Consistent machine trace s)
    (starting : s.starting t = some config) :
    Consistent machine (trace ++ [(s, .finishInit t config)])
      (s.finishInit machine t config) := by
  have begun := consistent.begun t (by simp [starting])
  constructor
  case nproc =>
    rw [lastSize_snoc nofun]
    exact consistent.nproc
  case userTls => exact consistent.userTls
  case workerMine =>
    intro g self
    simpa [Process.finishInit] using consistent.workerMine g self
  case known => exact consistent.known
  case latest =>
    intro other g found
    rcases found_after_update found rfl with ⟨same, rfl⟩ | ⟨different, old⟩
    · cases same
      exact ⟨rfl, fun _ => Nat.sub_add_cancel begun⟩
    · have notSame : other ≠ t := fun same => different (by rw [same])
      simpa [Process.finishInit, notSame] using consistent.latest other g old
  case begun =>
    intro other stillStarting
    by_cases same : other = t
    · simp [Process.finishInit, same] at stillStarting
    · simp only [Process.finishInit, Function.update_of_ne same]
        at stillStarting
      exact consistent.begun other stillStarting
  case size =>
    intro g global found latest
    rw [lastSize_own_snoc nofun]
    exact consistent.size g global found latest
  case threads => exact consistent.threads
  case inRegion =>
    intro g global found cilkified
    obtain ⟨started, notStarting, mine⟩ :=
      consistent.inRegion g global found cilkified
    have different : g.starter ≠ t := by
      rintro rfl
      rw [notStarting] at starting
      cases starting
    refine ⟨started, ?_, ?_⟩
    · simpa [Process.finishInit, different] using notStarting
    · simpa [Process.finishInit, different] using mine

theorem Consistent.invokeCilkifiedRoot {t : T} {g : RuntimeId T}
    {global : GlobalState T} {masks : ℕ → Finset ℕ}
    (consistent : Consistent machine trace s)
    (outside : s.Outside t g global) :
    Consistent machine (trace ++ [(s, .cilkify t)])
      (s.invokeCilkifiedRoot g global masks) := by
  obtain ⟨-, notStarting, mine, isGlobal, -⟩ := outside
  obtain ⟨rfl, -⟩ := consistent.latest t g mine
  constructor
  case nproc =>
    rw [lastSize_snoc nofun]
    exact consistent.nproc
  case userTls => exact consistent.userTls
  case workerMine => exact consistent.workerMine
  case known =>
    intro other found isFound
    rcases found_after_update isFound rfl with ⟨rfl, rfl⟩ | ⟨-, old⟩
    · exact consistent.known other global isGlobal
    · exact consistent.known other found old
  case latest => exact consistent.latest
  case begun => exact consistent.begun
  case size =>
    intro other found isFound latest
    rw [lastSize_own_snoc nofun]
    rcases found_after_update isFound rfl with ⟨rfl, rfl⟩ | ⟨-, old⟩
    · exact consistent.size other global isGlobal latest
    · exact consistent.size other found old latest
  case threads =>
    intro other found isFound started self within
    simp only [Process.invokeCilkifiedRoot]
    rcases found_after_update isFound rfl with ⟨rfl, rfl⟩ | ⟨different, old⟩
    · split
      next => rfl
      next already =>
        apply consistent.threads other global isGlobal _ self within
        rw [← Bool.not_eq_false]
        exact fun notStarted => already ⟨notStarted, rfl, within⟩
    · rw [if_neg fun both => different both.2.1]
      exact consistent.threads other found old started self within
  case inRegion =>
    intro other found isFound cilkified
    rcases found_after_update isFound rfl with ⟨rfl, rfl⟩ | ⟨-, old⟩
    · exact ⟨rfl, notStarting, mine⟩
    · exact consistent.inRegion other found old cilkified

/-- A runtime is changed or shut down, but not its workers, or a thread is
created. -/
theorem Consistent.modifyGlobals
    {globals : RuntimeId T → Option (GlobalState T)}
    {created exited : T → Bool} {affinity : Thread T → Finset ℕ}
    {creating : Thread T → Option T}
    (consistent : Consistent machine trace s)
    (notInit : ∀ t config, event ≠ .globalStateInit t config)
    (kept : ∀ g global, globals g = some global → ∃ old,
      s.globals g = some old ∧ old.boss = global.boss ∧
        old.nworkers = global.nworkers ∧
        old.workersStarted = global.workersStarted ∧
        (global.cilkified = true → old.cilkified = true)) :
    Consistent machine (trace ++ [(s, event)])
      { s with globals, created, exited, affinity, creating } := by
  constructor
  case nproc =>
    rw [lastSize_snoc notInit]
    exact consistent.nproc
  case userTls => exact consistent.userTls
  case workerMine => exact consistent.workerMine
  case known =>
    intro g global found
    obtain ⟨old, isOld, sameBoss, -⟩ := kept g global found
    exact sameBoss ▸ consistent.known g old isOld
  case latest => exact consistent.latest
  case begun => exact consistent.begun
  case size =>
    intro g global found latest
    obtain ⟨old, isOld, -, sameSize, -⟩ := kept g global found
    rw [lastSize_own_snoc notInit, ← sameSize]
    exact consistent.size g old isOld latest
  case threads =>
    intro g global found started self within
    obtain ⟨old, isOld, -, sameSize, sameStarted, -⟩ := kept g global found
    rw [← sameSize] at within
    rw [← sameStarted] at started
    exact consistent.threads g old isOld started self within
  case inRegion =>
    intro g global found cilkified
    obtain ⟨old, isOld, -, -, sameStarted, running⟩ := kept g global found
    rw [← sameStarted]
    exact consistent.inRegion g old isOld (running cilkified)

theorem Consistent.step (consistent : Consistent machine trace s)
    (taken : Process.Step main machine s event target) :
    Consistent machine (trace ++ [(s, event)]) target := by
  cases taken with
  | globalStateInit idle current =>
      exact consistent.globalStateInit idle current
  | finishInit starting => exact consistent.finishInit starting
  | thrdCreate creates fresh =>
      exact consistent.modifyGlobals (by nofun)
        fun g global found => ⟨global, found, rfl, rfl, rfl, id⟩
  | copyAffinity creates current =>
      exact consistent.modifyGlobals (by nofun)
        fun g global found => ⟨global, found, rfl, rfl, rfl, id⟩
  | cilkify outside => exact consistent.invokeCilkifiedRoot outside
  | exitCilkifiedRoot mine isGlobal cilkified none =>
      rename_i t g global
      refine consistent.modifyGlobals (by nofun) ?_
      intro other found isFound
      rcases found_after_update isFound rfl with ⟨rfl, rfl⟩ | ⟨-, old⟩
      · exact ⟨global, isGlobal, rfl, rfl, rfl, nofun⟩
      · exact ⟨found, old, rfl, rfl, rfl, id⟩
  | exit idle =>
      rename_i t
      refine consistent.modifyGlobals (by nofun) ?_
      intro other found isFound
      refine ⟨found, ?_, rfl, rfl, rfl, id⟩
      cases mine : s.myCilkrts (.user t) with
      | none => simpa only [mine] using isFound
      | some g =>
          simp only [mine] at isFound
          by_cases default : g = ⟨main, 0⟩
          · rwa [if_pos default] at isFound
          · rw [if_neg default] at isFound
            by_cases same : other = g
            · rw [same, Function.update_self] at isFound
              cases isFound
            · rwa [Function.update_of_ne same] at isFound
  | query asks =>
      exact consistent.modifyGlobals (by nofun)
        fun g global found => ⟨global, found, rfl, rfl, rfl, id⟩

theorem Consistent.of_run
    (run : Run (Process.Step main machine)
      (Process.initial main machine) trace s) :
    Consistent machine trace s :=
  run.traceInvariant consistent_initial
    fun _ _ _ _ _ consistent taken => consistent.step taken

end Invariant

section Queries

variable [DecidableEq T] {main : T} {machine : Machine} {trace : Trace T}
  {s : Process T}

end Queries

section TwoThreads

private def fourCpus : Machine where
  allowed := {0, 1, 2, 3}
  processMask := {0, 1, 2, 3}
  processorsOnline := 4

private abbrev start : Process Bool := Process.initial false fourCpus

private abbrev created : Process Bool := start.thrdCreate (.user false) true

private theorem main_idle {s : Process Bool} {g : RuntimeId Bool}
    {global : GlobalState Bool} (outside : s.Outside false g global)
    (created : s.created false = true) : s.Idle false := by
  obtain ⟨running, notStarting, mine, isGlobal, notCilkified⟩ := outside
  refine ⟨⟨created, running⟩, notStarting, ?_⟩
  intro other found isMine isFound
  rw [mine] at isMine
  cases isMine
  rw [isGlobal] at isFound
  cases isFound
  exact notCilkified

/-- The main thread binds itself to one CPU.  A thread that it creates then, and
that asks for as many workers as there are CPUs, gets one. -/
theorem inherited_mask_changes_num_workers :
    ¬ ∀ trace s, Run (Process.Step false fourCpus) start trace s →
      QueriesIsolated fourCpus trace := by
  intro isolated
  have restarted := Run.refl.snoc
    (@Process.Step.globalStateInit _ _ false fourCpus start false ⟨4, {0}⟩ _
      (@main_idle _ ⟨false, 0⟩ ⟨.user false, 4, false, false⟩
        ⟨rfl, rfl, rfl, rfl, rfl⟩ rfl) rfl)
  have bound := restarted.snoc
    (@Process.Step.finishInit _ _ false fourCpus _ false ⟨4, {0}⟩ rfl)
  have withThread := bound.snoc
    (@Process.Step.thrdCreate _ _ false fourCpus _ (.user false) true
      (@main_idle _ ⟨false, 1⟩ ⟨.user false, 4, false, false⟩
        ⟨rfl, rfl, rfl, rfl, rfl⟩ rfl) rfl)
  have started := withThread.snoc
    (@Process.Step.globalStateInit _ _ false fourCpus _ true
      ⟨0, {0, 1, 2, 3}⟩ _ ⟨⟨rfl, rfl⟩, rfl, nofun⟩ rfl)
  have finished := started.snoc
    (@Process.Step.finishInit _ _ false fourCpus _ true ⟨0, {0, 1, 2, 3}⟩ rfl)
  have asked := finished.snoc
    (@Process.Step.query _ _ false fourCpus _ (.user true) .numWorkers
      ⟨⟨true, 0⟩, ⟨.user true, 1, false, false⟩, rfl, rfl, rfl, rfl, rfl⟩)
  have answer := isolated _ _ asked [_, _, _, _, _] _ _ _ [] rfl
  cases answer

end TwoThreads

end Multicilk.Instances
