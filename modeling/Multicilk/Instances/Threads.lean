import Mathlib.Data.Finset.Card
import Mathlib.Logic.Function.Basic

/-!
# Several runtimes in one process

Every thread can start a runtime of its own, which it keeps in thread-local
storage.  The workers of a runtime are threads too, with thread-local storage of
their own.  One variable is shared by the whole process: `cilkg_nproc`.  Every
thread has an affinity mask, which it has inherited from the thread that has
created it, and which decides how many workers a runtime gets by default.
-/

namespace Multicilk.Instances

/-- A runtime, named by the thread that has started it and by the number of
runtimes that this thread had started before. -/
structure RuntimeId (T : Type) where
  starter : T
  ordinal : ℕ
deriving DecidableEq

inductive Thread (T : Type) where
  | user (t : T)
  | worker (g : RuntimeId T) (self : ℕ)
deriving DecidableEq

/-- The thread on whose behalf a thread runs. -/
def Thread.owner {T : Type} : Thread T → T
  | .user t => t
  | .worker g _ => g.starter

structure GlobalState (T : Type) where
  boss : Thread T
  nworkers : ℕ
  workersStarted : Bool
  cilkified : Bool

/-- What the system tells the process. -/
structure Machine where
  /-- The CPUs that its threads may be bound to. -/
  allowed : Finset ℕ
  /-- The affinity mask of the main thread at the start. -/
  processMask : Finset ℕ
  /-- `_SC_NPROCESSORS_ONLN`. -/
  processorsOnline : ℕ

/-- `cilk_config_t`. -/
structure CilkConfig where
  nWorkers : ℕ
  bossAffinity : Finset ℕ

structure Process (T : Type) where
  /-- The runtimes that have been allocated and not been shut down. -/
  globals : RuntimeId T → Option (GlobalState T)
  /-- How many runtimes a thread has started. -/
  started : T → ℕ
  /-- The thread is inside `cilk_thrd_init`, with this configuration. -/
  starting : T → Option CilkConfig
  created : T → Bool
  exited : T → Bool
  affinity : Thread T → Finset ℕ
  /-- The worker is inside `thrd_create`, and has created this thread. -/
  creating : Thread T → Option T
  cilkgNproc : ℕ
  myCilkrts : Thread T → Option (RuntimeId T)
  tlsWorker : Thread T → Option (RuntimeId T × ℕ)

/-- The number of workers that `parse_rts_environment` chooses on a thread with
this affinity mask. -/
def activeSize (machine : Machine) (mask : Finset ℕ) (nworkers : ℕ) : ℕ :=
  if 0 < nworkers then nworkers
  else if 0 < mask.card then mask.card
  else machine.processorsOnline

/-- `pthread_setaffinity_np`, which fails if no CPU is left. -/
def setAffinity (machine : Machine) (cpus old : Finset ℕ) : Finset ℕ :=
  if (cpus ∩ machine.allowed).card = 0 then old else cpus ∩ machine.allowed

inductive Query where
  | getNworkers
  | numWorkers
  | isInitialized
  | thrdCurrent

inductive Answer (T : Type) where
  | number (count : ℕ)
  | truth (value : Bool)
  | thread (thread : Thread T)
  /-- A pointer has been followed that is not valid. -/
  | fault

inductive Event (T : Type) where
  | globalStateInit (t : T) (config : CilkConfig)
  | finishInit (t : T) (config : CilkConfig)
  | thrdCreate (creator : Thread T) (t : T)
  /-- A worker gives a thread that it has created the mask of its boss. -/
  | copyAffinity (creator : Thread T) (t : T)
  | cilkify (t : T)
  | exitCilkifiedRoot (t : T)
  | exit (t : T)
  | query (thread : Thread T) (query : Query)

def Event.owner {T : Type} : Event T → T
  | .globalStateInit t _ | .finishInit t _ | .cilkify t | .exitCilkifiedRoot t
  | .exit t => t
  | .thrdCreate creator _ | .copyAffinity creator _ => creator.owner
  | .query thread _ => thread.owner

namespace Process

variable {T : Type}

/-- `thrd_current`, as called by a thread. -/
def thrdCurrent (s : Process T) (thread : Thread T) : Option (Thread T) :=
  match s.tlsWorker thread with
  | none => some thread
  | some (g, _) => (s.globals g).map (·.boss)

def cilkThrdNumWorkers (s : Process T) (thread : Thread T) : Option ℕ :=
  (s.myCilkrts thread).bind fun g => (s.globals g).map (·.nworkers)

def isInitialized (s : Process T) (thread : Thread T) : Bool :=
  (s.myCilkrts thread).isSome

/-- `__cilkrts_get_nworkers`. -/
def getNworkers (s : Process T) : ℕ := s.cilkgNproc

def ask (s : Process T) (thread : Thread T) : Query → Answer T
  | .getNworkers => .number s.getNworkers
  | .numWorkers =>
      match s.cilkThrdNumWorkers thread with
      | some count => .number count
      | none => .fault
  | .isInitialized => .truth (s.isInitialized thread)
  | .thrdCurrent =>
      match s.thrdCurrent thread with
      | some current => .thread current
      | none => .fault

/-- The runtime in which a thread of the program is outside of any region. -/
def Outside (s : Process T) (t : T) (g : RuntimeId T) (global : GlobalState T) :
    Prop :=
  s.exited t = false ∧ s.starting t = none ∧ s.myCilkrts (.user t) = some g ∧
    s.globals g = some global ∧ global.cilkified = false

/-- Who asks: a boss thread outside of its regions, and the workers inside. -/
def CanAsk (s : Process T) : Thread T → Prop
  | .user t => ∃ g global, s.Outside t g global
  | .worker g self => ∃ global, s.globals g = some global ∧
      global.cilkified = true ∧ self < global.nworkers ∧
      s.creating (.worker g self) = none

section Steps

variable [DecidableEq T]

/-- `global_state_init`.  The new runtime is not in the thread-local storage of
its thread before `__cilkrts_startup` has returned. -/
def globalStateInit (s : Process T) (machine : Machine) (t : T)
    (config : CilkConfig) (boss : Thread T) : Process T :=
  let size := activeSize machine (s.affinity (.user t)) config.nWorkers
  { s with
    globals := Function.update s.globals ⟨t, s.started t⟩
      (some
        { boss
          nworkers := size
          workersStarted := false
          cilkified := false })
    started := Function.update s.started t (s.started t + 1)
    starting := Function.update s.starting t (some config)
    cilkgNproc := size }

/-- The end of `cilk_thrd_init`. -/
def finishInit (s : Process T) (machine : Machine) (t : T)
    (config : CilkConfig) : Process T :=
  { s with
    myCilkrts :=
      Function.update s.myCilkrts (.user t) (some ⟨t, s.started t - 1⟩)
    starting := Function.update s.starting t none
    affinity := Function.update s.affinity (.user t)
      (setAffinity machine config.bossAffinity (s.affinity (.user t))) }

/-- A thread is created, and inherits the mask of the thread that creates it.
If that is a worker, `thrd_create` has not returned yet. -/
def thrdCreate (s : Process T) (creator : Thread T) (t : T) : Process T :=
  { s with
    created := Function.update s.created t true
    affinity := Function.update s.affinity (.user t) (s.affinity creator)
    creating :=
      match creator with
      | .user _ => s.creating
      | .worker _ _ => Function.update s.creating creator (some t) }

/-- The end of `thrd_create` on a worker. -/
def copyAffinity (s : Process T) (machine : Machine) (creator boss : Thread T)
    (t : T) : Process T :=
  { s with
    affinity := Function.update s.affinity (.user t)
      (setAffinity machine (s.affinity boss) (s.affinity (.user t)))
    creating := Function.update s.creating creator none }

/-- A region is started, and the threads of the workers if they have not been.
These set their `tls_worker` before anything else, and get their masks from
`threads_init`. -/
def invokeCilkifiedRoot (s : Process T) (g : RuntimeId T)
    (global : GlobalState T) (masks : ℕ → Finset ℕ) : Process T :=
  { s with
    globals := Function.update s.globals g
      (some { global with workersStarted := true, cilkified := true })
    affinity := fun thread =>
      match thread with
      | .user t => s.affinity (.user t)
      | .worker h self =>
          if global.workersStarted = false ∧ h = g ∧ self < global.nworkers then
            masks self
          else s.affinity (.worker h self)
    tlsWorker := fun thread =>
      match thread with
      | .user t => s.tlsWorker (.user t)
      | .worker h self =>
          if global.workersStarted = false ∧ h = g ∧ self < global.nworkers then
            some (g, self)
          else s.tlsWorker (.worker h self) }

def exitCilkifiedRoot (s : Process T) (g : RuntimeId T)
    (global : GlobalState T) : Process T :=
  { s with
    globals := Function.update s.globals g
      (some { global with cilkified := false }) }

/-- A thread ends.  What `cilk_thrd_init` has started is shut down then. -/
def exit (s : Process T) (main : T) (t : T) : Process T :=
  { s with
    exited := Function.update s.exited t true
    globals :=
      match s.myCilkrts (.user t) with
      | none => s.globals
      | some g =>
          if g = ⟨main, 0⟩ then s.globals
          else Function.update s.globals g none }

/-- The number of workers of the default runtime. -/
def defaultSize (machine : Machine) : ℕ :=
  activeSize machine machine.processMask 0

/-- The process when its default runtime has been started. -/
def initial (main : T) (machine : Machine) : Process T where
  globals := Function.update (fun _ => none) ⟨main, 0⟩
    (some
      { boss := .user main
        nworkers := defaultSize machine
        workersStarted := false
        cilkified := false })
  started := Function.update (fun _ => 0) main 1
  starting := fun _ => none
  created := Function.update (fun _ => false) main true
  exited := fun _ => false
  affinity := fun _ => machine.processMask
  creating := fun _ => none
  cilkgNproc := defaultSize machine
  myCilkrts := Function.update (fun _ => none) (.user main) (some ⟨main, 0⟩)
  tlsWorker := fun _ => none

/-- A thread that is not inside a region. -/
def Idle (s : Process T) (t : T) : Prop :=
  (s.created t = true ∧ s.exited t = false) ∧ s.starting t = none ∧
    ∀ g global, s.myCilkrts (.user t) = some g → s.globals g = some global →
      global.cilkified = false

/-- Who creates threads: a thread of the program that is not inside a region,
with a runtime or without, and the workers inside. -/
def CanCreate (s : Process T) : Thread T → Prop
  | .user t => s.Idle t
  | .worker g self => s.CanAsk (.worker g self)

inductive Step (main : T) (machine : Machine) :
    Process T → Event T → Process T → Prop where
  | globalStateInit {s : Process T} {t : T} {config : CilkConfig}
      {boss : Thread T} :
      s.Idle t → s.thrdCurrent (.user t) = some boss →
      Step main machine s (.globalStateInit t config)
        (s.globalStateInit machine t config boss)
  | finishInit {s : Process T} {t : T} {config : CilkConfig} :
      s.starting t = some config →
      Step main machine s (.finishInit t config) (s.finishInit machine t config)
  | thrdCreate {s : Process T} {creator : Thread T} {t : T} :
      s.CanCreate creator → s.created t = false →
      Step main machine s (.thrdCreate creator t) (s.thrdCreate creator t)
  | copyAffinity {s : Process T} {creator boss : Thread T} {t : T} :
      s.creating creator = some t → s.thrdCurrent creator = some boss →
      Step main machine s (.copyAffinity creator t)
        (s.copyAffinity machine creator boss t)
  | cilkify {s : Process T} {t : T} {g : RuntimeId T}
      {global : GlobalState T} {masks : ℕ → Finset ℕ} :
      s.Outside t g global →
      Step main machine s (.cilkify t) (s.invokeCilkifiedRoot g global masks)
  | exitCilkifiedRoot {s : Process T} {t : T} {g : RuntimeId T}
      {global : GlobalState T} :
      s.myCilkrts (.user t) = some g → s.globals g = some global →
      global.cilkified = true →
      (∀ self, s.creating (.worker g self) = none) →
      Step main machine s (.exitCilkifiedRoot t)
        (s.exitCilkifiedRoot g global)
  | exit {s : Process T} {t : T} :
      s.Idle t →
      Step main machine s (.exit t) (s.exit main t)
  | query {s : Process T} {thread : Thread T} {query : Query} :
      s.CanAsk thread →
      Step main machine s (.query thread query) s

end Steps

end Process

end Multicilk.Instances
