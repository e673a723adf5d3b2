import Multicilk.Scheduler.Lifetimes

/-!
# The end of a region

When the compiled code leaves the frame of the root closure, that closure is all
there is, and no worker has anything to do any more.
-/

namespace Multicilk.Scheduler

open Machine TransitionSystem

variable {M : Type*} [Monoid M] {m m' start source : Machine M} {action : Action}
  {trace : List (Machine M × Action)} {w c first root : ℕ}
  {young children : ℕ → List ℕ} {home : ℕ → ℕ}

/-- The worker has nothing to execute. -/
def Pc.Idle : Pc → Prop
  | .runtime | .looking | .thief => True
  | _ => False

/-- No worker has any closure. -/
structure Over (m : Machine M) : Prop where
  deques : ∀ w, m.sched.deques w = []
  idle : ∀ w, (m.pc w).Idle

omit [Monoid M] in
theorem idle_goto {p : Pc} {s : State M} (isIdle : p.Idle)
    (others : ∀ v, v ≠ w → (m.pc v).Idle) (v : ℕ) :
    ((m.goto w p s).pc v).Idle := by
  by_cases isHere : v = w
  · have isPc : (m.goto w p s).pc v = p := by
      rw [isHere]
      exact Function.update_self ..
    rwa [isPc]
  · have isPc : (m.goto w p s).pc v = m.pc v := Function.update_of_ne isHere ..
    rw [isPc]
    exact others v isHere

section Exit

omit [Monoid M] in
/-- The frame that is left last is that of the root closure, which has no children
any more. -/
theorem Regular.root_settled (regular : Regular m first root young children home)
    (isUser : m.pc w = .user) {f : ℕ}
    (current : (m.sched.workers w).currentStackFrame = some f)
    (synched : (m.sched.frames f).unsynched = false)
    (isLast : (m.sched.frames f).last = true) :
    m.sched.deques w = [root] ∧ m.sched.Settled root ∧
      (m.sched.core.nodes root).hasChildren = false := by
  have accounted := regular.accounted
  obtain ⟨t, isDeque, isOwn, -⟩ := Accounted.own_of_old isUser accounted current
    fun isYoung => absurd (isLast.symm.trans isYoung.notLast) Bool.noConfusion
  have has : t ∈ m.sched.core.carried m.pc w := by
    simp [Core.carried, isDeque]
  have active := accounted.placed.active has
  obtain rfl : t = root := accounted.framed.last t f active.live isOwn isLast
  have settled : m.sched.Settled t := by
    apply accounted.settled_of_synched (Accounted.not_promoting isUser) has
    intro g isFrame
    rw [isOwn, Option.some.injEq] at isFrame
    exact isFrame ▸ synched
  exact ⟨isDeque, settled, regular.childless active settled.1⟩

theorem Regular.exit (regular : Regular m first root young children home)
    (taken : Step m (.exit w) m') :
    Over m' ∧ m'.sched.created = m.sched.created ∧
      m'.sched.destroyed = m.sched.destroyed ∧
      m'.sched.core.nodes = m.sched.core.nodes ∧
      ∀ c, (m.sched.core.nodes c).Live ↔ c = root := by
  have placed := regular.accounted.placed
  cases taken with
  | @exit w sf isUser current synched isLast =>
      obtain ⟨isDeque, -, childless⟩ :=
        regular.root_settled isUser current synched isLast
      have live (c : ℕ) (isLive : (m.sched.core.nodes c).Live) : c = root :=
        regular.offspring.eq_root placed regular.ancestry childless isLive
      have isRoot : root ∈ m.sched.core.carried m.pc w :=
        List.mem_append_left _ (List.mem_of_mem_head? (by simp [State.core, isDeque]))
      have nothing (v : ℕ) (other : v ≠ w) :
          m.sched.core.carried m.pc v = [] := by
        rcases (placed.posture v).carried with isEmpty | ⟨c, isCarried, active⟩
        · exact isEmpty
        · have isHere : root ∈ m.sched.core.carried m.pc v := by
            rw [isCarried, live c active.live]
            exact List.mem_singleton_self root
          exact absurd (placed.apart v w root isHere isRoot) other
      refine ⟨⟨fun v => ?_, idle_goto trivial fun v other => ?_⟩, rfl, rfl, rfl,
        fun c => ⟨live c, fun isRoot => isRoot ▸ regular.logged.rootLive⟩⟩
      · by_cases isHere : v = w
        · exact isHere ▸ Function.update_self ..
        · exact (Function.update_of_ne isHere ..).trans
            (List.append_eq_nil_iff.mp (nothing v isHere)).1
      · obtain ⟨noDeque, noClosure⟩ :=
          List.append_eq_nil_iff.mp (nothing v other)
        have posture := placed.posture v
        cases isPc : m.pc v with
        | runtime | looking | thief => trivial
        | user | popped =>
            rw [isPc] at posture
            obtain ⟨t, someDeque, -⟩ := posture
            rw [noDeque] at someDeque
            cases someDeque
        | promoting | holding | executing | returning =>
            rw [isPc] at noClosure
            cases noClosure

end Exit

section Afterwards

/-- When the region is over, workers only give their fibers back and look for
work. -/
theorem Over.step (ended : Over m) (taken : Step m action m') :
    Over m' ∧ m'.sched.closures = m.sched.closures ∧
      m'.sched.frames = m.sched.frames ∧
      m'.sched.created = m.sched.created ∧
      m'.sched.destroyed = m.sched.destroyed ∧ ∀ w, action ≠ .exit w := by
  have idle (w : ℕ) {p : Pc} (isPc : m.pc w = p) : p.Idle := isPc ▸ ended.idle w
  have goes {w : ℕ} {p : Pc} {s : State M} (isIdle : p.Idle)
      (deques : s.deques = m.sched.deques) : Over (m.goto w p s) :=
    ⟨fun v => (congrFun deques v).trans (ended.deques v),
      idle_goto isIdle fun v _ => ended.idle v⟩
  cases taken with
  | freeFiber isRuntime =>
      have same : ∀ w, (freeFiber m.sched w).closures = m.sched.closures ∧
          (freeFiber m.sched w).frames = m.sched.frames ∧
          (freeFiber m.sched w).created = m.sched.created ∧
          (freeFiber m.sched w).destroyed = m.sched.destroyed ∧
          (freeFiber m.sched w).deques = m.sched.deques := by
        intro w
        unfold freeFiber
        split <;> exact ⟨rfl, rfl, rfl, rfl, rfl⟩
      obtain ⟨closures, frames, created, destroyed, deques⟩ := same _
      exact ⟨goes trivial deques, closures, frames, created, destroyed,
        fun _ => Action.noConfusion⟩
  | xtractNothing =>
      exact ⟨goes trivial rfl, rfl, rfl, rfl, rfl, fun _ => Action.noConfusion⟩
  | @xtractBottom w t isLooking bottom =>
      rw [dequePeekBottom, ended.deques w] at bottom
      cases bottom
  | @steal w victim fiber cl res s isThief other pooled top =>
      rw [dequePeekTop, ended.deques victim] at top
      cases top
  | mapFiber | unmapFiber =>
      exact ⟨⟨ended.deques, ended.idle⟩, rfl, rfl, rfl, rfl,
        fun _ => Action.noConfusion⟩
  | call isPc | spawn isPc | update _ isPc | leaveCalled isPc
  | leaveSpawned isPc | setReturn isPc | exit isPc | sync isPc
  | exceptionHandler isPc | finishPromote isPc | setupForExecution isPc
  | execute isPc | returnValue isPc | reducerIteration isPc
  | finishReturn isPc => exact (idle _ isPc).elim

/-- Nobody leaves the region any more. -/
theorem Over.run (ended : Over m) (run : Run Step m trace m') :
    Over m' ∧ m'.sched.closures = m.sched.closures ∧
      m'.sched.created = m.sched.created ∧
      m'.sched.destroyed = m.sched.destroyed ∧
      ∀ entry ∈ trace, ∀ w, entry.2 ≠ .exit w := by
  apply @Run.traceInvariant _ _ Step m m' trace
    (fun trace final => Over final ∧
      final.sched.closures = m.sched.closures ∧
      final.sched.created = m.sched.created ∧
      final.sched.destroyed = m.sched.destroyed ∧
      ∀ entry ∈ trace, ∀ w, entry.2 ≠ .exit w) run
    ⟨ended, rfl, rfl, rfl, by simp⟩
  rintro trace source action target - ⟨ended, closures, created, destroyed,
    noExit⟩ taken
  obtain ⟨isOver, sameClosures, -, sameCreated, sameDestroyed, notExit⟩ :=
    ended.step taken
  refine ⟨isOver, sameClosures.trans closures, sameCreated.trans created,
    sameDestroyed.trans destroyed, ?_⟩
  rw [List.forall_mem_append]
  exact ⟨noExit, List.forall_mem_singleton.mpr notExit⟩

theorem Pc.Idle.cases {p : Pc} (idle : p.Idle) :
    p = .runtime ∨ p = .looking ∨ p = .thief := by
  cases p with
  | runtime => exact .inl rfl
  | looking => exact .inr (.inl rfl)
  | thief => exact .inr (.inr rfl)
  | user | popped | promoting | holding | executing | returning =>
      exact idle.elim

end Afterwards

section Example

/-- The closure whose lock the worker holds. -/
def Pc.locked : Pc → Option ℕ
  | .promoting _ res => some res
  | _ => none

omit [Monoid M] in
theorem unlocked_of_two (first : (m.pc 0).locked = none)
    (second : (m.pc 1).locked = none) (others : ∀ v, m.pc (v + 2) = .thief)
    (c : ℕ) : m.Unlocked c := by
  intro w cl promoting
  match w with
  | 0 => simp [promoting, Pc.locked] at first
  | 1 => simp [promoting, Pc.locked] at second
  | v + 2 => simp [others v] at promoting

/-- A second worker steals the root closure from the first one, which returns its
child, and leaves the region after the sync. -/
theorem region_run : ∃ (trace : List (Machine (FreeMonoid ℕ) × Action))
    (source m : Machine (FreeMonoid ℕ)),
    Run Step regionStart trace source ∧ Step source (.exit 1) m ∧
    source.sched.destroyed.map Destruction.closure = [1] ∧
    source.sched.created = 2 ∧ source.sched.taken = [1] ∧
    ∀ v, v ≠ 1 → source.pc v ≠ .runtime := by
  have free {m : Machine (FreeMonoid ℕ)} (first : (m.pc 0).locked = none)
      (second : (m.pc 1).locked = none) (others : ∀ v, m.pc (v + 2) = .thief)
      {c : ℕ} : m.Unlocked c :=
    unlocked_of_two first second others c
  have start := @Run.refl (Machine (FreeMonoid ℕ)) _ Step regionStart
  have executing := start.snoc (@Step.setupForExecution _ _ _ 0 0 rfl
    (free rfl rfl fun _ => rfl) rfl)
  have user := executing.snoc (@Step.execute _ _ _ 0 0 rfl)
  have spawned := user.snoc (@Step.spawn _ _ _ 0 0 0 rfl rfl rfl)
  have stolen := spawned.snoc (@Step.steal _ _ _ 1 0 1 0 0 _ rfl (by decide)
    (by decide) rfl (free rfl rfl fun _ => rfl) rfl)
  have promoted := stolen.snoc (@Step.finishPromote _ _ _ 1 0 0 0 _ rfl rfl)
  -- The first worker is in the child, and comes to its end.
  have popped := promoted.snoc (@Step.leaveSpawned _ _ _ 0 1 _ rfl rfl rfl rfl
    rfl rfl)
  have handled := popped.snoc (@Step.exceptionHandler _ _ _ 0 1 _ _ rfl rfl
    (free rfl rfl fun _ => rfl) rfl)
  have looking := handled.snoc (@Step.freeFiber _ _ _ 0 rfl)
  have holding := looking.snoc (@Step.xtractBottom _ _ _ 0 1 rfl rfl)
  have returning := holding.snoc (@Step.returnValue _ _ _ 0 1 rfl
    (free rfl rfl fun _ => rfl) rfl)
  have returned := returning.snoc (@Step.finishReturn _ _ _ 0 1 0 _ _ rfl rfl
    (free rfl rfl fun _ => rfl) (free rfl rfl fun _ => rfl) rfl rfl rfl)
  -- The second one goes on with the root closure.
  have resumed := returned.snoc (@Step.setupForExecution _ _ _ 1 0 rfl
    (free rfl rfl fun _ => rfl) rfl)
  have again := resumed.snoc (@Step.execute _ _ _ 1 0 rfl)
  have synced := again.snoc (@Step.sync _ _ _ 1 0 0 _ _ rfl rfl rfl rfl
    (free rfl rfl fun _ => rfl) rfl)
  refine ⟨_, _, _, synced, @Step.exit _ _ _ 1 0 rfl rfl rfl rfl, rfl, rfl, rfl,
    ?_⟩
  rintro (_ | _ | v) other
  · exact Pc.noConfusion
  · exact absurd rfl other
  · exact Pc.noConfusion

end Example

section Regions

/-- What has become of a region. -/
structure Finished (m : Machine M) (first root : ℕ) : Prop where
  ended : Over m
  once : (m.sched.destroyed.map Destruction.closure).Nodup
  proper : ∀ d ∈ m.sched.destroyed, d.Proper
  all : ∀ c, c ∈ m.sched.destroyed.map Destruction.closure ↔
    first ≤ c ∧ c < m.sched.created
  live : ∀ c, (m.sched.core.nodes c).Live ↔ c = root

theorem Regular.finished (regular : Regular m first root young children home)
    (taken : Step m (.exit w) m') : Finished m' first root := by
  obtain ⟨ended, created, destroyed, nodes, live⟩ := regular.exit taken
  have logged := regular.logged
  constructor
  case ended => exact ended
  case once => exact destroyed.symm ▸ logged.once
  case proper => exact destroyed.symm ▸ logged.proper
  case all =>
    intro c
    rw [destroyed, created]
    constructor
    · intro member
      obtain ⟨d, isLogged, rfl⟩ := List.mem_map.mp member
      obtain ⟨later, allocated, -⟩ := logged.dead d isLogged
      exact ⟨later, allocated⟩
    · rintro ⟨later, allocated⟩
      apply (logged.all c later allocated).resolve_left
      rw [live]
      exact fun isRoot => absurd logged.rootOld (isRoot ▸ not_lt.mpr later)
  case live => rwa [nodes]

theorem Finished.step (finished : Finished m first root)
    (taken : Step m action m') : Finished m' first root := by
  obtain ⟨ended, closures, -, created, destroyed, -⟩ := finished.ended.step taken
  constructor
  case ended => exact ended
  case once => exact destroyed.symm ▸ finished.once
  case proper => exact destroyed.symm ▸ finished.proper
  case all =>
    rw [destroyed, created]
    exact finished.all
  case live =>
    intro c
    have nodes : m'.sched.core.nodes c = m.sched.core.nodes c :=
      congrArg Closure.node (congrFun closures c)
    rw [nodes]
    exact finished.live c

/-- A region is in progress, or it is over. -/
theorem run_regular (initial : Initial start) (run : Run Step start trace m) :
    (∃ young children home, Regular m start.sched.created
      start.sched.rootClosure young children home) ∨
    Finished m start.sched.created start.sched.rootClosure := by
  apply run.invariant (.inl ⟨_, _, initial_regular initial⟩)
  rintro source action target (⟨young, children, home, regular⟩ | finished) taken
  · by_cases isExit : ∃ w, action = .exit w
    · obtain ⟨w, rfl⟩ := isExit
      exact .inr (regular.finished taken)
    · obtain ⟨young', children', home', regular', -, -⟩ :=
        regular.step taken (not_exists.mp isExit)
      exact .inl ⟨young', children', home', regular'⟩
  · exact .inr (finished.step taken)

theorem regular_of_exit (initial : Initial start) (run : Run Step start trace m)
    (taken : Step m (.exit w) m') :
    ∃ young children home, Regular m start.sched.created
      start.sched.rootClosure young children home := by
  apply (run_regular initial run).resolve_right
  intro finished
  obtain ⟨-, -, -, -, -, notExit⟩ := finished.ended.step taken
  exact notExit w rfl

/-- Before the compiled code leaves the region it has not left it. -/
theorem inside_of_exit (initial : Initial start) (run : Run Step start trace m)
    (taken : Step m (.exit w) m') :
    ∀ entry ∈ trace, ∀ v, entry.2 ≠ .exit v := by
  rintro ⟨source, action⟩ member v rfl
  obtain ⟨first, last, target, -, before, left, between⟩ :=
    run.split_at_step member
  have finished : Finished target start.sched.created
      start.sched.rootClosure := by
    rcases run_regular initial before with ⟨young, children, home, regular⟩ | finished
    · exact regular.finished left
    · exact finished.step left
  obtain ⟨-, -, -, -, noSecond⟩ := finished.ended.run (between.snoc taken)
  exact noSecond (m, .exit w) (by simp) w rfl

/-- A closure is destroyed once, when it has returned and nothing is left in it,
and when the compiled code leaves the region all closures that were made for it
have been destroyed. -/
theorem closures_destroyed_once (initial : Initial start)
    (run : Run Step start trace m) :
    (m.sched.destroyed.map Destruction.closure).Nodup ∧
    (∀ d ∈ m.sched.destroyed, d.Proper) ∧
    ∀ w m', Step m (.exit w) m' →
      (∀ c, c ∈ m.sched.destroyed.map Destruction.closure ↔
        start.sched.created ≤ c ∧ c < m.sched.created) ∧
      (∀ c, ((m.sched.closures c).status ≠ .preInvalid ∧
        (m.sched.closures c).status ≠ .postInvalid) ↔
          c = start.sched.rootClosure) ∧
      m.sched.deques w = [start.sched.rootClosure] ∧
      ∀ v, v ≠ w → m.sched.deques v = [] := by
  constructor
  · rcases run_regular initial run with ⟨young, children, home, regular⟩ | finished
    · exact regular.logged.once
    · exact finished.once
  constructor
  · rcases run_regular initial run with ⟨young, children, home, regular⟩ | finished
    · exact regular.logged.proper
    · exact finished.proper
  · intro w m' taken
    obtain ⟨young, children, home, regular⟩ := regular_of_exit initial run taken
    have finished := regular.finished taken
    obtain ⟨ended, created, destroyed, nodes, live⟩ := regular.exit taken
    rw [← created, ← destroyed]
    refine ⟨finished.all, live, ?_⟩
    cases taken with
    | @exit w sf isUser current synched isLast =>
        refine ⟨(regular.root_settled isUser current synched isLast).1,
          fun v other => ?_⟩
        exact (Function.update_of_ne other ..).symm.trans (ended.deques v)

/-- The only closure that is made besides the root one is destroyed. -/
theorem closures_destroyed_once_region_run :
    ∃ source m : Machine (FreeMonoid ℕ), Step source (.exit 1) m ∧
      source.sched.deques 1 = [0] ∧
      ∀ c, c ∈ source.sched.destroyed.map Destruction.closure ↔
        1 ≤ c ∧ c < 2 := by
  obtain ⟨trace, source, m, run, left, -, created, -⟩ := region_run
  obtain ⟨all, -, holds, -⟩ :=
    (closures_destroyed_once regionStart_initial run).2.2 1 m left
  rw [created] at all
  exact ⟨source, m, left, holds, all⟩

/-- Before the region is left everything is kept. -/
theorem Regular.inside (regular : Regular m first root young children home)
    (run : Run Step m trace m') (inside : ∀ entry ∈ trace, ∀ w,
      entry.2 ≠ .exit w) :
    ∃ young' children' home', Regular m' first root young' children' home' ∧
      m.sched.created ≤ m'.sched.created ∧
      ∀ c, c < m.sched.created → home' c = home c := by
  apply @Run.invariant_of_meets (Machine M) Action Step m m' trace
    (fun _ (action : Action) => ∀ w, action ≠ .exit w) _ run inside
    ⟨young, children, home, regular, le_rfl, fun _ _ => rfl⟩
  rintro source action target ⟨young, children, home, regular, created,
    sameHome⟩ notExit taken
  obtain ⟨young', children', home', regular', later, same⟩ :=
    regular.step taken notExit
  exact ⟨young', children', home', regular', created.trans later,
    fun c isOld => (same c (isOld.trans_le created)).trans (sameHome c isOld)⟩

/-- Before a region is left, what a worker has on its shadow stack is a strand
from the frame of its closure down to frames that no one else has.  A frame that
belongs to a closure has been stolen, and belongs to no other one. -/
theorem frames_accounted (initial : Initial start)
    (run : Run Step start trace m)
    (inside : ∀ entry ∈ trace, ∀ w, entry.2 ≠ .exit w) :
    ∃ young : ℕ → List ℕ,
      (∀ w, m.pc w = .user → ∃ t, m.sched.deques w = [t] ∧
        m.sched.stacks.Strand (m.sched.workers w).stack (young w)
          (m.sched.closures t).frame) ∧
      (∀ w, (young w).Nodup ∧ ∀ f ∈ young w, f < m.sched.entered ∧
        (m.sched.frames f).stolen = false ∧
        (m.sched.frames f).unsynched = false ∧
        (m.sched.frames f).last = false) ∧
      (∀ w v f, f ∈ young w → f ∈ young v → w = v) ∧
      (∀ c f, (m.sched.core.nodes c).Live → (m.sched.closures c).frame = some f →
        f < m.sched.entered ∧ (m.sched.frames f).stolen = true) ∧
      ∀ c d f, (m.sched.core.nodes c).Live → (m.sched.core.nodes d).Live →
        (m.sched.closures c).frame = some f →
        (m.sched.closures d).frame = some f → c = d := by
  obtain ⟨home, regular⟩ := initial_regular initial
  obtain ⟨young, children, home', regular, -⟩ := regular.inside run inside
  obtain ⟨-, stranded, framed⟩ := regular.accounted
  refine ⟨young, ?_, ?_, stranded.apart, framed.stolen, framed.injective⟩
  · intro w isUser
    have standing := stranded.standing w
    rw [isUser] at standing
    obtain ⟨t, isDeque, -, strand⟩ := standing
    exact ⟨t, isDeque, strand⟩
  · intro w
    refine ⟨stranded.nodup w, fun f member => ?_⟩
    obtain ⟨old, fresh⟩ := stranded.fresh w f member
    exact ⟨old, fresh.notStolen, fresh.synched, fresh.notLast⟩

theorem frames_accounted_region_run :
    ∃ m : Machine (FreeMonoid ℕ), m.pc 1 = .user ∧
      m.sched.destroyed.map Destruction.closure = [1] ∧
      ∃ young : ℕ → List ℕ, (∀ w, (young w).Nodup) ∧
        ∀ w v f, f ∈ young w → f ∈ young v → w = v := by
  obtain ⟨trace, source, m, run, left, destroyed, -⟩ := region_run
  obtain ⟨young, -, fresh, apart, -⟩ :=
    frames_accounted regionStart_initial run
      (inside_of_exit regionStart_initial run left)
  have isUser : source.pc 1 = .user := by
    cases left
    assumption
  exact ⟨source, isUser, destroyed, young, fun w => (fresh w).1, apart⟩

/-- The region is left once, and from then on there is nothing to execute. -/
theorem region_left_once {before after : List (Machine M × Action)}
    (initial : Initial start)
    (run : Run Step start (before ++ (source, .exit w) :: after) m) :
    (∀ entry ∈ before ++ after, ∀ v, entry.2 ≠ .exit v) ∧
    m.sched.closures = source.sched.closures ∧
    m.sched.created = source.sched.created ∧
    m.sched.destroyed = source.sched.destroyed ∧
    ∀ v, m.sched.deques v = [] ∧
      (m.pc v = .runtime ∨ m.pc v = .looking ∨ m.pc v = .thief) := by
  obtain ⟨middle, earlier, rest⟩ := run.of_append
  obtain ⟨rfl, target, taken, later⟩ := rest.of_cons
  obtain ⟨young, children, home, regular⟩ := regular_of_exit initial earlier taken
  obtain ⟨ended, sameCreated, sameDestroyed, -⟩ := regular.exit taken
  have sameClosures : target.sched.closures = source.sched.closures := by
    cases taken
    rfl
  obtain ⟨isOver, closures, created, destroyed, noExit⟩ := ended.run later
  refine ⟨?_, closures.trans sameClosures, created.trans sameCreated,
    destroyed.trans sameDestroyed,
    fun v => ⟨isOver.deques v, (isOver.idle v).cases⟩⟩
  exact List.forall_mem_append.mpr
    ⟨inside_of_exit initial earlier taken, noExit⟩

theorem region_left_once_region_run :
    ∃ source m : Machine (FreeMonoid ℕ), Step source (.exit 1) m ∧
      m.sched.closures = source.sched.closures ∧
      ∀ v, m.sched.deques v = [] ∧
        (m.pc v = .runtime ∨ m.pc v = .looking ∨ m.pc v = .thief) := by
  obtain ⟨trace, source, m, run, left, -, -⟩ := region_run
  obtain ⟨-, closures, -, -, idle⟩ :=
    @region_left_once _ _ m regionStart source 1 trace [] regionStart_initial
      (run.snoc left)
  exact ⟨source, m, left, closures, idle⟩

end Regions

end Multicilk.Scheduler
