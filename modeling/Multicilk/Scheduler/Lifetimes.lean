import Multicilk.Scheduler.Destructions

/-!
# The lifetime of a closure

Whatever the workers do before the region is over, the closures that have been
made since its start are alive, or they have been destroyed once.
-/

namespace Multicilk.Scheduler

open Machine TransitionSystem

variable {M : Type*} [Monoid M] {m m' start : Machine M} {action : Action}
  {w c first root : ℕ} {young children : ℕ → List ℕ} {home : ℕ → ℕ}

/-- A step destroys one closure. -/
structure Destroys (m m' : Machine M) (d : Destruction M) : Prop where
  log : m'.sched.destroyed = d :: m.sched.destroyed
  proper : d.Proper
  created : m'.sched.core.created = m.sched.core.created
  others : ∀ c, c ≠ d.closure →
    ((m'.sched.core.nodes c).Live ↔ (m.sched.core.nodes c).Live)
  live : (m.sched.core.nodes d.closure).Live
  dead : ¬ (m'.sched.core.nodes d.closure).Live
  childless : (m.sched.core.nodes d.closure).joinCounter = 0
  hasParent : (m.sched.core.nodes d.closure).spawnParent ≠ none ∨
    (m.sched.core.nodes d.closure).callParent ≠ none

namespace Regular

theorem setReturn (regular : Regular m first root young children home)
    (taken : Step m (.setReturn w) m') :
    (∃ d, Destroys m m' d) ∧ Mapped m'.sched.core m'.sched.fibers m'.sched.ledger := by
  have placed := regular.accounted.placed
  have move := taken.coreMove placed
  cases taken with
  | @setReturn w sf t caller isUser current synched notLast attached stolen
      bottom isCaller =>
      have posture := placed.posture w
      rw [isUser] at posture
      have isDeque := (peekBottom_user posture bottom).1
      have has : t ∈ m.sched.core.carried m.pc w := by
        simp [Core.carried, isDeque]
      have live := (placed.active has).live
      obtain ⟨suspended, -⟩ := placed.caller t caller live isCaller
      have different : t ≠ caller := by
        rintro rfl
        exact placed.not_carried suspended has
      obtain ⟨contents, node, maps, ledger⟩ := ledger_cilkSetReturn different
        (s := popFrame m.sched w sf) (w := w)
      obtain ⟨noChild, proper⟩ := regular.setReturn_contents isUser current
        synched stolen bottom isCaller (node.trans (by rw [core_popFrame])) maps
      have core : (cilkSetReturn (popFrame m.sched w sf) w t caller).core =
          m.sched.core.setReturn w t caller := by
        rw [core_cilkSetReturn different, core_popFrame]
      refine ⟨⟨⟨t, .cilkSetReturn, contents⟩, ?_⟩, ?_⟩
      · have status (c : ℕ) : ((m.sched.core.setReturn w t caller).nodes
            c).status = if c = caller then .running else if c = t then
              .postInvalid else (m.sched.core.nodes c).status := by
          simp only [Core.setReturn]
          split
          · rfl
          · split <;> rfl
        constructor
        case log => exact congrArg Ledger.destroyed ledger
        case proper => exact proper
        case created =>
          have created := congrArg Core.created core
          exact created
        case others =>
          intro c other
          rw [goto, core, Node.Live, status, if_neg other]
          split
          case isTrue same => simp [Node.Live, same, suspended]
          case isFalse => rfl
        case live => exact live
        case dead =>
          rw [goto, core, Node.Live, status, if_neg different, if_pos rfl]
          simp
        case childless => exact noChild
        case hasParent =>
          right
          rw [show (m.sched.core.nodes t).callParent = some caller from isCaller]
          exact Option.some_ne_none caller
      · have same (c : ℕ) : (cilkSetReturn (popFrame m.sched w sf) w t
            caller).ledger.maps c = m.sched.ledger.maps c := by
          rw [ledger]
          rfl
        apply regular.mapped.keep move placed (fun _ => Action.noConfusion)
          <;> intro c hasMap
        · rwa [← same c]
        · exact .inl (by rwa [← same c])
        · have saved : (cilkSetReturn (popFrame m.sched w sf) w t
              caller).fibers.fiberChild = m.sched.fibers.fiberChild := by
            rw [fibers_cilkSetReturn, fibers_popFrame]
            rfl
          rw [goto, saved]
          exact regular.mapped.child c (by rwa [← same c])

omit [Monoid M] in
/-- What becomes of the maps, when the one of the worker is stored. -/
theorem storeLeftRmap_maps {parent child : ℕ}
    (regular : Regular m first root young children home) (map : Option M)
    (live : (m.sched.core.nodes child).Live)
    (isParent : (m.sched.core.nodes child).spawnParent = some parent) :
    let stored := (storeLeftRmap m.sched parent child map).ledger
    stored.maps child = m.sched.ledger.maps child ∧
      (∀ c, (stored.maps c).user = (m.sched.ledger.maps c).user) ∧
      (∀ c, (stored.maps c).right ≠ none →
        (m.sched.ledger.maps c).right ≠ none ∨
          (m.sched.core.nodes c).spawnParent ≠ none) ∧
      ∀ c, (stored.maps c).child ≠ none →
        (m.sched.ledger.maps c).child ≠ none ∨
          c = parent ∧ (m.sched.core.nodes child).leftSib = none := by
  have kin := regular.accounted.placed.kin
  intro stored
  have isStored : stored = (storeLeftRmap m.sched parent child map).ledger := rfl
  rw [isStored, ledger_storeLeftRmap]
  cases isLeft : (m.sched.closures child).leftSib with
  | some sibling =>
      have sameParent := (kin.left child sibling isLeft).2
      simp only [Ledger.modify_maps]
      refine ⟨if_neg (regular.offspring.left live isParent isLeft).1, ?_, ?_, ?_⟩
        <;> intro c <;> by_cases isSibling : c = sibling
      · rw [if_pos isSibling, isSibling]
      · rw [if_neg isSibling]
      · rw [isSibling, sameParent, isParent]
        exact fun _ => .inr (Option.some_ne_none parent)
      · rw [if_neg isSibling]
        exact .inl
      · rw [if_pos isSibling, isSibling]
        exact .inl
      · rw [if_neg isSibling]
        exact .inl
  | none =>
      simp only [Ledger.modify_maps]
      refine ⟨if_neg (Nat.ne_of_gt (kin.parent child parent isParent)), ?_, ?_,
        ?_⟩
        <;> intro c <;> by_cases isHere : c = parent
      · rw [if_pos isHere, isHere]
      · rw [if_neg isHere]
      · rw [if_pos isHere, isHere]
        exact .inl
      · rw [if_neg isHere]
        exact .inl
      · exact fun _ => .inr ⟨isHere, isLeft⟩
      · rw [if_neg isHere]
        exact .inl

/-- The fiber of the first child is kept until the parent goes on. -/
theorem finishReturn_saved {s : State M} {child parent : ℕ} {res : Option ℕ}
    (regular : Regular m first root young children home)
    (isReturning : m.pc w = .returning child)
    (isParent : (m.sched.core.nodes child).spawnParent = some parent)
    (settled : m.sched.Settled child)
    (finished : Scheduler.finishReturn m.sched w parent child = (s, res))
    (notResumed : ¬ (c = parent ∧ res = some parent))
    (wasSaved : m.sched.fibers.fiberChild c ≠ none ∨
      c = parent ∧ (m.sched.core.nodes child).leftSib = none) :
    s.fibers.fiberChild c ≠ none := by
  have placed := regular.accounted.placed
  have has : child ∈ m.sched.core.carried m.pc w := by
    simp [Core.carried, isReturning, Pc.closures]
  have saved := regular.homed.leave_fiberChild placed has isParent settled.1
    settled.2 c
  rw [← fibers_childReturned (w := w)] at saved
  have kept : (childReturned m.sched w parent child).fibers.fiberChild c ≠
      none := by
    rcases wasSaved with wasSaved | ⟨rfl, isFirst⟩
    · rcases saved.1 with same | ⟨-, atHome⟩
      · rwa [same]
      · rw [atHome]
        exact Option.some_ne_none _
    · exact saved.2 isFirst
  rcases fibers_finishReturn (placed.kin.real parent) rfl finished with
    ⟨-, fibers⟩ | ⟨resumed, fibers⟩
  · rwa [fibers]
  · rwa [fibers, Fibers.sync_fiberChild,
      if_neg fun isHere => notResumed ⟨isHere, resumed⟩]

theorem finishReturn (regular : Regular m first root young children home)
    (taken : Step m (.finishReturn w) m') :
    (∃ d, Destroys m m' d) ∧ Mapped m'.sched.core m'.sched.fibers m'.sched.ledger := by
  have placed := regular.accounted.placed
  have move := taken.coreMove placed
  cases taken with
  | @finishReturn w child parent s res isReturning isParent unlocked unlocked'
      left right finished =>
      have posture := placed.posture w
      rw [isReturning] at posture
      have has : child ∈ m.sched.core.carried m.pc w := by
        simp [Core.carried, isReturning, Pc.closures]
      have live := (placed.active has).live
      have real := placed.kin.real parent
      have different : child ≠ parent :=
        Nat.ne_of_gt (placed.kin.parent child parent isParent)
      obtain ⟨removed, isRemoved⟩ : ∃ removed,
        removed = childReturned m.sched w parent child := ⟨_, rfl⟩
      obtain ⟨contents, node, maps, ledger⟩ := ledger_childReturned different
        (s := m.sched) (w := w)
      rw [← isRemoved] at ledger
      obtain ⟨kept, user, rightMaps, childMaps⟩ := regular.storeLeftRmap_maps
        (m.sched.workers w).reducerMap live isParent
      obtain ⟨settled, proper⟩ := regular.finishReturn_contents isReturning
        isParent right node (maps.trans kept)
      have core := finishReturn_cases real different finished
      have later := ledger_finishReturn real isRemoved finished
      have destroyed : s.destroyed =
          ⟨child, .closureReturn, contents⟩ :: m.sched.destroyed := by
        have log := congrArg Ledger.destroyed ledger
        rcases later with ⟨-, same⟩ | ⟨-, same⟩
        all_goals exact (congrArg Ledger.destroyed same).trans log
      have dead : (s.core.nodes child).status = .postInvalid := by
        rcases core with ⟨-, -, -, core⟩ | ⟨-, -, core⟩ <;> rw [core]
        · rw [Core.setStatus_nodes, if_neg different]
          exact if_pos rfl
        · exact if_pos rfl
      have status (c : ℕ) (other : c ≠ child) :
          (s.core.nodes c).status = (m.sched.core.nodes c).status ∨
            c = parent ∧ res = some parent ∧
              (m.sched.core.nodes c).status = .suspended ∧
              (s.core.nodes c).status = .ready := by
        rcases core with ⟨-, suspended, resumed, core⟩ | ⟨-, -, core⟩ <;>
          rw [core]
        · rw [Core.setStatus_nodes]
          by_cases isHere : c = parent
          · rw [if_pos isHere, isHere]
            exact .inr ⟨rfl, resumed, suspended, rfl⟩
          · rw [if_neg isHere]
            exact .inl (if_neg other)
        · exact .inl (if_neg other)
      refine ⟨⟨⟨child, .closureReturn, contents⟩, ?_⟩, ?_⟩
      · constructor
        case log => exact destroyed
        case proper => exact proper
        case created =>
          rcases core with ⟨-, -, -, core⟩ | ⟨-, -, core⟩
          all_goals
            have created := congrArg Core.created core
            exact created
        case others =>
          intro c other
          rcases status c other with same | ⟨-, -, suspended, ready⟩
          · rw [Node.Live, Node.Live, ← same]
            rfl
          · refine iff_of_true ?_ (by simp [Node.Live, suspended])
            rw [Node.Live, goto, ready]
            simp
        case live => exact live
        case dead => exact fun isLive => isLive.2 dead
        case childless => exact settled.1
        case hasParent =>
          left
          rw [show (m.sched.core.nodes child).spawnParent = some parent from
            isParent]
          exact Option.some_ne_none parent
      · have storedMaps (c : ℕ) : (s.ledger.maps c).right =
              ((storeLeftRmap m.sched parent child
                (m.sched.workers w).reducerMap).ledger.maps c).right ∧
            ((s.ledger.maps c).user ≠ none →
              (m.sched.ledger.maps c).user ≠ none ∧
                ¬ (c = parent ∧ res = some parent)) ∧
            ((s.ledger.maps c).child ≠ none →
              ((storeLeftRmap m.sched parent child
                (m.sched.workers w).reducerMap).ledger.maps c).child ≠ none ∧
                ¬ (c = parent ∧ res = some parent)) := by
          rw [← user c]
          rcases later with ⟨isNone, same⟩ | ⟨-, same⟩
          · rw [same, ledger]
            have notResumed : ¬ (c = parent ∧ res = some parent) := fun resumed =>
              Option.some_ne_none parent (resumed.2.symm.trans isNone)
            exact ⟨rfl, fun hasMap => ⟨hasMap, notResumed⟩,
              fun hasMap => ⟨hasMap, notResumed⟩⟩
          · rw [same, ledger, Ledger.modify_maps]
            by_cases isHere : c = parent
            · rw [if_pos isHere, isHere]
              exact ⟨rfl, fun hasMap => absurd rfl hasMap,
                fun hasMap => absurd rfl hasMap⟩
            · rw [if_neg isHere]
              exact ⟨rfl, fun hasMap => ⟨hasMap, fun both => isHere both.1⟩,
                fun hasMap => ⟨hasMap, fun both => isHere both.1⟩⟩
        apply regular.mapped.step move placed <;> intro c hasMap
        · exact rightMaps c ((storedMaps c).1 ▸ hasMap)
        · obtain ⟨hadMap, notResumed⟩ := (storedMaps c).2.1 hasMap
          refine .inl ⟨hadMap, fun isReady => ?_⟩
          obtain ⟨suspended, -⟩ := regular.mapped.user c hadMap
          have other : c ≠ child := by
            rintro rfl
            exact placed.not_carried suspended has
          rcases status c other with same | ⟨isHere, resumed, -, -⟩
          · exact ClosureStatus.noConfusion
              (isReady.symm.trans (same.trans suspended))
          · exact notResumed ⟨isHere, resumed⟩
        · obtain ⟨hasStored, notResumed⟩ := (storedMaps c).2.2 hasMap
          exact regular.finishReturn_saved isReturning isParent settled finished
            notResumed ((childMaps c hasStored).imp_left (regular.mapped.child c))

/-- A step destroys one closure, or it destroys nothing. -/
theorem destroys_or (regular : Regular m first root young children home)
    (taken : Step m action m') :
    Mapped m'.sched.core m'.sched.fibers m'.sched.ledger ∧
      ((∃ d, Destroys m m' d) ∨
        m'.sched.destroyed = m.sched.destroyed ∧
        m.sched.core.created ≤ m'.sched.core.created ∧
        ∀ c, (m'.sched.core.nodes c).Live ↔ (m.sched.core.nodes c).Live ∨
          m.sched.core.created ≤ c ∧ c < m'.sched.core.created) := by
  have placed := regular.accounted.placed
  by_cases isSetReturn : ∃ w, action = .setReturn w
  · obtain ⟨w, rfl⟩ := isSetReturn
    obtain ⟨destroys, mapped⟩ := regular.setReturn taken
    exact ⟨mapped, .inl destroys⟩
  by_cases isReturn : ∃ w, action = .finishReturn w
  · obtain ⟨w, rfl⟩ := isReturn
    obtain ⟨destroys, mapped⟩ := regular.finishReturn taken
    exact ⟨mapped, .inl destroys⟩
  rw [not_exists] at isSetReturn isReturn
  obtain ⟨mapped, destroyed⟩ : Mapped m'.sched.core m'.sched.fibers
      m'.sched.ledger ∧ m'.sched.destroyed = m.sched.destroyed := by
    by_cases isSync : ∃ w, action = .sync w
    · obtain ⟨w, rfl⟩ := isSync
      exact taken.sync_mapped placed regular.waits regular.mapped
    · exact taken.mapped regular.accounted regular.waits regular.homed
        regular.mapped (not_exists.mp isSync) isSetReturn isReturn
  obtain ⟨created, live⟩ :=
    (taken.coreMove placed).live_iff placed isSetReturn isReturn
  exact ⟨mapped, .inr ⟨destroyed, created, live⟩⟩

theorem step (regular : Regular m first root young children home)
    (taken : Step m action m') (notExit : ∀ w, action ≠ .exit w) :
    ∃ young' children' home', Regular m' first root young' children' home' ∧
      m.sched.created ≤ m'.sched.created ∧
      ∀ c, c < m.sched.created → home' c = home c := by
  have placed := regular.accounted.placed
  have move := taken.coreMove placed
  have fiberMove := taken.fiberMove regular.accounted regular.waits
  have logged := regular.logged
  have orphan := move.orphan placed logged.rootLive logged.rootOrphan.1
    logged.rootOrphan.2
  obtain ⟨young', accounted⟩ :=
    taken.accounted regular.accounted regular.offspring regular.expecting
      regular.homed.aboard notExit
  obtain ⟨mapped, outcome⟩ := regular.destroys_or taken
  have keeps : m.sched.core.KeepsParents m'.sched.core := by
    intro c live dead
    rcases outcome with ⟨d, destroys⟩ | ⟨-, -, kept⟩
    · by_cases isHere : c = d.closure
      · exact isHere ▸ destroys.childless
      · exact absurd ((destroys.others c isHere).mpr live) dead
    · exact absurd ((kept c).mpr (.inl live)) dead
  obtain ⟨children', offspring⟩ := move.offspring placed regular.offspring keeps
  obtain ⟨home', homed, sameHome⟩ :=
    fiberMove.homed placed regular.offspring regular.homed
  have created : m.sched.core.created ≤ m'.sched.core.created := by
    rcases outcome with ⟨d, destroys⟩ | ⟨-, created, -⟩
    · exact destroys.created.ge
    · exact created
  refine ⟨young', children', home', ⟨accounted, homed,
    fiberMove.ashore placed regular.ashore,
    taken.expecting placed regular.expecting, move.waits placed regular.waits,
    move.called placed regular.offspring regular.called,
    move.ancestry placed regular.ancestry, offspring, mapped, ?_,
    regular.firstOld.trans created⟩, created, sameHome⟩
  rcases outcome with ⟨d, destroys⟩ | ⟨destroyed, created, live⟩
  · rw [destroys.log]
    apply logged.destroy destroys.created destroys.others destroys.live
      destroys.dead (placed.allocated destroys.live) destroys.proper _ orphan
    rintro isRoot
    have parent := destroys.hasParent
    rw [isRoot, logged.rootOrphan.1, logged.rootOrphan.2] at parent
    exact parent.elim (absurd rfl) (absurd rfl)
  · rw [destroyed]
    exact logged.keep created live orphan regular.firstOld

end Regular

section Initially

variable (initial : Initial start)

include initial

omit [Monoid M] in
theorem initial_live (c : ℕ) :
    (start.sched.core.nodes c).Live ↔ c = start.sched.rootClosure := by
  obtain ⟨sf, fiber, -, root, -⟩ := initial.root
  by_cases isRoot : c = start.sched.rootClosure
  · simp [State.core, isRoot, root, Closure.node, Node.Live]
  · simp [State.core, isRoot, initial.unused c isRoot, Closure.node, Node.Live]

omit [Monoid M] in
/-- No worker is in any frame, and the root closure has one. -/
theorem initial_accounted : Accounted start.sched.core start.sched.stacks start.pc
    start.sched.rootClosure start.sched.Settled fun _ => [] := by
  obtain ⟨sf, fiber, entered, root, frame, -⟩ := initial.root
  have live := initial_live initial
  have rootFrame : start.sched.stacks.frameOf start.sched.rootClosure =
      some sf := by simp [State.stacks, root]
  have rootNode : start.sched.core.nodes start.sched.rootClosure =
      { status := .ready } := by
    simp [State.core, root, Closure.node]
  constructor
  case placed => exact initial_placed initial
  case stranded =>
    constructor
    case standing =>
      intro w
      rcases initial.others w with isPc | isPc | isPc <;> rw [isPc] <;> trivial
    case fresh => simp
    case nodup => exact fun w => List.nodup_nil
    case apart => simp
  case framed =>
    constructor
    case stolen =>
      intro c f isLive isFrame
      rw [(live c).mp isLive, rootFrame, Option.some.injEq] at isFrame
      rw [← isFrame]
      refine ⟨entered, ?_⟩
      simp [State.stacks, StackFrame.flags, frame]
    case injective =>
      intro c d f isLive isLive' _ _
      rw [(live c).mp isLive, (live d).mp isLive']
    case last => exact fun c f isLive _ _ => (live c).mp isLive
    case ready =>
      intro c isReady
      rw [(live c).mp (by simp [Node.Live, isReady]), rootFrame]
      exact Option.some_ne_none sf
    case called =>
      intro c p isLive isCaller
      rw [(live c).mp isLive, rootNode] at isCaller
      cases isCaller
    case synched =>
      intro c isLive _ _
      rw [(live c).mp isLive]
      refine ⟨by rw [rootNode], ?_⟩
      simp [State.fibers, root]
    case parted =>
      intro c isLive _ g isFrame
      rw [(live c).mp isLive, rootFrame, Option.some.injEq] at isFrame
      rw [← isFrame]
      simp [State.stacks, StackFrame.flags, frame]
    case returning =>
      intro c isReturning
      rw [(live c).mp (by simp [Node.Live, isReturning]), rootNode]
        at isReturning
      cases isReturning

omit [Monoid M] in
/-- The root closure is on the fiber that it has been given. -/
theorem initial_homed {fiber : ℕ}
    (root : (start.sched.closures start.sched.rootClosure).fiber = some fiber) :
    Homed start.sched.core start.sched.fibers fun _ => fiber := by
  have live := initial_live initial
  have nothing (c : ℕ) : start.sched.fibers.fiberChild c = none := by
    obtain ⟨_, _, -, isRoot, -⟩ := initial.root
    by_cases isHere : c = start.sched.rootClosure
    · simp [State.fibers, isHere, isRoot]
    · simp [State.fibers, initial.unused c isHere]
  have node : start.sched.core.nodes start.sched.rootClosure =
      { status := .ready } := by
    obtain ⟨_, _, -, isRoot, -⟩ := initial.root
    simp [State.core, isRoot, Closure.node]
  have isFiber : start.sched.fibers.fiber start.sched.rootClosure =
    some fiber := root
  constructor
  case settled =>
    intro c isLive _ _
    rw [(live c).mp isLive, isFiber]
  case saved =>
    intro c x isSaved
    rw [nothing] at isSaved
    cases isSaved
  case leftmost =>
    intro c p isLive isParent
    rw [(live c).mp isLive, node] at isParent
    cases isParent
  case called =>
    intro c p isLive isCaller
    rw [(live c).mp isLive, node] at isCaller
    cases isCaller
  case aboard =>
    intro c active
    rw [(live c).mp active.live, isFiber]
    exact Option.some_ne_none fiber

omit [Monoid M] in
theorem initial_regular : ∃ home, Regular start start.sched.created
    start.sched.rootClosure (fun _ => []) (fun _ => []) home := by
  obtain ⟨sf, fiber, -, root, -⟩ := initial.root
  have rootNode : start.sched.core.nodes start.sched.rootClosure =
      { status := .ready } := by
    simp [State.core, root, Closure.node]
  have live := initial_live initial
  have unlinked (c : ℕ) : ∃ status, start.sched.core.nodes c = { status } ∧
      start.sched.ledger.maps c = {} := by
    by_cases isRoot : c = start.sched.rootClosure
    · refine ⟨_, isRoot ▸ rootNode, ?_⟩
      simp [State.ledger, Closure.maps, isRoot, root]
    · refine ⟨.preInvalid, ?_, ?_⟩
      · simp [State.core, Closure.node, initial.unused c isRoot]
      · simp [State.ledger, Closure.maps, initial.unused c isRoot]
  refine ⟨fun _ => fiber, ?_⟩
  constructor
  case accounted => exact initial_accounted initial
  case homed => exact initial_homed initial (by rw [root])
  case ashore =>
    intro c suspended
    have isRoot := (live c).mp (by simp [Node.Live, suspended])
    rw [isRoot, rootNode] at suspended
    cases suspended
  case expecting =>
    intro w cl res isPromoting
    rcases initial.others w with isPc | isPc | isPc <;> rw [isPc] at isPromoting
      <;> cases isPromoting
  case waits =>
    intro c hasCallee
    obtain ⟨status, node, -⟩ := unlinked c
    rw [node] at hasCallee
    cases hasCallee
  case called =>
    intro c hasCallee
    obtain ⟨status, node, -⟩ := unlinked c
    rw [node] at hasCallee
    cases hasCallee
  case ancestry => exact initial_ancestry initial
  case offspring => exact initial_offspring initial
  case mapped =>
    constructor
    all_goals
      intro c hasMap
      obtain ⟨status, -, maps⟩ := unlinked c
      rw [maps] at hasMap
      exact absurd rfl hasMap
  case logged =>
    obtain ⟨-, -, nothing⟩ := initial.history
    rw [nothing]
    constructor
    case once => exact List.nodup_nil
    case dead => simp
    case all => exact fun c later earlier => absurd earlier (not_lt.mpr later)
    case proper => simp
    case older => exact fun c _ isLive => (live c).mp isLive
    case rootOld => exact initial.rootCreated
    case rootLive => exact (live _).mpr rfl
    case rootOrphan => simp [rootNode]
  case firstOld => exact le_rfl

end Initially

end Multicilk.Scheduler
