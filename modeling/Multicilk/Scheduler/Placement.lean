import Multicilk.Scheduler.Kinship
import Multicilk.Scheduler.Machine

/-!
# Where the closures are

Every closure that runs, returns or is ready is with exactly one worker, and a
suspended one is with none.  A worker has at most one closure, and where it is
in the code says which status that closure has.
-/

namespace Multicilk.Scheduler

variable {core made : Core} {pc pc' : ℕ → Pc} {w v : ℕ} {c d t : ℕ}

/-- The closures that a worker has in its deque and outside of it. -/
def Core.carried (core : Core) (pc : ℕ → Pc) (w : ℕ) : List ℕ :=
  core.deques w ++ (pc w).closures

/-- What a worker has, depending on where it is. -/
def Core.Posture (core : Core) (w : ℕ) : Pc → Prop
  | .user | .popped =>
    ∃ t, core.deques w = [t] ∧ (core.nodes t).status = .running
  | .runtime | .looking => core.deques w = [] ∨
    ∃ t, core.deques w = [t] ∧ (core.nodes t).status = .returning
  | .thief => core.deques w = []
  | .promoting cl res => core.deques w = [] ∧
    (core.nodes res).status = .running ∧
    (cl ≠ res → (core.nodes res).callParent = some cl)
  | .holding t => core.deques w = [] ∧
    ((core.nodes t).status = .ready ∨ (core.nodes t).status = .returning)
  | .executing t => core.deques w = [] ∧ (core.nodes t).status = .running
  | .returning child => core.deques w = [] ∧
    (core.nodes child).status = .returning

structure Placed (core : Core) (pc : ℕ → Pc) : Prop where
  kin : core.Kinship
  posture : ∀ w, core.Posture w (pc w)
  apart : ∀ w v c, c ∈ core.carried pc w → c ∈ core.carried pc v → w = v
  ready : ∀ c, (core.nodes c).status = .ready → ∃ w, pc w = .holding c
  caller : ∀ c p, (core.nodes c).Live → (core.nodes c).callParent = some p →
    (core.nodes p).status = .suspended ∧ (core.nodes p).hasCilkCallee = true
  callee : ∀ c d p, (core.nodes c).Live → (core.nodes d).Live →
    (core.nodes c).callParent = some p → (core.nodes d).callParent = some p →
    c = d

/-- The statuses of the closures that are with a worker. -/
def Node.Active (node : Node) : Prop :=
  node.status = .running ∨ node.status = .ready ∨ node.status = .returning

theorem Node.Active.live {node : Node} (active : node.Active) : node.Live := by
  rcases active with status | status | status <;> simp [Node.Live, status]

theorem Node.Active.not_suspended {node : Node} (active : node.Active) :
    node.status ≠ .suspended := by
  rcases active with status | status | status <;> simp [status]

/-- A worker has at most one closure. -/
theorem Core.Posture.carried (posture : core.Posture w (pc w)) :
    core.carried pc w = [] ∨
      ∃ t, core.carried pc w = [t] ∧ (core.nodes t).Active := by
  cases isPc : pc w with
  | user | popped =>
      rw [isPc] at posture
      obtain ⟨t, deque, running⟩ := posture
      refine .inr ⟨t, ?_, .inl running⟩
      rw [Core.carried, deque, isPc]
      rfl
  | runtime | looking =>
      rw [isPc] at posture
      rcases posture with deque | ⟨t, deque, returning⟩
      · left
        rw [Core.carried, deque, isPc]
        rfl
      · refine .inr ⟨t, ?_, .inr (.inr returning)⟩
        rw [Core.carried, deque, isPc]
        rfl
  | thief =>
      rw [isPc] at posture
      have deque : core.deques w = [] := posture
      left
      rw [Core.carried, deque, isPc]
      rfl
  | promoting cl res =>
      rw [isPc] at posture
      refine .inr ⟨res, ?_, .inl posture.2.1⟩
      rw [Core.carried, posture.1, isPc]
      rfl
  | holding t =>
      rw [isPc] at posture
      refine .inr ⟨t, ?_, .inr posture.2⟩
      rw [Core.carried, posture.1, isPc]
      rfl
  | executing t =>
      rw [isPc] at posture
      refine .inr ⟨t, ?_, .inl posture.2⟩
      rw [Core.carried, posture.1, isPc]
      rfl
  | returning child =>
      rw [isPc] at posture
      refine .inr ⟨child, ?_, .inr (.inr posture.2)⟩
      rw [Core.carried, posture.1, isPc]
      rfl

/-- What a worker has does not depend on the other closures. -/
theorem Core.Posture.congr {p : Pc} (posture : core.Posture w p)
    (deque : made.deques w = core.deques w)
    (nodes : ∀ c ∈ core.deques w ++ p.closures,
      (made.nodes c).status = (core.nodes c).status ∧
        (made.nodes c).callParent = (core.nodes c).callParent) :
    made.Posture w p := by
  cases p with
  | user | popped =>
      obtain ⟨t, isDeque, running⟩ := posture
      refine ⟨t, deque.trans isDeque, (nodes t ?_).1.trans running⟩
      simp [isDeque]
  | runtime | looking =>
      rcases posture with isDeque | ⟨t, isDeque, returning⟩
      · exact .inl (deque.trans isDeque)
      · refine .inr ⟨t, deque.trans isDeque, (nodes t ?_).1.trans returning⟩
        simp [isDeque]
  | thief => exact deque.trans posture
  | promoting cl res =>
      obtain ⟨isDeque, running, caller⟩ := posture
      obtain ⟨status, callParent⟩ := nodes res (by simp [Pc.closures])
      refine ⟨deque.trans isDeque, status.trans running, fun different => ?_⟩
      exact callParent.trans (caller different)
  | holding t =>
      obtain ⟨isDeque, ready⟩ := posture
      refine ⟨deque.trans isDeque, ?_⟩
      rwa [(nodes t (by simp [Pc.closures])).1]
  | executing t =>
      obtain ⟨isDeque, running⟩ := posture
      refine ⟨deque.trans isDeque, ?_⟩
      rwa [(nodes t (by simp [Pc.closures])).1]
  | returning child =>
      obtain ⟨isDeque, returning⟩ := posture
      refine ⟨deque.trans isDeque, ?_⟩
      rwa [(nodes child (by simp [Pc.closures])).1]

namespace Placed

theorem active (placed : Placed core pc) (carries : c ∈ core.carried pc w) :
    (core.nodes c).Active := by
  rcases (placed.posture w).carried with nothing | ⟨t, one, active⟩
  · rw [nothing] at carries
    cases carries
  · rw [one, List.mem_singleton] at carries
    exact carries ▸ active

theorem carried_eq (placed : Placed core pc) (carries : c ∈ core.carried pc w) :
    core.carried pc w = [c] := by
  rcases (placed.posture w).carried with nothing | ⟨t, one, active⟩
  · rw [nothing] at carries
    cases carries
  · rw [one, List.mem_singleton] at carries
    rw [one, carries]

theorem allocated (placed : Placed core pc) (live : (core.nodes c).Live) :
    c < core.created := by
  by_contra later
  have unused := placed.kin.unused c (not_lt.mp later)
  rw [unused] at live
  exact live.1 rfl

/-- What some workers do with some closures that the other workers do not have.
-/
theorem rearranged {actors touched : ℕ → Prop} (placed : Placed core pc)
    (kin : made.Kinship)
    (others : ∀ v, ¬actors v → pc' v = pc v ∧
      made.deques v = core.deques v ∧
      ∀ c ∈ core.carried pc v, ¬touched c ∧
        (made.nodes c).callParent = (core.nodes c).callParent)
    (statuses : ∀ c, ¬touched c →
      (made.nodes c).status = (core.nodes c).status)
    (held : ∀ v c, actors v → pc v = .holding c → touched c)
    (posture : ∀ v, actors v → made.Posture v (pc' v))
    (carries : ∀ v, actors v → ∀ c ∈ made.carried pc' v, touched c)
    (apart : ∀ v u c, actors v → actors u → c ∈ made.carried pc' v →
      c ∈ made.carried pc' u → v = u)
    (ready : ∀ c, touched c → (made.nodes c).status = .ready →
      ∃ w, pc' w = .holding c)
    (caller : ∀ c p, (made.nodes c).Live →
      (made.nodes c).callParent = some p →
      (made.nodes p).status = .suspended ∧
        (made.nodes p).hasCilkCallee = true)
    (callee : ∀ c d p, (made.nodes c).Live → (made.nodes d).Live →
      (made.nodes c).callParent = some p →
      (made.nodes d).callParent = some p → c = d) :
    Placed made pc' := by
  have carriedOther (v : ℕ) (other : ¬actors v) :
      made.carried pc' v = core.carried pc v := by
    obtain ⟨samePc, sameDeque, -⟩ := others v other
    rw [Core.carried, Core.carried, samePc, sameDeque]
  constructor
  case kin => exact kin
  case posture =>
    intro v
    by_cases isActor : actors v
    · exact posture v isActor
    · obtain ⟨samePc, sameDeque, kept⟩ := others v isActor
      rw [samePc]
      refine (placed.posture v).congr sameDeque fun c member => ?_
      exact ⟨statuses c (kept c member).1, (kept c member).2⟩
  case apart =>
    intro v u c first second
    by_cases isActor : actors v <;> by_cases isActor' : actors u
    · exact apart v u c isActor isActor' first second
    · rw [carriedOther u isActor'] at second
      exact absurd (carries v isActor c first)
        ((others u isActor').2.2 c second).1
    · rw [carriedOther v isActor] at first
      exact absurd (carries u isActor' c second)
        ((others v isActor).2.2 c first).1
    · rw [carriedOther v isActor] at first
      rw [carriedOther u isActor'] at second
      exact placed.apart v u c first second
  case ready =>
    intro c isReady
    by_cases isTouched : touched c
    · exact ready c isTouched isReady
    · rw [statuses c isTouched] at isReady
      obtain ⟨v, holds⟩ := placed.ready c isReady
      have other : ¬actors v := fun isActor =>
        isTouched (held v c isActor holds)
      exact ⟨v, (others v other).1.trans holds⟩
  case caller => exact caller
  case callee => exact callee

/-- What a worker does with its own closure does not disturb the others. -/
theorem act {p : Pc} (placed : Placed core pc) (kin : made.Kinship)
    (statuses : ∀ c, c ∉ core.carried pc w →
      (made.nodes c).status = (core.nodes c).status)
    (links : ∀ c, (made.nodes c).callParent = (core.nodes c).callParent ∧
      (made.nodes c).hasCilkCallee = (core.nodes c).hasCilkCallee)
    (deques : ∀ v, v ≠ w → made.deques v = core.deques v)
    (posture : made.Posture w p)
    (carries : ∀ c ∈ made.deques w ++ p.closures, c ∈ core.carried pc w)
    (ready : ∀ c ∈ core.carried pc w, (made.nodes c).status = .ready →
      p = .holding c) :
    Placed made (Function.update pc w p) := by
  have pcSelf : Function.update pc w p w = p := Function.update_self ..
  have liveBefore (c : ℕ) (live : (made.nodes c).Live) :
      (core.nodes c).Live := by
    by_cases mine : c ∈ core.carried pc w
    · exact (placed.active mine).live
    · rwa [Node.Live, statuses c mine] at live
  apply @rearranged core made pc _ (· = w) (· ∈ core.carried pc w) placed kin
  case others =>
    intro v other
    refine ⟨Function.update_of_ne other .., deques v other, ?_⟩
    exact fun c member =>
      ⟨fun mine => other (placed.apart v w c member mine), (links c).1⟩
  case statuses => exact statuses
  case held =>
    rintro v c rfl holds
    simp [Core.carried, holds, Pc.closures]
  case posture =>
    rintro v rfl
    rwa [pcSelf]
  case carries =>
    rintro v rfl c member
    rw [Core.carried, pcSelf] at member
    exact carries c member
  case apart =>
    rintro v u c rfl rfl - -
    rfl
  case ready =>
    intro c mine isReady
    exact ⟨w, pcSelf.trans (ready c mine isReady)⟩
  case caller =>
    intro c p live hasCaller
    rw [(links c).1] at hasCaller
    obtain ⟨suspended, hasCallee⟩ :=
      placed.caller c p (liveBefore c live) hasCaller
    have notMine : p ∉ core.carried pc w := fun mine =>
      (placed.active mine).not_suspended suspended
    rw [statuses p notMine, (links p).2]
    exact ⟨suspended, hasCallee⟩
  case callee =>
    intro c d p liveFirst liveSecond first second
    rw [(links c).1] at first
    rw [(links d).1] at second
    exact placed.callee c d p (liveBefore c liveFirst)
      (liveBefore d liveSecond) first second

/-- A worker goes on without a change of the tree or of its deque. -/
theorem idle {p : Pc} (placed : Placed core pc) (posture : core.Posture w p)
    (carries : ∀ c ∈ p.closures, c ∈ (pc w).closures)
    (ready : ∀ c ∈ core.carried pc w, (core.nodes c).status = .ready →
      p = .holding c) :
    Placed core (Function.update pc w p) := by
  apply placed.act placed.kin (fun _ _ => rfl) (fun _ => ⟨rfl, rfl⟩)
    (fun _ _ => rfl) posture ?_ ready
  intro c member
  rw [Core.carried, List.mem_append]
  exact (List.mem_append.mp member).imp_right (carries c)

/-- A worker changes its deque, and the status of the closure it has. -/
theorem moved {p : Pc} {status : ClosureStatus} {deque : List ℕ}
    (placed : Placed core pc) (has : t ∈ core.carried pc w)
    (posture : ((core.setStatus t status).setDeque w deque).Posture w p)
    (carries : ∀ c ∈ deque ++ p.closures, c = t)
    (ready : status = .ready → p = .holding t) :
    Placed ((core.setStatus t status).setDeque w deque)
      (Function.update pc w p) := by
  have allocated := placed.allocated (placed.active has).live
  have only (c : ℕ) (mine : c ∈ core.carried pc w) : c = t := by
    rw [placed.carried_eq has] at mine
    exact List.mem_singleton.mp mine
  have node (c : ℕ) :
      ((core.setStatus t status).setDeque w deque).nodes c =
        { core.nodes c with
          status := if c = t then status else (core.nodes c).status } :=
    Core.setStatus_nodes core status
  apply placed.act ((placed.kin.setStatus allocated status).setDeque deque)
  case statuses =>
    intro c notMine
    rw [node, if_neg fun isT : c = t => notMine (isT ▸ has)]
  case links =>
    intro c
    rw [node]
    exact ⟨rfl, rfl⟩
  case deques => exact fun v other => Function.update_of_ne other ..
  case posture => exact posture
  case carries =>
    intro c member
    have isDeque : ((core.setStatus t status).setDeque w deque).deques w =
      deque := Function.update_self ..
    rw [isDeque] at member
    exact carries c member ▸ has
  case ready =>
    intro c mine isReady
    obtain rfl := only c mine
    rw [node, if_pos rfl] at isReady
    exact ready isReady

theorem restatused {p : Pc} {status : ClosureStatus}
    (placed : Placed core pc) (has : t ∈ core.carried pc w)
    (posture : (core.setStatus t status).Posture w p)
    (carries : ∀ c ∈ core.deques w ++ p.closures, c = t)
    (ready : status = .ready → p = .holding t) :
    Placed (core.setStatus t status) (Function.update pc w p) := by
  have sameDeque := (core.setStatus t status).setDeque_self w
  have moved := @Placed.moved core pc w t p status (core.deques w) placed has
    (sameDeque.symm ▸ posture) carries ready
  rwa [← sameDeque]

theorem requeued {p : Pc} {deque : List ℕ}
    (placed : Placed core pc) (has : t ∈ core.carried pc w)
    (posture : (core.setDeque w deque).Posture w p)
    (carries : ∀ c ∈ deque ++ p.closures, c = t)
    (ready : (core.nodes t).status = .ready → p = .holding t) :
    Placed (core.setDeque w deque) (Function.update pc w p) := by
  have sameStatus := core.setStatus_self t
  have moved := @Placed.moved core pc w t p (core.nodes t).status deque placed
    has (sameStatus.symm ▸ posture) carries ready
  rwa [sameStatus] at moved

/-- A child that has returned is with no worker any more. -/
theorem removeChild {parent child : ℕ} (placed : Placed core pc)
    (isReturning : pc w = .returning child)
    (isParent : (core.nodes child).spawnParent = some parent) :
    Placed (core.removeChild parent child)
      (Function.update pc w .looking) := by
  have posture := placed.posture w
  rw [isReturning] at posture
  have has : core.carried pc w = [child] := by
    rw [Core.carried, posture.1, isReturning]
    rfl
  have live : (core.nodes child).Live := by
    simp [Node.Live, posture.2]
  apply placed.act
    (placed.kin.removeChild (placed.allocated live) isParent)
  case statuses =>
    intro c notMine
    rw [has, List.mem_singleton] at notMine
    exact if_neg notMine
  case links => exact fun c => ⟨rfl, rfl⟩
  case deques => exact fun v other => rfl
  case posture => exact .inl posture.1
  case carries =>
    intro c member
    have isDeque : (core.removeChild parent child).deques w = [] := posture.1
    rw [isDeque] at member
    cases member
  case ready =>
    intro c mine isReady
    rw [has, List.mem_singleton] at mine
    have destroyed : ((core.removeChild parent child).nodes c).status =
        .postInvalid := if_pos mine
    rw [destroyed] at isReady
    cases isReady

theorem not_carried (placed : Placed core pc)
    (suspended : (core.nodes t).status = .suspended) :
    t ∉ core.carried pc w :=
  fun carries => (placed.active carries).not_suspended suspended

/-- A suspended closure with no children is taken by the worker that finds it.
-/
theorem resumed (placed : Placed core pc) (nothing : core.carried pc w = [])
    (suspended : (core.nodes t).status = .suspended)
    (childless : (core.nodes t).hasChildren = false) :
    Placed (core.setStatus t .ready) (Function.update pc w (.holding t)) := by
  have pcSelf : Function.update pc w (.holding t) w = .holding t :=
    Function.update_self ..
  have noDeque : core.deques w = [] :=
    (List.append_eq_nil_iff.mp nothing).1
  have live : (core.nodes t).Live := by simp [Node.Live, suspended]
  have noCallee : (core.nodes t).hasCilkCallee = false :=
    (Bool.or_eq_false_iff.mp childless).1
  have liveBefore (c : ℕ) (liveThere : ((core.setStatus t .ready).nodes c).Live) :
      (core.nodes c).Live := by
    by_cases isT : c = t
    · exact isT ▸ live
    · rwa [Node.Live, Core.setStatus_nodes, if_neg isT] at liveThere
  apply @rearranged core _ pc _ (· = w) (· = t) placed
    (placed.kin.setStatus (placed.allocated live) .ready)
  case others =>
    intro v other
    refine ⟨Function.update_of_ne other .., rfl, fun c member => ?_⟩
    constructor
    · rintro rfl
      exact placed.not_carried suspended member
    · rw [Core.setStatus_nodes]
  case statuses =>
    intro c notT
    rw [Core.setStatus_nodes, if_neg notT]
  case held =>
    rintro v c rfl holds
    rw [Core.carried, holds] at nothing
    simp [Pc.closures] at nothing
  case posture =>
    rintro v rfl
    rw [pcSelf]
    exact ⟨noDeque, .inl (by rw [Core.setStatus_nodes, if_pos rfl])⟩
  case carries =>
    rintro v rfl c member
    rw [Core.carried, pcSelf] at member
    have isDeque : (core.setStatus t .ready).deques v = [] := noDeque
    simpa [isDeque, Pc.closures] using member
  case apart =>
    rintro v u c rfl rfl - -
    rfl
  case ready =>
    rintro c rfl -
    exact ⟨w, pcSelf⟩
  case caller =>
    intro c p liveThere hasCaller
    rw [Core.setStatus_nodes] at hasCaller
    obtain ⟨isSuspended, hasCallee⟩ :=
      placed.caller c p (liveBefore c liveThere) hasCaller
    have notT : p ≠ t := by
      rintro rfl
      rw [noCallee] at hasCallee
      cases hasCallee
    rw [Core.setStatus_nodes, if_neg notT]
    exact ⟨isSuspended, hasCallee⟩
  case callee =>
    intro c d p liveFirst liveSecond first second
    rw [Core.setStatus_nodes] at first second
    exact placed.callee c d p (liveBefore c liveFirst)
      (liveBefore d liveSecond) first second

/-- A callee has returned to its caller, which takes its place. -/
theorem setReturn {caller : ℕ} (placed : Placed core pc)
    (inUserCode : pc w = .user) (isDeque : core.deques w = [t])
    (hasCaller : (core.nodes t).callParent = some caller) :
    Placed (core.setReturn w t caller) (Function.update pc w .user) := by
  have has : core.carried pc w = [t] := by
    rw [Core.carried, isDeque, inUserCode]
    rfl
  have mine : t ∈ core.carried pc w := by simp [has]
  have live := (placed.active mine).live
  obtain ⟨suspended, -⟩ := placed.caller t caller live hasCaller
  have callerLive : (core.nodes caller).Live := by simp [Node.Live, suspended]
  have different : t ≠ caller := by
    rintro rfl
    exact placed.not_carried suspended mine
  have pcSelf : Function.update pc w Pc.user w = .user :=
    Function.update_self ..
  have newDeque : (core.setReturn w t caller).deques w = [caller] := by
    simp [Core.setReturn, isDeque]
  have callerStatus : ((core.setReturn w t caller).nodes caller).status =
      .running := by
    simp [Core.setReturn]
  have node (c : ℕ) (notT : c ≠ t) (notCaller : c ≠ caller) :
      (core.setReturn w t caller).nodes c = core.nodes c := by
    simp [Core.setReturn, notT, notCaller]
  have callParent (c : ℕ) :
      ((core.setReturn w t caller).nodes c).callParent =
        (core.nodes c).callParent := by
    simp only [Core.setReturn]
    split
    · rfl
    · split <;> rfl
  have liveBefore (c : ℕ)
      (liveThere : ((core.setReturn w t caller).nodes c).Live) :
      (core.nodes c).Live ∧ c ≠ t := by
    by_cases isT : c = t
    · simp [Core.setReturn, isT, different, Node.Live] at liveThere
    by_cases isCaller : c = caller
    · exact ⟨isCaller ▸ callerLive, isT⟩
    · rw [node c isT isCaller] at liveThere
      exact ⟨liveThere, isT⟩
  apply @rearranged core _ pc _ (· = w) (fun c => c = t ∨ c = caller) placed
    (placed.kin.setReturn (placed.allocated live)
      (placed.allocated callerLive))
  case others =>
    intro v other
    refine ⟨Function.update_of_ne other .., Function.update_of_ne other ..,
      fun c member => ⟨?_, callParent c⟩⟩
    rintro (rfl | rfl)
    · exact other (placed.apart v w c member mine)
    · exact placed.not_carried suspended member
  case statuses =>
    intro c untouched
    rw [node c (fun isT => untouched (.inl isT))
      (fun isCaller => untouched (.inr isCaller))]
  case held =>
    rintro v c rfl holds
    rw [inUserCode] at holds
    cases holds
  case posture =>
    rintro v rfl
    rw [pcSelf]
    exact ⟨caller, newDeque, callerStatus⟩
  case carries =>
    rintro v rfl c member
    rw [Core.carried, pcSelf, newDeque] at member
    exact .inr (by simpa [Pc.closures] using member)
  case apart =>
    rintro v u c rfl rfl - -
    rfl
  case ready =>
    rintro c (rfl | rfl) isReady
    · simp [Core.setReturn, different] at isReady
    · rw [callerStatus] at isReady
      cases isReady
  case caller =>
    intro c p liveThere hasCallerThere
    rw [callParent] at hasCallerThere
    obtain ⟨liveHere, notT⟩ := liveBefore c liveThere
    obtain ⟨isSuspended, hasCallee⟩ :=
      placed.caller c p liveHere hasCallerThere
    have notThat : p ≠ t := by
      rintro rfl
      exact placed.not_carried isSuspended mine
    have notCaller : p ≠ caller := by
      rintro rfl
      exact notT (placed.callee c t p liveHere live hasCallerThere hasCaller)
    rw [node p notThat notCaller]
    exact ⟨isSuspended, hasCallee⟩
  case callee =>
    intro c d p liveFirst liveSecond first second
    rw [callParent] at first second
    exact placed.callee c d p (liveBefore c liveFirst).1
      (liveBefore d liveSecond).1 first second

end Placed

end Multicilk.Scheduler
