import Mathlib.Algebra.FreeMonoid.Basic
import Multicilk.Scheduler.Placement

/-!
# The status of a closure says where it is

Steals are the only steps that concern two workers.  With them, every step of
the scheduler keeps the closures in their places.
-/

namespace Multicilk.Scheduler

variable {core made : Core} {pc : ℕ → Pc} {w v : ℕ} {c d t cl res child : ℕ}

/-- A running closure is in a deque only while its worker is in compiled code.
-/
theorem Core.Posture.of_running {p : Pc} (posture : core.Posture v p)
    (top : (core.deques v).head? = some cl)
    (running : (core.nodes cl).status = .running) :
    core.deques v = [cl] ∧ (p = .user ∨ p = .popped) := by
  cases p with
  | user | popped =>
      obtain ⟨t, isDeque, -⟩ := posture
      rw [isDeque] at top
      cases top
      simp [isDeque]
  | runtime | looking =>
      rcases posture with isDeque | ⟨t, isDeque, returning⟩
      · simp [isDeque] at top
      · rw [isDeque] at top
        cases top
        rw [running] at returning
        cases returning
  | thief =>
      have isDeque : core.deques v = [] := posture
      simp [isDeque] at top
  | promoting | holding | executing | returning =>
      simp [posture.1] at top

theorem Core.Posture.of_mem {p : Pc} (posture : core.Posture w p)
    (member : c ∈ core.deques w) :
    (core.nodes c).status = .running ∨ (core.nodes c).status = .returning := by
  cases p with
  | user | popped =>
      obtain ⟨t, isDeque, running⟩ := posture
      rw [isDeque, List.mem_singleton] at member
      exact .inl (member ▸ running)
  | runtime | looking =>
      rcases posture with isDeque | ⟨t, isDeque, returning⟩
      · simp [isDeque] at member
      · rw [isDeque, List.mem_singleton] at member
        exact .inr (member ▸ returning)
  | thief =>
      have isDeque : core.deques w = [] := posture
      simp [isDeque] at member
  | promoting | holding | executing | returning =>
      simp [posture.1] at member

namespace Placed

/-- A thief gets a closure of its victim, or a new one for a callee of it.  The
victim keeps a new child. -/
theorem stolen (placed : Placed core pc) (kin : made.Kinship)
    (isThief : pc w = .thief) (top : (core.deques v).head? = some cl)
    (running : (core.nodes cl).status = .running)
    (childFresh : core.created ≤ child)
    (resFresh : res = cl ∨ core.created ≤ res ∧ res ≠ child)
    (deques : made.deques = Function.update core.deques v [child])
    (childNode : (made.nodes child).status = .running ∧
      (made.nodes child).callParent = none)
    (resNode : (made.nodes res).status = .running ∧
      (cl ≠ res → (made.nodes res).callParent = some cl))
    (callParent : (made.nodes cl).callParent = (core.nodes cl).callParent)
    (suspended : cl ≠ res → (made.nodes cl).status = .suspended ∧
      (made.nodes cl).hasCilkCallee = true)
    (kept : ∀ c, c ≠ child → c ≠ res → c ≠ cl →
      (made.nodes c).status = (core.nodes c).status ∧
        (made.nodes c).callParent = (core.nodes c).callParent ∧
        (made.nodes c).hasCilkCallee = (core.nodes c).hasCilkCallee) :
    Placed made (Function.update pc w (.promoting cl res)) := by
  obtain ⟨isDeque, inCode⟩ := (placed.posture v).of_running top running
  have thiefPosture := placed.posture w
  rw [isThief] at thiefPosture
  have noDeque : core.deques w = [] := thiefPosture
  have different : v ≠ w := by
    rintro rfl
    rw [isThief] at inCode
    simp at inCode
  have has : cl ∈ core.carried pc v := by
    rw [Core.carried, isDeque]
    simp
  have clLive := (placed.active has).live
  have pcThief : Function.update pc w (.promoting cl res) w =
      .promoting cl res := Function.update_self ..
  have pcVictim : Function.update pc w (.promoting cl res) v = pc v :=
    Function.update_of_ne different ..
  have victimDeque : made.deques v = [child] := by
    rw [deques, Function.update_self]
  have thiefDeque : made.deques w = [] := by
    rw [deques, Function.update_of_ne different.symm, noDeque]
  have victimCarries (c : ℕ) (member : c ∈ made.carried
      (Function.update pc w (.promoting cl res)) v) : c = child := by
    have noMore : (pc v).closures = [] := by
      rcases inCode with code | code <;> rw [code] <;> rfl
    rw [Core.carried, pcVictim, victimDeque, noMore] at member
    simpa using member
  have thiefCarries (c : ℕ) (member : c ∈ made.carried
      (Function.update pc w (.promoting cl res)) w) : c = res := by
    rw [Core.carried, pcThief, thiefDeque] at member
    simpa [Pc.closures] using member
  have older (c : ℕ) (live : (core.nodes c).Live) :
      c ≠ child ∧ (c ≠ res ∨ c = cl) := by
    have allocated := placed.allocated live
    constructor
    · omega
    · omega
  have notCaller (c : ℕ) (live : (core.nodes c).Live) :
      (core.nodes c).callParent ≠ some cl := by
    intro hasCaller
    rw [(placed.caller c cl live hasCaller).1] at running
    cases running
  have before (c p : ℕ) (live : (made.nodes c).Live)
      (hasCaller : (made.nodes c).callParent = some p) :
      c = res ∧ p = cl ∧ cl ≠ res ∨
        (core.nodes c).Live ∧ (core.nodes c).callParent = some p := by
    by_cases isChild : c = child
    · rw [isChild, childNode.2] at hasCaller
      cases hasCaller
    by_cases isCl : c = cl
    · rw [isCl] at hasCaller ⊢
      exact .inr ⟨clLive, callParent.symm.trans hasCaller⟩
    by_cases isRes : c = res
    · rw [isRes] at isCl hasCaller ⊢
      rw [resNode.2 (Ne.symm isCl)] at hasCaller
      cases hasCaller
      exact .inl ⟨rfl, rfl, Ne.symm isCl⟩
    · obtain ⟨status, same, -⟩ := kept c isChild isRes isCl
      rw [Node.Live, status] at live
      exact .inr ⟨live, same.symm.trans hasCaller⟩
  apply @rearranged core made pc _ (fun u => u = v ∨ u = w)
    (fun c => c = child ∨ c = res ∨ c = cl) placed kin
  case others =>
    intro u other
    have notVictim : u ≠ v := fun same => other (.inl same)
    have notThief : u ≠ w := fun same => other (.inr same)
    refine ⟨Function.update_of_ne notThief .., ?_, fun c member => ?_⟩
    · rw [deques, Function.update_of_ne notVictim]
    · have live := (placed.active member).live
      have notCl : c ≠ cl := by
        rintro rfl
        exact notVictim (placed.apart u v c member has)
      obtain ⟨notChild, notRes | isCl⟩ := older c live
      · exact ⟨by simp [notChild, notRes, notCl],
          (kept c notChild notRes notCl).2.1⟩
      · exact absurd isCl notCl
  case statuses =>
    intro c untouched
    simp only [not_or] at untouched
    exact (kept c untouched.1 untouched.2.1 untouched.2.2).1
  case held =>
    rintro u c (rfl | rfl) holds
    · rw [holds] at inCode
      simp at inCode
    · rw [holds] at isThief
      cases isThief
  case posture =>
    rintro u (rfl | rfl)
    · rw [pcVictim]
      rcases inCode with user | popped
      · rw [user]
        exact ⟨child, victimDeque, childNode.1⟩
      · rw [popped]
        exact ⟨child, victimDeque, childNode.1⟩
    · rw [pcThief]
      exact ⟨thiefDeque, resNode⟩
  case carries =>
    rintro u (rfl | rfl) c member
    · exact .inl (victimCarries c member)
    · exact .inr (.inl (thiefCarries c member))
  case apart =>
    have distinct : child ≠ res := by
      have allocated := placed.allocated clLive
      omega
    rintro u u' c (rfl | rfl) (rfl | rfl) first second
    · rfl
    · exact absurd ((victimCarries c first).symm.trans (thiefCarries c second))
        distinct
    · exact absurd ((victimCarries c second).symm.trans (thiefCarries c first))
        distinct
    · rfl
  case ready =>
    rintro c isTouched isReady
    have notReady : (made.nodes c).status = .running ∨
        (made.nodes c).status = .suspended := by
      rcases isTouched with rfl | rfl | rfl
      · exact .inl childNode.1
      · exact .inl resNode.1
      · by_cases same : c = res
        · exact .inl (same ▸ resNode.1)
        · exact .inr (suspended same).1
    rw [isReady] at notReady
    simp at notReady
  case caller =>
    intro c p live hasCaller
    rcases before c p live hasCaller with ⟨-, rfl, other⟩ | ⟨old, oldCaller⟩
    · exact suspended other
    · obtain ⟨isSuspended, hasCallee⟩ := placed.caller c p old oldCaller
      have notCl : p ≠ cl := fun isCl => notCaller c old (isCl ▸ oldCaller)
      obtain ⟨notChild, notRes | isCl⟩ :=
        older p (by simp [Node.Live, isSuspended])
      · obtain ⟨status, -, has⟩ := kept p notChild notRes notCl
        rw [status, has]
        exact ⟨isSuspended, hasCallee⟩
      · exact absurd isCl notCl
  case callee =>
    intro c d p liveFirst liveSecond first second
    rcases before c p liveFirst first with ⟨rfl, rfl, -⟩ | ⟨old, oldCaller⟩ <;>
      rcases before d p liveSecond second with
        ⟨isRes, isCl, -⟩ | ⟨old', oldCaller'⟩
    · exact isRes.symm
    · exact absurd oldCaller' (notCaller d old')
    · exact absurd (isCl ▸ oldCaller) (notCaller c old)
    · exact placed.callee c d p old old' oldCaller oldCaller'

/-- The closure at the top is stolen itself. -/
theorem stolenItself (placed : Placed core pc) (isThief : pc w = .thief)
    (top : (core.deques v).head? = some cl)
    (running : (core.nodes cl).status = .running) :
    Placed ((core.addChild cl).setDeque v
        (core.deques v ++ [core.created]).tail)
      (Function.update pc w (.promoting cl cl)) := by
  obtain ⟨isDeque, -⟩ := (placed.posture v).of_running top running
  have allocated : cl < core.created :=
    placed.allocated (by simp [Node.Live, running])
  have notNew : cl ≠ core.created := Nat.ne_of_lt allocated
  apply @stolen core _ pc w v cl cl core.created placed
    ((placed.kin.addChild allocated).setDeque _) isThief top running le_rfl
    (.inl rfl)
  case deques => simp [Core.setDeque, Core.addChild, isDeque]
  case childNode => simp [Core.setDeque, Core.addChild]
  case resNode => simp [Core.setDeque, Core.addChild, notNew, running]
  case callParent => simp [Core.setDeque, Core.addChild, notNew]
  case suspended => exact fun different => absurd rfl different
  case kept =>
    intro c notChild notRes notCl
    simp only [Core.setDeque, Core.addChild, if_neg notChild, if_neg notCl]
    split <;> simp

/-- The closure at the top is suspended, and a callee of it is stolen. -/
theorem stolenCallee (placed : Placed core pc) (isThief : pc w = .thief)
    (top : (core.deques v).head? = some cl)
    (running : (core.nodes cl).status = .running) :
    Placed (((core.addTempCallee cl).addChild core.created).setDeque v
        ((core.deques v).dropLast ++ [core.created + 1]))
      (Function.update pc w (.promoting cl core.created)) := by
  obtain ⟨isDeque, -⟩ := (placed.posture v).of_running top running
  have allocated : cl < core.created :=
    placed.allocated (by simp [Node.Live, running])
  have notNew : cl ≠ core.created := Nat.ne_of_lt allocated
  have notChild : cl ≠ core.created + 1 := by omega
  apply @stolen core _ pc w v cl core.created (core.created + 1) placed
    (((placed.kin.addTempCallee allocated).addChild
      (Nat.lt_succ_self _)).setDeque _) isThief top running (by omega)
    (.inr ⟨le_rfl, by omega⟩)
  case deques => simp [Core.setDeque, Core.addChild, Core.addTempCallee, isDeque]
  case childNode => simp [Core.setDeque, Core.addChild, Core.addTempCallee]
  case resNode => simp [Core.setDeque, Core.addChild, Core.addTempCallee]
  case callParent =>
    simp [Core.setDeque, Core.addChild, Core.addTempCallee, notNew, notChild]
  case suspended =>
    simp [Core.setDeque, Core.addChild, Core.addTempCallee, notNew, notChild]
  case kept =>
    intro c isOther notRes notCl
    simp [Core.setDeque, Core.addChild, Core.addTempCallee, isOther, notRes,
      notCl]

/-- The closures between the caller and the stolen closure are suspended, and
the stolen closure is ready. -/
theorem chained {closures : List ℕ} (placed : Placed core pc)
    (isPromoting : pc w = .promoting cl res) (different : cl ≠ res)
    (chain : core.Chained made cl res closures) :
    Placed made (Function.update pc w (.holding res)) := by
  have posture := placed.posture w
  rw [isPromoting] at posture
  obtain ⟨noDeque, running, caller⟩ := posture
  have callerOf := caller different
  have live : (core.nodes res).Live := by simp [Node.Live, running]
  obtain ⟨suspended, hasCallee⟩ := placed.caller res cl live callerOf
  have clLive : (core.nodes cl).Live := by simp [Node.Live, suspended]
  have allocated := placed.allocated live
  have clAllocated := placed.allocated clLive
  have has : res ∈ core.carried pc w := by
    simp [Core.carried, isPromoting, Pc.closures]
  have pcSelf : Function.update pc w (.holding res) w = .holding res :=
    Function.update_self ..
  have old (c : ℕ) (liveHere : (core.nodes c).Live) : c ∉ closures :=
    fun member => absurd (placed.allocated liveHere)
      (not_lt.mpr (chain.fresh c member).1)
  obtain ⟨callee, clNode⟩ := chain.older
  obtain ⟨callParent, resNode⟩ := chain.younger
  have resStatus : (made.nodes res).status = .ready := by rw [resNode]
  have suspendedThere (p : ℕ) (member : p ∈ closures ++ [cl]) :
      (made.nodes p).status = .suspended ∧
        (made.nodes p).hasCilkCallee = true := by
    rcases List.mem_append.mp member with isBetween | isCl
    · obtain ⟨_, _, node⟩ := chain.between p isBetween
      rw [node]
      exact ⟨rfl, rfl⟩
    · rw [List.mem_singleton.mp isCl, clNode]
      exact ⟨suspended, rfl⟩
  -- the links of the chain, and the links that were there before
  have before (c p : ℕ) (liveThere : (made.nodes c).Live)
      (hasCaller : (made.nodes c).callParent = some p) :
      p ∈ closures ++ [cl] ∧ (made.nodes p).callee = some c ∨
        p ≠ cl ∧ (core.nodes c).Live ∧ (core.nodes c).callParent = some p := by
    by_cases isLinked : c ∈ res :: closures
    · obtain ⟨next, member, isNext, isCallee⟩ := exists_mem_of_forall₂
        (List.isChain_cons_append_singleton_iff_forall₂.mp chain.linked) c
        isLinked
      cases hasCaller.symm.trans isNext
      exact .inl ⟨member, isCallee⟩
    · rw [List.mem_cons, not_or] at isLinked
      have oldLink : (core.nodes c).Live ∧
          (core.nodes c).callParent = some p := by
        by_cases isCl : c = cl
        · rw [isCl] at hasCaller ⊢
          rw [clNode] at hasCaller
          exact ⟨clLive, hasCaller⟩
        · rw [chain.kept c isLinked.2 isCl isLinked.1] at liveThere hasCaller
          exact ⟨liveThere, hasCaller⟩
      refine .inr ⟨?_, oldLink⟩
      rintro rfl
      exact isLinked.1
        (placed.callee c res p oldLink.1 live oldLink.2 callerOf)
  have kept (p : ℕ) (isSuspended : (core.nodes p).status = .suspended)
      (notCl : p ≠ cl) : p ∉ closures ∧ made.nodes p = core.nodes p := by
    have notNew := old p (by simp [Node.Live, isSuspended])
    refine ⟨notNew, chain.kept p notNew notCl ?_⟩
    rintro rfl
    rw [running] at isSuspended
    cases isSuspended
  apply @rearranged core made pc _ (· = w)
    (fun c => c ∈ closures ∨ c = cl ∨ c = res) placed
    (placed.kin.chained chain clAllocated allocated)
  case others =>
    intro v other
    refine ⟨Function.update_of_ne other .., by rw [chain.deques],
      fun c member => ?_⟩
    have notBetween := old c (placed.active member).live
    have notCl : c ≠ cl := by
      rintro rfl
      exact placed.not_carried suspended member
    have notRes : c ≠ res := by
      rintro rfl
      exact other (placed.apart v w c member has)
    rw [chain.kept c notBetween notCl notRes]
    exact ⟨by simp [notBetween, notCl, notRes], rfl⟩
  case statuses =>
    intro c untouched
    simp only [not_or] at untouched
    rw [chain.kept c untouched.1 untouched.2.1 untouched.2.2]
  case held =>
    rintro v c rfl holds
    rw [isPromoting] at holds
    cases holds
  case posture =>
    rintro v rfl
    rw [pcSelf]
    exact ⟨by rw [chain.deques, noDeque], .inl resStatus⟩
  case carries =>
    rintro v rfl c member
    rw [Core.carried, pcSelf, chain.deques, noDeque] at member
    exact .inr (.inr (by simpa [Pc.closures] using member))
  case apart =>
    rintro v u c rfl rfl - -
    rfl
  case ready =>
    intro c isTouched isReady
    have isRes : c = res := by
      rcases isTouched with isBetween | isCl | isRes
      · have isSuspended := suspendedThere c (by simp [isBetween])
        rw [isReady] at isSuspended
        cases isSuspended.1
      · have isSuspended := suspendedThere c (by simp [isCl])
        rw [isReady] at isSuspended
        cases isSuspended.1
      · exact isRes
    exact ⟨w, isRes ▸ pcSelf⟩
  case caller =>
    intro c p liveThere hasCaller
    rcases before c p liveThere hasCaller with
      ⟨member, -⟩ | ⟨notCl, oldLive, oldCaller⟩
    · exact suspendedThere p member
    · obtain ⟨isSuspended, has⟩ := placed.caller c p oldLive oldCaller
      rw [(kept p isSuspended notCl).2]
      exact ⟨isSuspended, has⟩
  case callee =>
    intro c d p liveFirst liveSecond first second
    rcases before c p liveFirst first with
      ⟨member, isCallee⟩ | ⟨notCl, oldLive, oldCaller⟩ <;>
      rcases before d p liveSecond second with
        ⟨member', isCallee'⟩ | ⟨notCl', oldLive', oldCaller'⟩
    · exact Option.some.inj (isCallee.symm.trans isCallee')
    · have isSuspended := (placed.caller d p oldLive' oldCaller').1
      have notBetween := (kept p isSuspended notCl').1
      simp [notBetween, notCl'] at member
    · have isSuspended := (placed.caller c p oldLive oldCaller).1
      have notBetween := (kept p isSuspended notCl).1
      simp [notBetween, notCl] at member'
    · exact placed.callee c d p oldLive oldLive' oldCaller oldCaller'

end Placed

section Machine

open Machine TransitionSystem

variable {M : Type*} [Monoid M] {m m' : Machine M} {action : Action}

omit [Monoid M] in
theorem peekBottom_user {s : State M} (posture : s.core.Posture w .user)
    (bottom : dequePeekBottom s w = some t) :
    s.core.deques w = [t] ∧ (s.core.nodes t).status = .running := by
  obtain ⟨b, isDeque, running⟩ := posture
  have isDequeThere : s.deques w = [b] := isDeque
  rw [dequePeekBottom, isDequeThere] at bottom
  cases bottom
  exact ⟨isDeque, running⟩

omit [Monoid M] in
theorem peekBottom_looking {s : State M} (posture : s.core.Posture w .looking)
    (bottom : dequePeekBottom s w = some t) :
    s.core.deques w = [t] ∧ (s.core.nodes t).status = .returning := by
  rcases posture with noDeque | ⟨b, isDeque, returning⟩
  · have noDequeThere : s.deques w = [] := noDeque
    simp [dequePeekBottom, noDequeThere] at bottom
  · have isDequeThere : s.deques w = [b] := isDeque
    rw [dequePeekBottom, isDequeThere] at bottom
    cases bottom
    exact ⟨isDeque, returning⟩

omit [Monoid M] in
/-- The compiled code changes neither the tree nor the deques. -/
theorem Placed.userCode {s s' : State M} {p : Pc}
    (placed : Placed s.core pc) (sameCore : s'.core = s.core)
    (inCode : pc w = .user ∨ pc w = .popped) (stays : p = .user ∨ p = .popped) :
    Placed s'.core (Function.update pc w p) := by
  have posture : s.core.Posture w .user := by
    have here := placed.posture w
    rcases inCode with isUser | isPopped
    · rwa [isUser] at here
    · rwa [isPopped] at here
  obtain ⟨t, isDeque, running⟩ := id posture
  have noMore : (pc w).closures = [] := by
    rcases inCode with code | code <;> rw [code] <;> rfl
  rw [sameCore]
  apply placed.idle
  case posture => rcases stays with rfl | rfl <;> exact posture
  case carries =>
    intro c member
    rcases stays with rfl | rfl <;> cases member
  case ready =>
    intro c member isReady
    rw [Core.carried, isDeque, noMore] at member
    rw [List.append_nil, List.mem_singleton] at member
    rw [member, running] at isReady
    cases isReady

theorem step_placed (placed : Placed m.sched.core m.pc)
    (taken : Step m action m') : Placed m'.sched.core m'.pc := by
  cases taken with
  | @call w isUser =>
      exact placed.userCode core_enterFrame (.inl isUser) (.inl rfl)
  | @spawn w t sf isUser bottom current =>
      exact placed.userCode (core_spawn t) (.inl isUser) (.inl rfl)
  | @update w map isUser =>
      exact placed.userCode (core_modifyWorker _) (.inl isUser) (.inl rfl)
  | @leaveCalled w sf isUser current synched notLast attached notStolen =>
      exact placed.userCode (core_popFrame sf) (.inl isUser) (.inl rfl)
  | @leaveSpawned w sf s isUser current synched notLast detached isState =>
      apply placed.userCode (isState ▸ core_leaveDetached sf) (.inl isUser)
      split
      · exact .inr rfl
      · exact .inl rfl
  | @setReturn w sf t callParent isUser current synched notLast attached
      stolen bottom caller =>
      have posture := placed.posture w
      rw [isUser] at posture
      obtain ⟨isDeque, running⟩ := peekBottom_user posture bottom
      have different : t ≠ callParent := by
        rintro rfl
        have live : (m.sched.core.nodes t).Live := by
          simp [Node.Live, running]
        rw [(placed.caller t t live caller).1] at running
        cases running
      have returned := placed.setReturn isUser isDeque caller
      rwa [← core_popFrame sf, ← core_cilkSetReturn different] at returned
  | @exit w sf isUser current synched last =>
      have posture := placed.posture w
      rw [isUser] at posture
      obtain ⟨t, isDeque, running⟩ := posture
      have has : t ∈ m.sched.core.carried m.pc w := by
        simp [Core.carried, isDeque]
      exact placed.requeued has (.inl (Function.update_self ..)) (by simp
        [Pc.closures]) (by simp [running])
  | @sync w sf t s ready isUser current unsynched bottom unlocked synced =>
      have posture := placed.posture w
      rw [isUser] at posture
      obtain ⟨isDeque, running⟩ := peekBottom_user posture bottom
      rcases cilkSync_cases (placed.kin.real t) synced with
        ⟨childless, rfl, sameCore⟩ | ⟨has, rfl, suspended⟩
      · exact placed.userCode sameCore (.inl isUser) (.inl rfl)
      · have noDeque : (m.sched.deques w).dropLast = [] :=
          congrArg List.dropLast isDeque
        have carries : t ∈ m.sched.core.carried m.pc w := by
          simp [Core.carried, isDeque]
        have moved := @Placed.moved _ m.pc w t .runtime .suspended [] placed
          carries (.inl (Function.update_self ..)) (by simp [Pc.closures])
          (by simp)
        rw [noDeque] at suspended
        rwa [← suspended] at moved
  | @exceptionHandler w t s stolen isPopped bottom unlocked handled =>
      have posture := placed.posture w
      rw [isPopped] at posture
      obtain ⟨isDeque, running⟩ := peekBottom_user posture bottom
      rcases cilkExceptionHandler_cases handled with
        ⟨-, rfl, sameCore⟩ | ⟨-, rfl, returning⟩
      · exact placed.userCode sameCore (.inr isPopped) (.inl rfl)
      · have runningThere : (m.sched.closures t).status = .running := running
        rw [if_pos runningThere] at returning
        have carries : t ∈ m.sched.core.carried m.pc w := by
          simp [Core.carried, isDeque]
        have status : ((m.sched.core.setStatus t .returning).nodes t).status =
            .returning := by
          rw [Core.setStatus_nodes, if_pos rfl]
        have moved := @Placed.restatused _ m.pc w t .runtime .returning placed
          carries (.inr ⟨t, isDeque, status⟩) (by simp [isDeque, Pc.closures])
          (by simp)
        rwa [← returning] at moved
  | @freeFiber w isRuntime =>
      have posture := placed.posture w
      rw [isRuntime] at posture
      have moved := placed.idle (p := .looking) posture (by simp [Pc.closures])
        (by
          intro c member isReady
          exfalso
          rcases posture with noDeque | ⟨b, isDeque, returning⟩
          · simp [Core.carried, noDeque, isRuntime, Pc.closures] at member
          · simp only [Core.carried, isDeque, isRuntime, Pc.closures,
              List.append_nil, List.mem_singleton] at member
            rw [member, returning] at isReady
            cases isReady)
      rwa [← core_freeFiber] at moved
  | @xtractNothing w isLooking bottom =>
      have noDeque : m.sched.core.deques w = [] :=
        List.getLast?_eq_none_iff.mp bottom
      apply placed.idle (p := .thief) noDeque (by simp [Pc.closures])
      intro c member
      simp [Core.carried, noDeque, isLooking, Pc.closures] at member
  | @xtractBottom w t isLooking bottom =>
      have posture := placed.posture w
      rw [isLooking] at posture
      obtain ⟨isDeque, returning⟩ := peekBottom_looking posture bottom
      have noDeque : (m.sched.core.deques w).dropLast = [] :=
        congrArg List.dropLast isDeque
      have carries : t ∈ m.sched.core.carried m.pc w := by
        simp [Core.carried, isDeque]
      have moved := @Placed.requeued _ m.pc w t (.holding t) [] placed carries
        ⟨Function.update_self .., .inr returning⟩ (by simp [Pc.closures])
        (by simp)
      rwa [← noDeque, ← core_dequeXtractBottom] at moved
  | @steal w victim fiber cl res s isThief other pooled top unlocked stolen =>
      have running := (closureStealTop_some stolen).2.1
      have allocated : cl < m.sched.created :=
        placed.allocated (by simp [Node.Live, running])
      have itself := placed.stolenItself isThief top running
      have callee := placed.stolenCallee isThief top running
      rcases closureStealTop_cases stolen allocated
        (placed.kin.siblingsAllocated cl) with ⟨rfl, core⟩ | ⟨rfl, core⟩
      · rwa [← core] at itself
      · rwa [← core] at callee
  | @finishPromote w cl res fuel s isPromoting finished =>
      have posture := placed.posture w
      rw [isPromoting] at posture
      obtain ⟨noDeque, running, caller⟩ := posture
      have live : (m.sched.core.nodes res).Live := by
        simp [Node.Live, running]
      have carries : res ∈ m.sched.core.carried m.pc w := by
        simp [Core.carried, isPromoting, Pc.closures]
      have clAllocated : cl < m.sched.created := by
        by_cases same : cl = res
        · exact same ▸ placed.allocated live
        · exact placed.allocated (by
            simp [Node.Live, (placed.caller res cl live (caller same)).1])
      rcases finishPromote_cases finished caller clAllocated
        (placed.allocated live) with ⟨rfl, core⟩ | ⟨different, closures, chain⟩
      · have moved := @Placed.restatused _ m.pc w cl (.holding cl) .ready placed
          carries ⟨noDeque, .inl (by rw [Core.setStatus_nodes, if_pos rfl])⟩
          (by simp [noDeque, Pc.closures]) (by simp)
        rwa [← core] at moved
      · exact placed.chained isPromoting different chain
  | @setupForExecution w t isHolding unlocked ready =>
      have posture := placed.posture w
      rw [isHolding] at posture
      have carries : t ∈ m.sched.core.carried m.pc w := by
        simp [Core.carried, isHolding, Pc.closures]
      have moved := @Placed.restatused _ m.pc w t (.executing t) .running placed
        carries ⟨posture.1, by rw [Core.setStatus_nodes, if_pos rfl]⟩
        (by simp [posture.1, Pc.closures]) (by simp)
      rwa [← core_setupForExecution] at moved
  | @execute w t isExecuting =>
      have posture := placed.posture w
      rw [isExecuting] at posture
      have carries : t ∈ m.sched.core.carried m.pc w := by
        simp [Core.carried, isExecuting, Pc.closures]
      have isDeque : m.sched.core.deques w ++ [t] = [t] := by
        rw [posture.1, List.nil_append]
      have moved := @Placed.requeued _ m.pc w t .user [t] placed carries
        ⟨t, Function.update_self .., posture.2⟩ (by simp [Pc.closures])
        (by simp [posture.2])
      rwa [← isDeque, ← core_dequeAddBottom, ← core_longjmpToUserCode t]
        at moved
  | @returnValue w t isHolding unlocked returning =>
      have posture := placed.posture w
      rw [isHolding] at posture
      apply placed.idle (p := .returning t) ⟨posture.1, returning⟩
      · simp [isHolding, Pc.closures]
      · intro c member isReady
        simp only [Core.carried, posture.1, isHolding, Pc.closures,
          List.nil_append, List.mem_singleton] at member
        have returningHere : (m.sched.core.nodes t).status = .returning :=
          returning
        rw [member, returningHere] at isReady
        cases isReady
  | @reducerIteration w child parent isReturning isParent unlocked unlocked'
      maps =>
      have posture := placed.posture w
      rw [isReturning] at posture
      have moved := placed.idle (p := .returning child) posture
        (by simp [isReturning])
        (by
          intro c member isReady
          exfalso
          simp only [Core.carried, posture.1, isReturning, Pc.closures,
            List.nil_append, List.mem_singleton] at member
          rw [member, posture.2] at isReady
          cases isReady)
      rwa [← core_reducerIteration parent child] at moved
  | @finishReturn w child parent s res isReturning isParent unlocked unlocked'
      left right finished =>
      have posture := placed.posture w
      rw [isReturning] at posture
      have different : child ≠ parent :=
        Nat.ne_of_gt (placed.kin.parent child parent isParent)
      have removed := placed.removeChild isReturning isParent
      rcases finishReturn_cases (placed.kin.real parent) different finished with
        ⟨childless, suspended, rfl, core⟩ | ⟨-, rfl, core⟩
      · have status : ((m.sched.core.removeChild parent child).nodes
            parent).status = .suspended :=
          (if_neg different.symm).trans suspended
        have nothing : (m.sched.core.removeChild parent child).carried
            (Function.update m.pc w .looking) w = [] := by
          rw [Core.carried, Function.update_self, List.append_eq_nil_iff]
          exact ⟨posture.1, rfl⟩
        have resumed := removed.resumed nothing status childless
        rwa [Function.update_idem, ← core] at resumed
      · rwa [← core] at removed
  | mapFiber => exact placed
  | unmapFiber pooled => exact placed

omit [Monoid M] in
theorem initial_placed (initial : Initial m) : Placed m.sched.core m.pc := by
  obtain ⟨sf, fiber, entered, root, frame, mapped, notPooled⟩ := initial.root
  obtain ⟨boss, isBoss, onlyBoss⟩ := initial.boss
  have rootNode : m.sched.core.nodes m.sched.rootClosure =
      { status := .ready } := by
    simp [State.core, root, Closure.node]
  have otherNode (c : ℕ) (other : c ≠ m.sched.rootClosure) :
      m.sched.core.nodes c = {} := by
    simp [State.core, initial.unused c other, Closure.node]
  have linkless (c : ℕ) : ∃ status, m.sched.core.nodes c =
      { status := status } := by
    by_cases isRoot : c = m.sched.rootClosure
    · exact ⟨.ready, isRoot ▸ rootNode⟩
    · exact ⟨.preInvalid, otherNode c isRoot⟩
  have noDeque (w : ℕ) : m.sched.core.deques w = [] := initial.deques w
  have kin : m.sched.core.Kinship := by
    constructor
    case unused =>
      intro c unused
      refine otherNode c ?_
      rintro rfl
      exact absurd initial.rootCreated (not_lt.mpr unused)
    all_goals
      intro c
      obtain ⟨status, node⟩ := linkless c
      simp [node]
  constructor
  case kin => exact kin
  case posture =>
    intro w
    rcases initial.others w with isPc | isPc | isPc <;> rw [isPc]
    · exact .inl (noDeque w)
    · exact noDeque w
    · exact ⟨noDeque w, .inl (by rw [rootNode])⟩
  case apart =>
    have isBossOf (w c : ℕ) (member : c ∈ m.sched.core.carried m.pc w) :
        w = boss := by
      rw [Core.carried, noDeque, List.nil_append] at member
      rcases initial.others w with isPc | isPc | isPc
      · simp [isPc, Pc.closures] at member
      · simp [isPc, Pc.closures] at member
      · exact onlyBoss w isPc
    intro w v c first second
    exact (isBossOf w c first).trans (isBossOf v c second).symm
  case ready =>
    intro c isReady
    by_cases isRoot : c = m.sched.rootClosure
    · exact ⟨boss, isRoot ▸ isBoss⟩
    · rw [otherNode c isRoot] at isReady
      cases isReady
  case caller =>
    intro c p live hasCaller
    obtain ⟨status, node⟩ := linkless c
    rw [node] at hasCaller
    cases hasCaller
  case callee =>
    intro c d p liveFirst liveSecond first second
    obtain ⟨status, node⟩ := linkless c
    rw [node] at first
    cases first

theorem reaches_placed (reached : Reaches m) : Placed m.sched.core m.pc := by
  obtain ⟨start, trace, initial, run⟩ := reached
  exact run.invariant (initial_placed initial)
    fun source action target placed taken => step_placed placed taken

/-- In every state between the critical sections the status of a closure says
where it is, and every worker finds a closure with a status it knows. -/
theorem status_and_location (reached : Reaches m) :
    (∀ w, ∀ c ∈ m.sched.deques w,
      (m.sched.closures c).status = .running ∨
      (m.sched.closures c).status = .returning) ∧
    (∀ c, (m.sched.closures c).status = .suspended →
      ∀ w, c ∉ m.sched.deques w ∧ c ∉ (m.pc w).closures) ∧
    (∀ c, (m.sched.closures c).status = .ready →
      (∀ w, c ∉ m.sched.deques w) ∧
      ∃ w, m.pc w = .holding c ∧ ∀ v, c ∈ (m.pc v).closures → v = w) ∧
    (∀ w, (m.sched.deques w ++ (m.pc w).closures).Nodup) ∧
    (∀ w v c, c ∈ m.sched.deques w ++ (m.pc w).closures →
      c ∈ m.sched.deques v ++ (m.pc v).closures → w = v) ∧
    (∀ victim cl, dequePeekTop m.sched victim = some cl →
      (m.sched.closures cl).status = .running ∨
      (m.sched.closures cl).status = .returning) ∧
    ∀ w t, m.pc w = .holding t →
      (m.sched.closures t).status = .ready ∨
      (m.sched.closures t).status = .returning := by
  have placed := reaches_placed reached
  have inDeque (w c : ℕ) (member : c ∈ m.sched.deques w) :
      (m.sched.closures c).status = .running ∨
        (m.sched.closures c).status = .returning :=
    (placed.posture w).of_mem member
  constructor
  · exact inDeque
  constructor
  · intro c suspended w
    have absent : c ∉ m.sched.deques w ++ (m.pc w).closures :=
      placed.not_carried suspended
    rwa [List.mem_append, not_or] at absent
  constructor
  · intro c isReady
    constructor
    · intro w member
      have status := inDeque w c member
      rw [isReady] at status
      simp at status
    · obtain ⟨w, holds⟩ := placed.ready c isReady
      refine ⟨w, holds, fun v member => ?_⟩
      apply placed.apart v w c
      · exact List.mem_append_right _ member
      · simp [Core.carried, holds, Pc.closures]
  constructor
  · intro w
    rcases (placed.posture w).carried with nothing | ⟨t, one, -⟩
    · have carried : m.sched.deques w ++ (m.pc w).closures = [] := nothing
      rw [carried]
      exact List.nodup_nil
    · have carried : m.sched.deques w ++ (m.pc w).closures = [t] := one
      rw [carried]
      exact List.nodup_singleton t
  constructor
  · exact placed.apart
  constructor
  · intro victim cl top
    exact inDeque victim cl (List.mem_of_head? top)
  · intro w t holds
    have posture := placed.posture w
    rw [holds] at posture
    exact posture.2

/-- The first worker is to execute the root closure, and the others look for
work. -/
def regionStart : Machine (FreeMonoid ℕ) where
  sched := {
    closures := fun c =>
      if c = 0 then { status := .ready, frame := some 0, fiber := some 0 }
      else {}
    created := 1
    frames := fun _ => {
      stolen := true, last := true, callParent := some 0, sp := some 0 }
    entered := 1
    workers := fun _ => {}
    deques := fun _ => []
    rootClosure := 0
    pool := [1]
    mapped := 2
    unmapped := []
    taken := []
    returned := []
    destroyed := [] }
  pc := fun w => if w = 0 then .holding 0 else .thief

theorem regionStart_initial : Initial regionStart := by
  constructor
  case others =>
    intro w
    by_cases isFirst : w = 0 <;> simp [regionStart, isFirst]
  case boss =>
    refine ⟨0, rfl, fun w holds => ?_⟩
    by_contra other
    simp [regionStart, other] at holds
  case root => exact ⟨0, 0, by decide, rfl, rfl, by decide⟩
  case rootCreated => decide
  case unused =>
    intro c other
    exact if_neg other
  case pooled => decide
  case history => exact ⟨rfl, rfl, rfl⟩
  all_goals exact fun w => rfl

/-- A second worker steals the root closure, when the first one has spawned. -/
theorem status_and_location_stolen : ∃ m : Machine (FreeMonoid ℕ),
    m.pc 1 = .promoting 0 0 ∧ m.sched.deques 0 = [1] ∧
    ∀ w, ∀ c ∈ m.sched.deques w,
      (m.sched.closures c).status = .running ∨
      (m.sched.closures c).status = .returning := by
  have nobody (m : Machine (FreeMonoid ℕ))
      (noPromotion : ∀ cl, m.pc 0 ≠ .promoting cl 0)
      (thieves : ∀ w, w ≠ 0 → m.pc w = .thief) : m.Unlocked 0 := by
    intro w cl promoting
    by_cases isFirst : w = 0
    · exact noPromotion cl (isFirst ▸ promoting)
    · rw [thieves w isFirst] at promoting
      cases promoting
  have thieves (m : Machine (FreeMonoid ℕ)) (pc : Pc) (s : State _)
      (before : ∀ w, w ≠ 0 → m.pc w = .thief) (w : ℕ) (other : w ≠ 0) :
      (m.goto 0 pc s).pc w = .thief :=
    (Function.update_of_ne other ..).trans (before w other)
  have atStart (w : ℕ) (other : w ≠ 0) : regionStart.pc w = .thief :=
    if_neg other
  have holding := @Run.refl (Machine (FreeMonoid ℕ)) _ Step regionStart
  have executing := holding.snoc (@Step.setupForExecution _ _ _ 0 0 rfl
    (nobody _ (by simp [regionStart]) atStart) rfl)
  have user := executing.snoc (@Step.execute _ _ _ 0 0 rfl)
  have spawned := user.snoc (@Step.spawn _ _ _ 0 0 0 rfl rfl rfl)
  have stolen := spawned.snoc (@Step.steal _ _ _ 1 0 1 0 0 _ rfl (by decide)
    (by decide) rfl (nobody _ (by simp [goto])
      (thieves _ _ _ (thieves _ _ _ (thieves _ _ _ atStart)))) rfl)
  exact ⟨_, rfl, rfl,
    (status_and_location ⟨_, _, regionStart_initial, stolen⟩).1⟩

end Machine

end Multicilk.Scheduler
