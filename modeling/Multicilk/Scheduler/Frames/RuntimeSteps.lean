import Multicilk.Scheduler.Frames.UserSteps

/-!
# Frames in the runtime

What syncing, returning and resuming does to the frames.
-/

namespace Multicilk.Scheduler

variable {core made : Core} {k k' : Stacks} {pc : ℕ → Pc} {young : ℕ → List ℕ}
  {w v c t f g root : ℕ} {p : Pc} {settled settled' : ℕ → Prop}

namespace Accounted

variable (accounted : Accounted core k pc root settled young)

include accounted

/-- The worker goes on, perhaps with another status of its closure. -/
theorem goOn {rest : List ℕ}
    (notPromoting : ∀ cl res, pc w ≠ .promoting cl res)
    (placed : Placed made (Function.update pc w p))
    (live : ∀ c, (made.nodes c).Live → (core.nodes c).Live)
    (callParent : ∀ c, (made.nodes c).callParent = (core.nodes c).callParent)
    (deques : ∀ v, v ≠ w → made.deques v = core.deques v)
    (workers : ∀ v, v ≠ w → k'.workers v = k.workers v)
    (frameOf : k'.frameOf = k.frameOf) (frames : k'.frames = k.frames)
    (entered : k'.entered = k.entered)
    (ready : ∀ c, (made.nodes c).status = .ready → k.frameOf c ≠ none)
    (returning : ∀ c, (made.nodes c).status = .returning → k.Synched c)
    (remains : List.Sublist rest (young w))
    (standing : k'.Standing made w rest p) :
    Accounted made k' (Function.update pc w p) root settled
      (Function.update young w rest) := by
  refine ⟨placed, ?_, ?_⟩
  · apply accounted.stranded.act deques workers ?_ ?_ entered.ge standing
    · intro f member
      rw [entered, frames]
      exact accounted.stranded.fresh w f (remains.subset member)
    · exact remains.nodup (accounted.stranded.nodup w)
    · exact fun f member => .inl (remains.subset member)
    · intro v _ f _
      rw [frames]
    · intro v _ c _
      rw [frameOf, frames]
      exact ⟨rfl, fun _ _ => rfl⟩
  · apply accounted.framed.congr placed live (fun c _ => callParent c)
      (fun c _ => congrFun frameOf c)
      (fun c f _ _ => congrFun frames f) entered.ge ready returning
    exact fun v cl res isPromoting =>
      promoting_of_update notPromoting isPromoting

/-- Nothing happens to the tree. -/
theorem still {rest : List ℕ}
    (notPromoting : ∀ cl res, pc w ≠ .promoting cl res)
    (placed : Placed core (Function.update pc w p))
    (remains : List.Sublist rest (young w))
    (standing : k.Standing core w rest p) :
    Accounted core k (Function.update pc w p) root settled
      (Function.update young w rest) :=
  accounted.goOn notPromoting placed (fun _ => id) (fun _ => rfl)
    (fun _ _ => rfl) (fun _ _ => rfl) rfl rfl rfl
    accounted.framed.ready accounted.framed.returning remains standing

/-- The status of the closure of the worker and the deque may change. -/
theorem restatus {rest deque : List ℕ} {status : ClosureStatus}
    (has : t ∈ core.carried pc w)
    (notPromoting : ∀ cl res, pc w ≠ .promoting cl res)
    (placed : Placed ((core.setStatus t status).setDeque w deque)
      (Function.update pc w p))
    (workers : ∀ v, v ≠ w → k'.workers v = k.workers v)
    (frameOf : k'.frameOf = k.frameOf) (frames : k'.frames = k.frames)
    (entered : k'.entered = k.entered)
    (ready : status = .ready → k.frameOf t ≠ none)
    (returning : status = .returning → k.Synched t)
    (remains : List.Sublist rest (young w))
    (standing : k'.Standing ((core.setStatus t status).setDeque w deque) w rest
      p) :
    Accounted ((core.setStatus t status).setDeque w deque) k'
      (Function.update pc w p) root settled
      (Function.update young w rest) := by
  have node (c : ℕ) : ((core.setStatus t status).setDeque w deque).nodes c =
      { core.nodes c with
        status := if c = t then status else (core.nodes c).status } :=
    Core.setStatus_nodes core status
  have framed := accounted.framed
  have isLive := (accounted.placed.active has).live
  apply accounted.goOn notPromoting placed ?_ ?_ ?_ workers frameOf frames
    entered ?_ ?_ remains standing
  · intro c live
    by_cases isT : c = t
    · exact isT ▸ isLive
    · rwa [node, if_neg isT] at live
  · intro c
    rw [node]
  · exact fun v other => Function.update_of_ne other ..
  · intro c isReady
    rw [node] at isReady
    by_cases isT : c = t
    · exact isT ▸ ready ((if_pos isT).symm.trans isReady)
    · exact framed.ready c ((if_neg isT).symm.trans isReady)
  · intro c isReturning
    rw [node] at isReturning
    by_cases isT : c = t
    · exact isT ▸ returning ((if_pos isT).symm.trans isReturning)
    · exact framed.returning c ((if_neg isT).symm.trans isReturning)

/-- The frame of the closure has been synced. -/
theorem syncPassed (isUser : pc w = .user) (isDeque : core.deques w = [t])
    (isSettled : settled' t)
    (keeps : ∀ c, (core.nodes c).Live → c ≠ t → (settled c ↔ settled' c))
    (placed : Placed core (Function.update pc w .user)) :
    Accounted core (k.setUnsynched t false) (Function.update pc w .user) root
      settled' (Function.update young w (young w)) := by
  obtain ⟨b, isDequeThere, has, inBounds, strand⟩ :=
    Accounted.strand isUser accounted
  rw [isDeque] at isDequeThere
  cases isDequeThere
  have live := (accounted.placed.active has).live
  have same (g : ℕ) (notOwn : k.frameOf t ≠ some g) :
      (k.setUnsynched t false).frames g = k.frames g := by
    rw [Stacks.setUnsynched_frames, if_neg notOwn]
  have notOwn (g : ℕ) (member : g ∈ young w) : k.frameOf t ≠ some g := by
    intro isOwn
    have stolen := (accounted.framed.stolen t g live isOwn).2
    rw [(accounted.stranded.fresh w g member).2.notStolen] at stolen
    cases stolen
  refine ⟨placed, ?_, ?_⟩
  · apply accounted.stranded.own accounted.placed accounted.framed has
    case deques => exact fun _ _ => rfl
    case workers =>
      intro v _
      rw [Stacks.setUnsynched_workers]
    case frameOf =>
      intro c _
      rw [Stacks.setUnsynched_frameOf]
    case others => exact fun g _ _ isOther => same g isOther
    case entered => exact (Stacks.setUnsynched_entered ..).ge
    case standing =>
      refine ⟨t, isDeque, ?_, ?_⟩ <;> rw [Stacks.setUnsynched_workers]
      · exact inBounds
      · rw [Stacks.setUnsynched_frameOf]
        refine strand.congr fun g _ => ?_
        rw [Stacks.setUnsynched_frames]
        exact ⟨rfl, rfl⟩
    case fresh =>
      intro g member
      rw [same g (notOwn g member), Stacks.setUnsynched_entered]
      exact accounted.stranded.fresh w g member
    case nodup => exact accounted.stranded.nodup w
    case apart => exact fun g => .inl
  · have kept := accounted.framed.congr placed (fun _ => id) (fun _ _ => rfl)
      (fun _ _ => rfl) (fun _ _ _ _ => rfl) le_rfl
      accounted.framed.ready accounted.framed.returning
      (fun v cl res isPromoting =>
        promoting_of_update (not_promoting isUser) isPromoting)
    exact kept.setUnsynched live isSettled keeps

/-- The worker looks whether it has been stolen from. -/
theorem exceptionHandler {stolen : Bool} (isPopped : pc w = .popped)
    (isDeque : core.deques w = [t])
    (goes : (k.workers w).head ≤ (k.workers w).tail ∧ stolen = false ∧
        made = core ∨
      (k.workers w).tail < (k.workers w).head ∧ stolen = true ∧
        made = core.setStatus t .returning)
    (placed : Placed made
      (Function.update pc w (if stolen then .runtime else .user))) :
    Accounted made (k.resetException w)
      (Function.update pc w (if stolen then .runtime else .user)) root settled
      (Function.update young w (young w)) := by
  have standing := accounted.stranded.standing w
  rw [isPopped] at standing
  obtain ⟨b, isDequeThere, inBounds, strand, synched⟩ := standing
  rw [isDeque] at isDequeThere
  cases isDequeThere
  have has : t ∈ core.carried pc w := by simp [Core.carried, isDeque]
  have notPromoting (cl res : ℕ) : pc w ≠ .promoting cl res := by
    rw [isPopped]
    exact Pc.noConfusion
  have worker : (k.resetException w).workers w =
      { k.workers w with exc := (k.workers w).head } :=
    Stacks.modifyWorker_self ..
  have others (v : ℕ) (other : v ≠ w) :
      (k.resetException w).workers v = k.workers v :=
    Stacks.modifyWorker_other _ _ other
  rcases goes with ⟨inside, rfl, rfl⟩ | ⟨past, rfl, rfl⟩
  · apply accounted.goOn notPromoting placed (fun _ => id) (fun _ => rfl)
      (fun _ _ => rfl) others rfl rfl rfl
      accounted.framed.ready accounted.framed.returning (List.Sublist.refl _)
    refine ⟨t, isDeque, ?_, ?_⟩ <;> rw [worker]
    · exact ⟨inBounds.1, le_rfl⟩
    · have kept := @Stacks.Strand.congr k (k.resetException w) _ _ _
        (strand inside) fun _ _ => ⟨rfl, rfl⟩
      exact ⟨kept.current, kept.linked, kept.spawned, kept.entries,
        kept.bounded⟩
  · have sameDeque := (core.setStatus t .returning).setDeque_self w
    have here := @restatus core k (k.resetException w) pc young w t root
      .runtime settled accounted (young w) (core.deques w) .returning has
      notPromoting
    rw [show core.deques w = (core.setStatus t .returning).deques w from rfl,
      sameDeque] at here
    exact here placed others rfl rfl rfl ClosureStatus.noConfusion
      (fun _ => synched past) (List.Sublist.refl _) trivial

/-- A called frame with a closure of its own returns to that of its caller. -/
theorem setReturn {caller : ℕ} (isUser : pc w = .user)
    (current : (k.workers w).currentStackFrame = some f)
    (stolen : (k.frames f).stolen = true) (isDeque : core.deques w = [t])
    (isCaller : (core.nodes t).callParent = some caller)
    (placed : Placed (core.setReturn w t caller)
      (Function.update pc w .user)) :
    Accounted (core.setReturn w t caller)
      (((k.pop w f).forget t).resetException w) (Function.update pc w .user)
      root settled (Function.update young w []) := by
  obtain ⟨b, isDequeThere, isOwn, noYoung⟩ :=
    own_of_stolen isUser accounted current stolen
  rw [isDeque] at isDequeThere
  cases isDequeThere
  obtain ⟨b, isDequeThere, has, inBounds, strand⟩ :=
    Accounted.strand isUser accounted
  rw [isDeque] at isDequeThere
  cases isDequeThere
  have live := (accounted.placed.active has).live
  have framed := accounted.framed
  have notPromoted (v : ℕ) : pc v ≠ .promoting caller t := by
    intro isPromoting
    have same := accounted.placed.apart w v t has (by
      simp [Core.carried, isPromoting, Pc.closures])
    exact not_promoting isUser caller t (same ▸ isPromoting)
  obtain ⟨own, callerFrame, isFrame, isCallerFrame, -, link⟩ :=
    framed.called t caller live isCaller notPromoted
  cases isOwn.symm.trans isFrame
  have suspended := (accounted.placed.caller t caller live isCaller).1
  have different : t ≠ caller := by
    rintro rfl
    exact accounted.placed.not_carried suspended has
  have frameOf (c : ℕ) (other : c ≠ t) :
      (((k.pop w f).forget t).resetException w).frameOf c = k.frameOf c :=
    Function.update_of_ne other ..
  have frames (g : ℕ) (other : g ≠ f) :
      (((k.pop w f).forget t).resetException w).frames g = k.frames g :=
    (k.pop_frames g).trans (if_neg other)
  have workers (v : ℕ) (other : v ≠ w) :
      (((k.pop w f).forget t).resetException w).workers v = k.workers v :=
    (Stacks.modifyWorker_other _ _ other).trans (k.pop_other other)
  have worker : (((k.pop w f).forget t).resetException w).workers w =
      { k.workers w with
        exc := (k.workers w).head
        currentStackFrame := some callerFrame } := by
    have reset : (((k.pop w f).forget t).resetException w).workers w =
        { (k.pop w f).workers w with exc := ((k.pop w f).workers w).head } :=
      Stacks.modifyWorker_self ..
    rw [reset, k.pop_self, link]
  have status (c : ℕ) : ((core.setReturn w t caller).nodes c).status =
      if c = caller then .running else if c = t then .postInvalid
      else (core.nodes c).status := by
    simp only [Core.setReturn]
    split
    · rfl
    · split <;> rfl
  have liveBefore (c : ℕ)
      (isLive : ((core.setReturn w t caller).nodes c).Live) :
      c ≠ t ∧ (core.nodes c).Live := by
    rw [Node.Live, status] at isLive
    by_cases isCallerHere : c = caller
    · subst isCallerHere
      exact ⟨Ne.symm different, by simp [Node.Live, suspended]⟩
    · rw [if_neg isCallerHere] at isLive
      by_cases isT : c = t
      · rw [if_pos isT] at isLive
        exact absurd rfl isLive.2
      · rw [if_neg isT] at isLive
        exact ⟨isT, isLive⟩
  refine ⟨placed, ?_, ?_⟩
  · apply accounted.stranded.own accounted.placed framed has
    case deques => exact fun v other => Function.update_of_ne other ..
    case workers => exact workers
    case frameOf => exact frameOf
    case others =>
      intro g _ _ notOwn
      apply frames g
      rintro rfl
      exact notOwn isOwn
    case entered => exact le_rfl
    case standing =>
      refine ⟨caller, ?_, ?_, ?_⟩
      · simp [Core.setReturn, isDeque]
      · rw [worker]
        exact ⟨inBounds.1, le_rfl⟩
      · have isEmpty := strand.tail_eq_head (by simp [noYoung, isOwn])
        rw [worker, frameOf caller (Ne.symm different), isCallerFrame]
        constructor
        case current => rfl
        case linked => exact List.isChain_singleton callerFrame
        case spawned => exact fun noFrame => absurd noFrame (Option.some_ne_none _)
        case entries => exact Stack.entries_eq_nil.mpr isEmpty.le
        case bounded => exact isEmpty.ge
    case fresh => exact fun g member => absurd member List.not_mem_nil
    case nodup => exact List.nodup_nil
    case apart => exact fun g member => absurd member List.not_mem_nil
  · apply framed.congr placed (fun c isLive => (liveBefore c isLive).2)
    · intro c _
      simp only [Core.setReturn]
      split
      · rfl
      · split <;> rfl
    · exact fun c isLive => frameOf c (liveBefore c isLive).1
    · intro c g isLive hasFrame
      obtain ⟨notT, isLiveBefore⟩ := liveBefore c isLive
      apply frames g
      rintro rfl
      exact notT (framed.injective c t g isLiveBefore live hasFrame isOwn)
    · exact le_rfl
    · intro c isReady
      apply framed.ready c
      rw [status] at isReady
      split at isReady
      · cases isReady
      · split at isReady
        · cases isReady
        · exact isReady
    · intro c isReturning
      apply framed.returning c
      rw [status] at isReturning
      split at isReturning
      · cases isReturning
      · split at isReturning
        · cases isReturning
        · exact isReturning
    · exact fun v cl res isPromoting =>
        promoting_of_update (not_promoting isUser) isPromoting

section Returns

variable {parent child : ℕ} (isReturning : pc w = .returning child)

include isReturning

/-- A child has returned, and its parent has something to wait for. -/
theorem removeChild
    (placed : Placed (core.removeChild parent child)
      (Function.update pc w .looking)) :
    Accounted (core.removeChild parent child) k (Function.update pc w .looking)
      root settled (Function.update young w (young w)) := by
  have notPromoting (cl res : ℕ) : pc w ≠ .promoting cl res := by
    rw [isReturning]
    exact Pc.noConfusion
  have status (c : ℕ) (here : ((core.removeChild parent child).nodes c).status ≠
      .postInvalid) : ((core.removeChild parent child).nodes c).status =
        (core.nodes c).status := by
    simp only [Core.removeChild] at here ⊢
    by_cases isChild : c = child
    · simp [isChild] at here
    · exact if_neg isChild
  apply accounted.goOn notPromoting placed
  case live =>
    intro c live
    rwa [Node.Live, status c live.2] at live
  case callParent => exact fun _ => rfl
  case deques => exact fun _ _ => rfl
  case workers => exact fun _ _ => rfl
  case frameOf => rfl
  case frames => rfl
  case entered => rfl
  case ready =>
    intro c isReady
    apply accounted.framed.ready c
    rw [← status c (by simp [isReady]), isReady]
  case returning =>
    intro c isReturningThere
    apply accounted.framed.returning c
    rw [← status c (by simp [isReturningThere]), isReturningThere]
  case remains => exact List.Sublist.refl _
  case standing => trivial

omit isReturning in
/-- A closure with children has a frame. -/
theorem frameOf_ne_none (suspended : (core.nodes parent).status = .suspended)
    (notSettled : ¬ settled parent) : k.frameOf parent ≠ none := by
  intro noFrame
  apply notSettled
  apply accounted.framed.synched parent (by simp [Node.Live, suspended])
  · intro f isFrame
    rw [noFrame] at isFrame
    cases isFrame
  · intro v cl isPromoting
    have posture := accounted.placed.posture v
    rw [isPromoting] at posture
    have running := posture.2.1
    rw [suspended] at running
    cases running

/-- The last child has returned, and the worker takes the parent. -/
theorem resume (suspended : (core.nodes parent).status = .suspended)
    (hasFrame : k.frameOf parent ≠ none) (isSettled : settled' parent)
    (keeps : ∀ c, (core.nodes c).Live → c ≠ parent →
      (settled c ↔ settled' c))
    (noCallee : (core.nodes parent).hasCilkCallee = false)
    (placed : Placed ((core.removeChild parent child).setStatus parent .ready)
      (Function.update pc w (.holding parent))) :
    Accounted ((core.removeChild parent child).setStatus parent .ready)
      (k.setUnsynched parent false) (Function.update pc w (.holding parent))
      root settled' (Function.update young w (young w)) := by
  have framed := accounted.framed
  have live : (core.nodes parent).Live := by simp [Node.Live, suspended]
  have notPromoting (cl res : ℕ) : pc w ≠ .promoting cl res := by
    rw [isReturning]
    exact Pc.noConfusion
  have promoting (v cl res : ℕ) (isPromoting : pc v = .promoting cl res) :
      Function.update pc w (Pc.holding parent) v = .promoting cl res :=
    promoting_of_update notPromoting isPromoting
  have status (c : ℕ) : (((core.removeChild parent child).setStatus parent
      .ready).nodes c).status = if c = parent then .ready
        else if c = child then .postInvalid else (core.nodes c).status := by
    rw [Core.setStatus_nodes]
    rfl
  have liveBefore (c : ℕ) (isLive : (((core.removeChild parent child).setStatus
      parent .ready).nodes c).Live) : (core.nodes c).Live := by
    rw [Node.Live, status] at isLive
    by_cases isParent : c = parent
    · exact isParent ▸ live
    · rw [if_neg isParent] at isLive
      by_cases isChild : c = child
      · rw [if_pos isChild] at isLive
        exact absurd rfl isLive.2
      · rwa [if_neg isChild] at isLive
  have same (g : ℕ) (notOwn : k.frameOf parent ≠ some g) :
      (k.setUnsynched parent false).frames g = k.frames g := by
    rw [Stacks.setUnsynched_frames, if_neg notOwn]
  have notOwn (v g : ℕ) (member : g ∈ young v) : k.frameOf parent ≠ some g := by
    intro isOwn
    have stolen := (framed.stolen parent g live isOwn).2
    rw [(accounted.stranded.fresh v g member).2.notStolen] at stolen
    cases stolen
  have resumed : Framed ((core.removeChild parent child).setStatus parent
      .ready) k (Function.update pc w (.holding parent)) root settled := by
    apply framed.congr placed liveBefore
    · intro c _
      rw [Core.setStatus_nodes]
      rfl
    · exact fun _ _ => rfl
    · exact fun _ _ _ _ => rfl
    · exact le_rfl
    · intro c isReady
      rw [status] at isReady
      by_cases isParent : c = parent
      · exact isParent ▸ hasFrame
      · rw [if_neg isParent] at isReady
        split at isReady
        · cases isReady
        · exact framed.ready c isReady
    · intro c isReturningThere
      rw [status] at isReturningThere
      split at isReturningThere
      · cases isReturningThere
      · split at isReturningThere
        · cases isReturningThere
        · exact framed.returning c isReturningThere
    · exact promoting
  refine ⟨placed, ?_, ?_⟩
  · apply accounted.stranded.act
    case deques => exact fun _ _ => rfl
    case workers =>
      intro v _
      rw [Stacks.setUnsynched_workers]
    case framesOf => exact fun v _ g member => same g (notOwn v g member)
    case known =>
      intro v _ c known
      rw [Stacks.setUnsynched_frameOf]
      refine ⟨rfl, fun g isFrame => same g fun isOwn => ?_⟩
      have isParent := framed.injective c parent g
        (accounted.placed.known_live known) live isFrame isOwn
      rw [isParent] at known
      rcases accounted.placed.known_cases known with
        member | ⟨res, isPromoting, different, -⟩
      · exact accounted.placed.not_carried suspended member
      · have posture := accounted.placed.posture v
        rw [isPromoting] at posture
        have running : (core.nodes res).Live := by
          simp [Node.Live, posture.2.1]
        have hasCallee := (accounted.placed.caller res parent running
          (posture.2.2 different)).2
        rw [noCallee] at hasCallee
        cases hasCallee
    case entered => exact (Stacks.setUnsynched_entered ..).ge
    case standing => trivial
    case fresh =>
      intro g member
      rw [same g (notOwn w g member), Stacks.setUnsynched_entered]
      exact accounted.stranded.fresh w g member
    case nodup => exact accounted.stranded.nodup w
    case apart => exact fun g => .inl
  · apply resumed.setUnsynched
    · rw [Node.Live, status, if_pos rfl]
      exact ⟨ClosureStatus.noConfusion, ClosureStatus.noConfusion⟩
    · exact isSettled
    · exact fun c isLive => keeps c (liveBefore c isLive)

end Returns

/-- A closure is going to be executed, from its frame on. -/
theorem setupForExecution (isHolding : pc w = .holding t)
    (isReady : (core.nodes t).status = .ready)
    (placed : Placed (core.setStatus t .running)
      (Function.update pc w (.executing t))) :
    Accounted (core.setStatus t .running) (k.restart w (k.frameOf t))
      (Function.update pc w (.executing t)) root settled
      (Function.update young w (young w)) := by
  have has : t ∈ core.carried pc w := by
    simp [Core.carried, isHolding, Pc.closures]
  obtain ⟨frame, isFrame⟩ := Option.ne_none_iff_exists'.mp
    (accounted.framed.ready t isReady)
  have sameDeque := (core.setStatus t .running).setDeque_self w
  have here := @restatus core k (k.restart w (k.frameOf t)) pc young w t root
    (.executing t) settled accounted (young w) (core.deques w) .running has (by
      rw [isHolding]
      exact fun _ _ => Pc.noConfusion)
  rw [show core.deques w = (core.setStatus t .running).deques w from rfl,
    sameDeque] at here
  have worker : (k.restart w (k.frameOf t)).workers w =
      ⟨(k.workers w).shadowStack, shadowStackInit, shadowStackInit,
        shadowStackInit, k.frameOf t⟩ :=
    Stacks.modifyWorker_self ..
  refine here placed (fun v other => Stacks.modifyWorker_other _ _ other) rfl
    rfl rfl ClosureStatus.noConfusion ClosureStatus.noConfusion
    (List.Sublist.refl _) ⟨?_, ?_, frame, isFrame, ?_⟩ <;> rw [worker]
  · exact ⟨le_rfl, le_rfl⟩
  · exact isFrame

/-- The execution of a closure begins in its frame. -/
theorem execute (isExecuting : pc w = .executing t)
    (placed : Placed (core.setDeque w (core.deques w ++ [t]))
      (Function.update pc w .user)) :
    Accounted (core.setDeque w (core.deques w ++ [t])) k
      (Function.update pc w .user) root settled
      (Function.update young w []) := by
  have has : t ∈ core.carried pc w := by
    simp [Core.carried, isExecuting, Pc.closures]
  have standing := accounted.stranded.standing w
  rw [isExecuting] at standing
  obtain ⟨inBounds, isEmpty, frame, isFrame, current⟩ := standing
  have posture := accounted.placed.posture w
  rw [isExecuting] at posture
  have here := @restatus core k k pc young w t root .user settled accounted []
    (core.deques w ++ [t]) (core.nodes t).status has (by
      rw [isExecuting]
      exact fun _ _ => Pc.noConfusion)
  rw [core.setStatus_self] at here
  refine here placed (fun _ _ => rfl) rfl rfl rfl ?_ ?_ (List.nil_sublist _)
    ⟨t, ?_, inBounds, ?_⟩
  · rw [posture.2]
    exact ClosureStatus.noConfusion
  · rw [posture.2]
    exact ClosureStatus.noConfusion
  · simp [Core.setDeque, posture.1]
  · rw [isFrame]
    constructor
    case current => exact current.symm
    case linked => exact List.isChain_singleton frame
    case spawned => exact fun noFrame => absurd noFrame (Option.some_ne_none _)
    case entries => exact Stack.entries_eq_nil.mpr isEmpty.le
    case bounded => exact isEmpty.ge

end Accounted

end Multicilk.Scheduler
