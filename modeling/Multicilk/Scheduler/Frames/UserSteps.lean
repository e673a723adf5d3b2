import Multicilk.Scheduler.Frames.Standing

/-!
# Frames come and go

What the compiled code does to the frames of its worker.
-/

namespace Multicilk.Scheduler

variable {core made : Core} {k k' : Stacks} {pc : ℕ → Pc} {young : ℕ → List ℕ}
  {w v c t f g root : ℕ} {settled : ℕ → Prop}

/-- Every frame is accounted for. -/
structure Accounted (core : Core) (k : Stacks) (pc : ℕ → Pc) (root : ℕ)
    (settled : ℕ → Prop) (young : ℕ → List ℕ) : Prop where
  placed : Placed core pc
  stranded : Stranded core k pc young
  framed : Framed core k pc root settled

theorem promoting_of_update {p : Pc} (notPromoting : ∀ cl res,
      pc w ≠ .promoting cl res) {cl res : ℕ}
    (isPromoting : pc v = .promoting cl res) :
    Function.update pc w p v = .promoting cl res := by
  have other : v ≠ w := by
    rintro rfl
    exact notPromoting cl res isPromoting
  rw [Function.update_of_ne other, isPromoting]

namespace Accounted

theorem mono {settled' : ℕ → Prop}
    (accounted : Accounted core k pc root settled young)
    (keeps : ∀ c, (core.nodes c).Live → (settled c ↔ settled' c)) :
    Accounted core k pc root settled' young :=
  ⟨accounted.placed, accounted.stranded, accounted.framed.mono keeps⟩

/-- When the frame of a closure has been synced, its children have returned. -/
theorem settled_of_synched (accounted : Accounted core k pc root settled young)
    (notPromoting : ∀ cl res, pc w ≠ .promoting cl res)
    (has : t ∈ core.carried pc w) (synched : k.Synched t) : settled t := by
  apply accounted.framed.synched t (accounted.placed.active has).live synched
  intro v cl isPromoting
  have hasThere : t ∈ core.carried pc v := by
    simp [Core.carried, isPromoting, Pc.closures]
  rw [← accounted.placed.apart w v t has hasThere] at isPromoting
  exact notPromoting cl t isPromoting

/-- The frames of the closures stay as they are, and so does the tree. -/
theorem framed_congr {p : Pc}
    (accounted : Accounted core k pc root settled young)
    (notPromoting : ∀ cl res, pc w ≠ .promoting cl res)
    (placed : Placed core (Function.update pc w p))
    (frameOf : k'.frameOf = k.frameOf)
    (frames : ∀ f, f < k.entered → (k.frames f).stolen = true →
      k'.frames f = k.frames f)
    (entered : k.entered ≤ k'.entered) :
    Framed core k' (Function.update pc w p) root settled := by
  have framed := accounted.framed
  apply framed.congr placed (fun c => id) (fun c _ => rfl)
    (fun c _ => congrFun frameOf c) ?_ entered framed.ready framed.returning
    (fun v cl res isPromoting => promoting_of_update notPromoting isPromoting)
  intro c f live isFrame
  obtain ⟨old, stolen⟩ := framed.stolen c f live isFrame
  exact frames f old stolen

section User

variable (isUser : pc w = .user)

include isUser in
theorem not_promoting (cl res : ℕ) : pc w ≠ .promoting cl res := by
  rw [isUser]
  exact Pc.noConfusion

variable (accounted : Accounted core k pc root settled young)

include accounted

theorem entered_notMem : k.entered ∉ young w := fun member =>
  absurd (accounted.stranded.fresh w k.entered member).1 (lt_irrefl _)

include isUser

/-- The frames of a worker in compiled code. -/
theorem strand : ∃ t, core.deques w = [t] ∧ t ∈ core.carried pc w ∧
    (k.workers w).InBounds ∧
    k.Strand (k.workers w) (young w) (k.frameOf t) := by
  have standing := accounted.stranded.standing w
  rw [isUser] at standing
  obtain ⟨t, isDeque, inBounds, strand⟩ := standing
  exact ⟨t, isDeque, by simp [Core.carried, isDeque], inBounds, strand⟩

/-- A worker enters a frame. -/
theorem newFrame (placed : Placed core (Function.update pc w .user))
    (frameOf : k'.frameOf = k.frameOf)
    (frames : ∀ f, f < k.entered → k'.frames f = k.frames f)
    (isYoung : (k'.frames k.entered).Young)
    (entered : k'.entered = k.entered + 1)
    (workers : ∀ v, v ≠ w → k'.workers v = k.workers v)
    (inBounds : (k.workers w).InBounds → (k'.workers w).InBounds)
    (enters : ∀ own, k.Strand (k.workers w) (young w) own →
      k'.Strand (k'.workers w) (k.entered :: young w) own) :
    Accounted core k' (Function.update pc w .user) root settled
      (Function.update young w (k.entered :: young w)) := by
  obtain ⟨t, isDeque, has, bounds, older⟩ := strand isUser accounted
  have later : k.entered ≤ k'.entered := entered ▸ Nat.le_succ _
  refine ⟨placed, ?_, ?_⟩
  · apply accounted.stranded.own accounted.placed accounted.framed has
    case deques => exact fun _ _ => rfl
    case workers => exact workers
    case frameOf => exact fun c _ => congrFun frameOf c
    case others => exact fun f old _ _ => frames f old
    case entered => exact later
    case standing =>
      refine ⟨t, isDeque, inBounds bounds, ?_⟩
      rw [frameOf]
      exact enters _ older
    case fresh =>
      intro f member
      rw [entered]
      rcases List.mem_cons.mp member with rfl | isOlder
      · exact ⟨Nat.lt_succ_self _, isYoung⟩
      · obtain ⟨old, fresh⟩ := accounted.stranded.fresh w f isOlder
        rw [frames f old]
        exact ⟨Nat.lt_succ_of_lt old, fresh⟩
    case nodup =>
      exact List.nodup_cons.mpr
        ⟨entered_notMem accounted, accounted.stranded.nodup w⟩
    case apart =>
      intro f member
      rcases List.mem_cons.mp member with rfl | isOlder
      · exact .inr le_rfl
      · exact .inl isOlder
  · exact accounted.framed_congr (not_promoting isUser) placed frameOf
      (fun f old _ => frames f old) later

theorem call (placed : Placed core (Function.update pc w .user)) :
    Accounted core (k.enter w) (Function.update pc w .user) root settled
      (Function.update young w (k.entered :: young w)) := by
  have worker : (k.enter w).workers w =
      { k.workers w with currentStackFrame := some k.entered } :=
    Function.update_self ..
  have entered : (k.enter w).frames k.entered =
      { callParent := (k.workers w).currentStackFrame } :=
    Function.update_self ..
  apply newFrame isUser accounted placed
  case frameOf => rfl
  case frames => exact fun f old => Function.update_of_ne old.ne ..
  case isYoung =>
    rw [entered]
    exact ⟨rfl, rfl, rfl⟩
  case entered => rfl
  case workers => exact fun v other => Function.update_of_ne other ..
  case inBounds =>
    rw [worker]
    exact id
  case enters =>
    intro own strand
    rw [worker]
    exact strand.enter (entered_notMem accounted)

theorem spawn {parent : ℕ}
    (current : (k.workers w).currentStackFrame = some parent)
    (placed : Placed core (Function.update pc w .user)) :
    Accounted core ((k.enter w).detach w k.entered parent)
      (Function.update pc w .user) root settled
      (Function.update young w (k.entered :: young w)) := by
  have worker : (k.enter w).workers w =
      { k.workers w with currentStackFrame := some k.entered } :=
    Function.update_self ..
  have entered : (k.enter w).frames k.entered =
      { callParent := (k.workers w).currentStackFrame } :=
    Function.update_self ..
  have detached (f : ℕ) : ((k.enter w).detach w k.entered parent).frames f =
      if f = k.entered then
        { (k.enter w).frames k.entered with detached := true }
      else (k.enter w).frames f :=
    (k.enter w).modifyFrame_frames ({ · with detached := true }) f
  apply newFrame isUser accounted placed
  case frameOf => rfl
  case frames =>
    intro f old
    rw [detached, if_neg old.ne]
    exact Function.update_of_ne old.ne ..
  case isYoung =>
    rw [detached, if_pos rfl, entered]
    exact ⟨rfl, rfl, rfl⟩
  case entered => rfl
  case workers =>
    intro v other
    exact (Stacks.modifyWorker_other _ _ other).trans
      (Function.update_of_ne other ..)
  case inBounds =>
    intro inBounds
    have pushed : ((k.enter w).detach w k.entered parent).workers w = _ :=
      Stacks.modifyWorker_self ..
    rw [pushed]
    change ((k.enter w).workers w).InBounds
    rwa [worker]
  case enters =>
    intro own strand
    have unused := entered_notMem (w := w) accounted
    have inside := strand.enter unused
    rw [← worker] at inside
    apply inside.detach ?_ (by rw [entered]) unused
    rw [strand.current, current]

/-- A frame that has not been stolen is the youngest one of its worker. -/
theorem youngest (current : (k.workers w).currentStackFrame = some f)
    (notStolen : (k.frames f).stolen = false) :
    ∃ rest, young w = f :: rest := by
  obtain ⟨t, -, has, -, strand⟩ := strand isUser accounted
  have isHead := strand.current.trans current
  cases isYoung : young w with
  | cons first rest =>
      rw [isYoung] at isHead
      cases isHead
      exact ⟨rest, rfl⟩
  | nil =>
      rw [isYoung, List.nil_append, Option.head?_toList] at isHead
      have live := (accounted.placed.active has).live
      rw [(accounted.framed.stolen t f live isHead).2] at notStolen
      cases notStolen

/-- A frame that is not young is that of the closure of the worker that is in
it. -/
theorem own_of_old (current : (k.workers w).currentStackFrame = some f)
    (isOld : ¬ (k.frames f).Young) :
    ∃ t, core.deques w = [t] ∧ k.frameOf t = some f ∧ young w = [] := by
  obtain ⟨t, isDeque, has, -, strand⟩ := strand isUser accounted
  have isHead := strand.current.trans current
  cases isYoung : young w with
  | cons first rest =>
      rw [isYoung] at isHead
      cases isHead
      exact absurd (accounted.stranded.fresh w f (by simp [isYoung])).2 isOld
  | nil =>
      rw [isYoung, List.nil_append, Option.head?_toList] at isHead
      exact ⟨t, isDeque, isHead, rfl⟩

theorem own_of_stolen (current : (k.workers w).currentStackFrame = some f)
    (stolen : (k.frames f).stolen = true) :
    ∃ t, core.deques w = [t] ∧ k.frameOf t = some f ∧ young w = [] := by
  apply own_of_old isUser accounted current
  intro isYoung
  exact absurd (stolen.symm.trans isYoung.notStolen) Bool.noConfusion

theorem leaveCalled (current : (k.workers w).currentStackFrame = some f)
    (attached : (k.frames f).detached = false)
    (notStolen : (k.frames f).stolen = false)
    (placed : Placed core (Function.update pc w .user)) :
    ∃ rest, Accounted core (k.pop w f) (Function.update pc w .user) root
      settled (Function.update young w rest) := by
  obtain ⟨rest, isYoung⟩ := youngest isUser accounted current notStolen
  obtain ⟨t, isDeque, has, inBounds, strand⟩ := strand isUser accounted
  have nodup := accounted.stranded.nodup w
  have fresh := accounted.stranded.fresh w
  rw [isYoung] at nodup fresh strand
  obtain ⟨absent, restNodup⟩ := List.nodup_cons.mp nodup
  have frameOf (g : ℕ) (other : g ≠ f) : (k.pop w f).frames g = k.frames g := by
    rw [k.pop_frames, if_neg other]
  refine ⟨rest, placed, ?_, ?_⟩
  · apply accounted.stranded.own accounted.placed accounted.framed has
    case deques => exact fun _ _ => rfl
    case workers => exact fun v other => k.pop_other other
    case frameOf => exact fun _ _ => rfl
    case others =>
      intro g _ notYoung _
      apply frameOf g
      rintro rfl
      exact notYoung (by simp [isYoung])
    case entered => exact le_rfl
    case standing =>
      refine ⟨t, isDeque, ?_, ?_⟩ <;> rw [k.pop_self]
      · exact inBounds
      · refine (strand.pop attached).congr fun g member => ?_
        rw [frameOf g fun same => absent (same ▸ member)]
        exact ⟨rfl, rfl⟩
    case fresh =>
      intro g member
      rw [frameOf g fun same => absent (same ▸ member)]
      exact fresh g (List.mem_cons_of_mem f member)
    case nodup => exact restNodup
    case apart =>
      intro g member
      exact .inl (by simp [isYoung, member])
  · apply accounted.framed_congr (not_promoting isUser) placed
    · exact rfl
    · intro g _ stolen
      apply frameOf g
      rintro rfl
      rw [notStolen] at stolen
      cases stolen
    · exact le_rfl

/-- A spawned frame is left.  When its spawner has been stolen, the worker has
nothing to go back to, and finds out. -/
theorem leaveSpawned {p : Pc}
    (current : (k.workers w).currentStackFrame = some f)
    (isSynched : (k.frames f).unsynched = false)
    (detached : (k.frames f).detached = true)
    (goes : p = .popped ∨
      p = .user ∧ (k.workers w).exc ≤ (k.workers w).tail - 1)
    (placed : Placed core (Function.update pc w p)) :
    ∃ rest, Accounted core (k.leaveSpawned w f) (Function.update pc w p) root
      settled (Function.update young w rest) := by
  obtain ⟨t, isDeque, has, inBounds, strand⟩ := strand isUser accounted
  have live := (accounted.placed.active has).live
  have nodup := accounted.stranded.nodup w
  have fresh := accounted.stranded.fresh w
  have isHead := strand.current.trans current
  obtain ⟨rest, isRest, remains⟩ : ∃ rest,
      (young w).tail = rest ∧ ∀ g ∈ rest, g ∈ young w :=
    ⟨_, rfl, fun g member => List.mem_of_mem_tail member⟩
  have absent : f ∉ rest := by
    intro member
    cases isYoung : young w with
    | nil =>
        rw [← isRest, isYoung] at member
        cases member
    | cons first later =>
        rw [isYoung] at isHead nodup isRest
        cases isHead
        cases isRest
        exact (List.nodup_cons.mp nodup).1 member
  have frameOf (g : ℕ) (other : g ≠ f) :
      (k.leaveSpawned w f).frames g = k.frames g := by
    rw [k.leaveSpawned_frames, if_neg other]
  have mine : young w = [] ∧ k.frameOf t = some f ∨
      young w = f :: rest := by
    cases isYoung : young w with
    | nil =>
        rw [isYoung, List.nil_append, Option.head?_toList] at isHead
        exact .inl ⟨rfl, isHead⟩
    | cons first later =>
        rw [isYoung] at isHead isRest
        cases isHead
        exact .inr (by rw [← isRest]; rfl)
  have worker := k.leaveSpawned_self (w := w) (f := f)
  -- The last frame has been left, so the tail has come to lie below the head.
  have alone (one : (young w ++ (k.frameOf t).toList).length = 1) :
      (k.leaveSpawned w f).Standing core w rest p := by
    have isEmpty := strand.tail_eq_head one
    obtain ⟨first, raised⟩ := inBounds
    rw [shadowStackInit] at first
    rcases goes with rfl | ⟨-, notRaised⟩
    · refine ⟨t, isDeque, ?_, ?_, ?_⟩ <;> rw [worker]
      · exact ⟨first, raised⟩
      · intro inside
        exact absurd inside (by simp only; omega)
      · intro _ g isFrame
        rcases mine with ⟨-, isOwn⟩ | isYoung
        · have same : f = g := Option.some.inj (isOwn.symm.trans isFrame)
          rw [← same, k.leaveSpawned_frames, if_pos rfl]
          exact isSynched
        · have isFrameHere : k.frameOf t = some g := isFrame
          rw [isYoung, isFrameHere] at one
          simp at one
    · omega
  have further (isYoung : young w = f :: rest)
      (more : rest ++ (k.frameOf t).toList ≠ []) :
      (k.leaveSpawned w f).Standing core w rest p := by
    rw [isYoung] at strand
    have left := strand.leave detached more
    rw [← worker] at left
    have kept := @Stacks.Strand.congr k (k.leaveSpawned w f) _ _ _ left
      fun g member => by
      rw [frameOf g fun same => absent (same ▸ member)]
      exact ⟨rfl, rfl⟩
    have bounds : ((k.leaveSpawned w f).workers w).InBounds := by
      rw [worker]
      exact inBounds
    rcases goes with rfl | ⟨rfl, -⟩
    · exact ⟨t, isDeque, bounds, fun _ => kept, fun past =>
        absurd kept.bounded (not_le.mpr past)⟩
    · exact ⟨t, isDeque, bounds, kept⟩
  have standing : (k.leaveSpawned w f).Standing core w rest p := by
    rcases mine with ⟨noYoung, isOwn⟩ | isYoung
    · exact alone (by simp [noYoung, isOwn])
    · by_cases more : rest ++ (k.frameOf t).toList = []
      · apply alone
        rw [isYoung, List.cons_append, more]
        rfl
      · exact further isYoung more
  refine ⟨rest, placed, ?_, ?_⟩
  · apply accounted.stranded.own accounted.placed accounted.framed has
    case deques => exact fun _ _ => rfl
    case workers => exact fun v other => k.leaveSpawned_other other
    case frameOf => exact fun _ _ => rfl
    case others =>
      intro g _ notYoung notOwn
      apply frameOf g
      rintro rfl
      rcases mine with ⟨-, isOwn⟩ | isYoung
      · exact notOwn isOwn
      · exact notYoung (by simp [isYoung])
    case entered => exact le_rfl
    case standing => exact standing
    case fresh =>
      intro g member
      rw [frameOf g fun same => absent (same ▸ member)]
      exact fresh g (remains g member)
    case nodup => exact isRest ▸ nodup.tail
    case apart => exact fun g member => .inl (remains g member)
  · rcases mine with ⟨-, isOwn⟩ | isYoung
    · have notPromoted (v q : ℕ) : pc v ≠ .promoting q t := by
        intro isPromoting
        have same := accounted.placed.apart w v t has (by
          simp [Core.carried, isPromoting, Pc.closures])
        exact not_promoting isUser q t (same ▸ isPromoting)
      apply accounted.framed.leaveOwn live isOwn
      · exact accounted.framed.not_called live isOwn detached notPromoted
      · rfl
      · exact k.leaveSpawned_frames
      · rfl
      · exact fun v cl res isPromoting =>
          promoting_of_update (not_promoting isUser) isPromoting
    · apply accounted.framed_congr (not_promoting isUser) placed
      · exact rfl
      · intro g _ stolen
        apply frameOf g
        rintro rfl
        rw [(fresh g (by simp [isYoung])).2.notStolen] at stolen
        cases stolen
      · exact le_rfl

end User

end Accounted

end Multicilk.Scheduler
