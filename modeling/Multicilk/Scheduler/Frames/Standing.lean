import Multicilk.Scheduler.Frames.Strands

/-!
# Whose the frames are

A frame that has been stolen belongs to a closure, and any other one to the
worker that has entered it, or to the thief that has not promoted it yet.
-/

namespace Multicilk.Scheduler

variable {core made : Core} {k k' : Stacks} {pc pc' : ℕ → Pc}
  {young young' : ℕ → List ℕ} {w v c d p t f root : ℕ}
  {settled settled' : ℕ → Prop}

/-- Nobody has stolen the frame, so it has no sync to wait for. -/
structure StackFrame.Young (frame : StackFrame) : Prop where
  notStolen : frame.stolen = false
  synched : frame.unsynched = false
  notLast : frame.last = false

def Stack.InBounds (stack : Stack) : Prop :=
  shadowStackInit ≤ stack.head ∧ stack.head ≤ stack.exc

namespace Stacks

/-- The closure has no frame, or one that has been synced. -/
def Synched (k : Stacks) (c : ℕ) : Prop :=
  ∀ f, k.frameOf c = some f → (k.frames f).unsynched = false

/-- The frames that a thief has not promoted yet, where `frame` is the one that
it has promoted, and `own` the one that the victim had. -/
structure Pending (k : Stacks) (frame : ℕ) (older : List ℕ)
    (own : Option ℕ) : Prop where
  linked : (frame :: (older ++ own.toList)).IsChain
    fun f g => (k.frames f).callParent = some g
  remains : older ++ own.toList ≠ []
  attached : ∀ f ∈ (frame :: (older ++ own.toList)).dropLast,
    (k.frames f).detached = false
  spawned : own = none →
    ∃ f, older.getLast? = some f ∧ (k.frames f).detached = true

/-- What is known of the frames of a worker, depending on where it is. -/
def Standing (k : Stacks) (core : Core) (w : ℕ) (young : List ℕ) : Pc → Prop
  | .user => ∃ t, core.deques w = [t] ∧ (k.workers w).InBounds ∧
    k.Strand (k.workers w) young (k.frameOf t)
  | .popped => ∃ t, core.deques w = [t] ∧ (k.workers w).InBounds ∧
    ((k.workers w).head ≤ (k.workers w).tail →
      k.Strand (k.workers w) young (k.frameOf t)) ∧
    ((k.workers w).tail < (k.workers w).head → k.Synched t)
  | .promoting cl res => ∃ frame, k.frameOf res = some frame ∧
    (cl ≠ res → k.Pending frame young (k.frameOf cl))
  | .executing t => (k.workers w).InBounds ∧
    (k.workers w).tail = (k.workers w).head ∧
    ∃ frame, k.frameOf t = some frame ∧
      (k.workers w).currentStackFrame = some frame
  | _ => True

/-- The closures whose frames a worker knows. -/
def known (core : Core) (w : ℕ) : Pc → List ℕ
  | .promoting cl res => [cl, res]
  | .executing t => [t]
  | _ => core.deques w

theorem Pending.congr {frame : ℕ} {older : List ℕ} {own : Option ℕ}
    (pending : k.Pending frame older own)
    (same : ∀ f ∈ frame :: older,
      (k'.frames f).callParent = (k.frames f).callParent ∧
        (k'.frames f).detached = (k.frames f).detached) :
    k'.Pending frame older own := by
  have member {f : ℕ} (isHere : f ∈ (frame :: (older ++ own.toList)).dropLast) :
      f ∈ frame :: older :=
    Strand.mem_dropLast isHere
  constructor
  case linked =>
    exact isChain_congr_dropLast pending.linked
      fun f isHere => (same f (member isHere)).1
  case remains => exact pending.remains
  case attached =>
    intro f isHere
    exact (same f (member isHere)).2.trans (pending.attached f isHere)
  case spawned =>
    intro noFrame
    obtain ⟨f, isLast, detached⟩ := pending.spawned noFrame
    refine ⟨f, isLast, (same f ?_).2.trans detached⟩
    exact List.mem_cons_of_mem _ (List.mem_of_getLast? isLast)

/-- What the others do to their frames does not matter. -/
theorem Standing.congr {w : ℕ} {young : List ℕ} {p : Pc}
    (standing : k.Standing core w young p)
    (deque : made.deques w = core.deques w)
    (worker : k'.workers w = k.workers w)
    (frames : ∀ f ∈ young,
      (k'.frames f).callParent = (k.frames f).callParent ∧
        (k'.frames f).detached = (k.frames f).detached)
    (frameOf : ∀ c ∈ known core w p, k'.frameOf c = k.frameOf c)
    (owned : ∀ c ∈ known core w p, ∀ f, k.frameOf c = some f →
      k'.frames f = k.frames f) :
    k'.Standing made w young p := by
  cases p with
  | user =>
      obtain ⟨t, isDeque, inBounds, strand⟩ := standing
      refine ⟨t, deque.trans isDeque, by rwa [worker], ?_⟩
      rw [worker, frameOf t (by simp [known, isDeque])]
      exact strand.congr frames
  | popped =>
      obtain ⟨t, isDeque, inBounds, strand, synched⟩ := standing
      have mine : t ∈ known core w .popped := by simp [known, isDeque]
      refine ⟨t, deque.trans isDeque, by rwa [worker], ?_, ?_⟩
      · rw [worker, frameOf t mine]
        exact fun inside => (strand inside).congr frames
      · rw [worker]
        intro past f isFrame
        rw [frameOf t mine] at isFrame
        rw [owned t mine f isFrame]
        exact synched past f isFrame
  | promoting cl res =>
      obtain ⟨frame, isFrame, pending⟩ := standing
      have isRes : res ∈ known core w (.promoting cl res) := by simp [known]
      refine ⟨frame, (frameOf res isRes).trans isFrame, fun different => ?_⟩
      rw [frameOf cl (by simp [known])]
      refine (pending different).congr
        (List.forall_mem_cons.mpr ⟨?_, frames⟩)
      rw [owned res isRes frame isFrame]
      exact ⟨rfl, rfl⟩
  | executing t =>
      obtain ⟨inBounds, isEmpty, frame, isFrame, current⟩ := standing
      rw [Standing, worker, frameOf t (by simp [known])]
      exact ⟨inBounds, isEmpty, frame, isFrame, current⟩
  | runtime | looking | thief | holding | returning => trivial

end Stacks

structure Stranded (core : Core) (k : Stacks) (pc : ℕ → Pc)
    (young : ℕ → List ℕ) : Prop where
  standing : ∀ w, k.Standing core w (young w) (pc w)
  fresh : ∀ w, ∀ f ∈ young w, f < k.entered ∧ (k.frames f).Young
  nodup : ∀ w, (young w).Nodup
  apart : ∀ w v f, f ∈ young w → f ∈ young v → w = v

/-- What the frames of the closures say about these, where `settled` are the
closures that have nothing left of their children. -/
structure Framed (core : Core) (k : Stacks) (pc : ℕ → Pc) (root : ℕ)
    (settled : ℕ → Prop) : Prop where
  stolen : ∀ c f, (core.nodes c).Live → k.frameOf c = some f →
    f < k.entered ∧ (k.frames f).stolen = true
  injective : ∀ c d f, (core.nodes c).Live → (core.nodes d).Live →
    k.frameOf c = some f → k.frameOf d = some f → c = d
  last : ∀ c f, (core.nodes c).Live → k.frameOf c = some f →
    (k.frames f).last = true → c = root
  ready : ∀ c, (core.nodes c).status = .ready → k.frameOf c ≠ none
  called : ∀ c p, (core.nodes c).Live → (core.nodes c).callParent = some p →
    (∀ w, pc w ≠ .promoting p c) →
    ∃ f g, k.frameOf c = some f ∧ k.frameOf p = some g ∧
      (k.frames f).detached = false ∧ (k.frames f).callParent = some g
  synched : ∀ c, (core.nodes c).Live → k.Synched c →
    (∀ w cl, pc w ≠ .promoting cl c) → settled c
  parted : ∀ c, (core.nodes c).Live → settled c → k.Synched c
  returning : ∀ c, (core.nodes c).status = .returning → k.Synched c

namespace Stranded

/-- Some workers do something to their frames, and to no others. -/
theorem rearranged {actors : ℕ → Prop} (stranded : Stranded core k pc young)
    (others : ∀ v, ¬actors v → pc' v = pc v ∧ young' v = young v ∧
      made.deques v = core.deques v ∧ k'.workers v = k.workers v ∧
      (∀ f ∈ young v, k'.frames f = k.frames f) ∧
      ∀ c ∈ Stacks.known core v (pc v), k'.frameOf c = k.frameOf c ∧
        ∀ f, k.frameOf c = some f → k'.frames f = k.frames f)
    (entered : k.entered ≤ k'.entered)
    (standing : ∀ v, actors v → k'.Standing made v (young' v) (pc' v))
    (fresh : ∀ v, actors v → ∀ f ∈ young' v,
      f < k'.entered ∧ (k'.frames f).Young)
    (nodup : ∀ v, actors v → (young' v).Nodup)
    (apart : ∀ v u f, actors v → f ∈ young' v → f ∈ young' u → v = u) :
    Stranded made k' pc' young' := by
  constructor
  case standing =>
    intro v
    by_cases isActor : actors v
    · exact standing v isActor
    · obtain ⟨samePc, sameYoung, deque, worker, frames, known⟩ :=
        others v isActor
      rw [samePc, sameYoung]
      refine (stranded.standing v).congr deque worker (fun f member => ?_)
        (fun c member => (known c member).1) (fun c member => (known c member).2)
      rw [frames f member]
      exact ⟨rfl, rfl⟩
  case fresh =>
    intro v f member
    by_cases isActor : actors v
    · exact fresh v isActor f member
    · obtain ⟨-, sameYoung, -, -, frames, -⟩ := others v isActor
      rw [sameYoung] at member
      rw [frames f member]
      obtain ⟨old, isYoung⟩ := stranded.fresh v f member
      exact ⟨old.trans_le entered, isYoung⟩
  case nodup =>
    intro v
    by_cases isActor : actors v
    · exact nodup v isActor
    · rw [(others v isActor).2.1]
      exact stranded.nodup v
  case apart =>
    intro v u f first second
    by_cases isActor : actors v
    · exact apart v u f isActor first second
    by_cases isActor' : actors u
    · exact (apart u v f isActor' second first).symm
    · rw [(others v isActor).2.1] at first
      rw [(others u isActor').2.1] at second
      exact stranded.apart v u f first second

/-- One worker does something to its own frames. -/
theorem act {p : Pc} {frames : List ℕ} (stranded : Stranded core k pc young)
    (deques : ∀ v, v ≠ w → made.deques v = core.deques v)
    (workers : ∀ v, v ≠ w → k'.workers v = k.workers v)
    (framesOf : ∀ v, v ≠ w → ∀ f ∈ young v, k'.frames f = k.frames f)
    (known : ∀ v, v ≠ w → ∀ c ∈ Stacks.known core v (pc v),
      k'.frameOf c = k.frameOf c ∧
        ∀ f, k.frameOf c = some f → k'.frames f = k.frames f)
    (entered : k.entered ≤ k'.entered)
    (standing : k'.Standing made w frames p)
    (fresh : ∀ f ∈ frames, f < k'.entered ∧ (k'.frames f).Young)
    (nodup : frames.Nodup)
    (apart : ∀ f ∈ frames, f ∈ young w ∨ k.entered ≤ f) :
    Stranded made k' (Function.update pc w p)
      (Function.update young w frames) := by
  have pcSelf : Function.update pc w p w = p := Function.update_self ..
  have youngSelf : Function.update young w frames w = frames :=
    Function.update_self ..
  apply @rearranged core made k k' pc _ young _ (· = w) stranded
  case others =>
    intro v other
    exact ⟨Function.update_of_ne other .., Function.update_of_ne other ..,
      deques v other, workers v other, framesOf v other, known v other⟩
  case entered => exact entered
  case standing =>
    rintro v rfl
    rwa [pcSelf, youngSelf]
  case fresh =>
    rintro v rfl
    rwa [youngSelf]
  case nodup =>
    rintro v rfl
    rwa [youngSelf]
  case apart =>
    rintro v u f rfl first second
    by_contra other
    rw [youngSelf] at first
    rw [Function.update_of_ne (Ne.symm other)] at second
    rcases apart f first with mine | new
    · exact other (stranded.apart v u f mine second)
    · exact absurd (stranded.fresh u f second).1 (not_lt.mpr new)

end Stranded

section Known

/-- A worker has the closures that it knows, but for the caller of the one that
it promotes. -/
theorem Placed.known_cases (placed : Placed core pc)
    (known : c ∈ Stacks.known core v (pc v)) : c ∈ core.carried pc v ∨
      ∃ res, pc v = .promoting c res ∧ c ≠ res ∧
        (core.nodes c).status = .suspended := by
  cases isPc : pc v with
  | promoting cl res =>
      rw [isPc] at known
      have isRes : res ∈ core.carried pc v := by
        simp [Core.carried, isPc, Pc.closures]
      rcases List.mem_cons.mp known with rfl | member
      · by_cases same : c = res
        · exact .inl (same ▸ isRes)
        · have posture := placed.posture v
          rw [isPc] at posture
          exact .inr ⟨res, rfl, same, (placed.caller res c
            (placed.active isRes).live (posture.2.2 same)).1⟩
      · exact .inl (List.mem_singleton.mp member ▸ isRes)
  | executing t =>
      rw [isPc] at known
      have isT : c ∈ (Pc.executing t).closures := known
      rw [Core.carried, isPc]
      exact .inl (List.mem_append_right _ isT)
  | user | popped | runtime | looking | thief | holding | returning =>
      rw [isPc] at known
      exact .inl (List.mem_append_left _ known)

theorem Placed.known_live (placed : Placed core pc)
    (known : c ∈ Stacks.known core v (pc v)) : (core.nodes c).Live := by
  rcases placed.known_cases known with member | ⟨res, -, -, suspended⟩
  · exact (placed.active member).live
  · simp [Node.Live, suspended]

/-- A worker knows no closure that another one has. -/
theorem Placed.known_apart (placed : Placed core pc)
    (known : c ∈ Stacks.known core v (pc v)) (has : t ∈ core.carried pc w)
    (other : v ≠ w) : c ≠ t := by
  rintro rfl
  rcases placed.known_cases known with member | ⟨res, -, -, suspended⟩
  · exact other (placed.apart v w c member has)
  · exact placed.not_carried suspended has

end Known

/-- A worker does something to frames of its own only. -/
theorem Stranded.own {p : Pc} {frames : List ℕ}
    (stranded : Stranded core k pc young) (placed : Placed core pc)
    (framed : Framed core k pc root settled) (has : t ∈ core.carried pc w)
    (deques : ∀ v, v ≠ w → made.deques v = core.deques v)
    (workers : ∀ v, v ≠ w → k'.workers v = k.workers v)
    (frameOf : ∀ c, c ≠ t → k'.frameOf c = k.frameOf c)
    (others : ∀ f, f < k.entered → f ∉ young w → k.frameOf t ≠ some f →
      k'.frames f = k.frames f)
    (entered : k.entered ≤ k'.entered)
    (standing : k'.Standing made w frames p)
    (fresh : ∀ f ∈ frames, f < k'.entered ∧ (k'.frames f).Young)
    (nodup : frames.Nodup)
    (apart : ∀ f ∈ frames, f ∈ young w ∨ k.entered ≤ f) :
    Stranded made k' (Function.update pc w p)
      (Function.update young w frames) := by
  have live := (placed.active has).live
  apply stranded.act deques workers ?_ ?_ entered standing fresh nodup apart
  · intro v other f member
    obtain ⟨old, isYoung⟩ := stranded.fresh v f member
    apply others f old
    · exact fun mine => other (stranded.apart v w f member mine)
    · intro isOwn
      have stolen := (framed.stolen t f live isOwn).2
      rw [isYoung.notStolen] at stolen
      cases stolen
  · intro v other c known
    have notMine := placed.known_apart known has other
    refine ⟨frameOf c notMine, fun f isFrame => ?_⟩
    have liveThere := placed.known_live known
    obtain ⟨old, stolen⟩ := framed.stolen c f liveThere isFrame
    apply others f old
    · intro mine
      rw [(stranded.fresh w f mine).2.notStolen] at stolen
      cases stolen
    · exact fun isOwn =>
        notMine (framed.injective c t f liveThere live isFrame isOwn)

/-- A worker goes on without a change of frames. -/
theorem Stranded.still {p : Pc} (stranded : Stranded core k pc young)
    (deques : ∀ v, v ≠ w → made.deques v = core.deques v)
    (workers : ∀ v, v ≠ w → k'.workers v = k.workers v)
    (frameOf : k'.frameOf = k.frameOf) (frames : k'.frames = k.frames)
    (entered : k'.entered = k.entered)
    (standing : k'.Standing made w (young w) p) :
    Stranded made k' (Function.update pc w p) young := by
  have acted : Stranded made k' (Function.update pc w p)
      (Function.update young w (young w)) := by
    apply stranded.act deques workers ?_ ?_ entered.ge standing ?_
      (stranded.nodup w) fun f member => .inl member
    · intro v _ f _
      rw [frames]
    · intro v _ c _
      rw [frameOf, frames]
      exact ⟨rfl, fun _ _ => rfl⟩
    · intro f member
      rw [entered, frames]
      exact stranded.fresh w f member
  rwa [Function.update_eq_self] at acted

namespace Framed

theorem mono (framed : Framed core k pc root settled)
    (keeps : ∀ c, (core.nodes c).Live → (settled c ↔ settled' c)) :
    Framed core k pc root settled' :=
  ⟨framed.stolen, framed.injective, framed.last, framed.ready, framed.called,
    fun c live synched notPromoting =>
      (keeps c live).mp (framed.synched c live synched notPromoting),
    fun c live isSettled => framed.parted c live ((keeps c live).mpr isSettled),
    framed.returning⟩

/-- Nothing happens to the frames of the closures. -/
theorem congr (framed : Framed core k pc root settled)
    (placed : Placed made pc')
    (live : ∀ c, (made.nodes c).Live → (core.nodes c).Live)
    (callParent : ∀ c, (made.nodes c).Live →
      (made.nodes c).callParent = (core.nodes c).callParent)
    (frameOf : ∀ c, (made.nodes c).Live → k'.frameOf c = k.frameOf c)
    (frames : ∀ c f, (made.nodes c).Live → k.frameOf c = some f →
      k'.frames f = k.frames f)
    (entered : k.entered ≤ k'.entered)
    (ready : ∀ c, (made.nodes c).status = .ready → k.frameOf c ≠ none)
    (returning : ∀ c, (made.nodes c).status = .returning → k.Synched c)
    (promoting : ∀ w cl res, pc w = .promoting cl res →
      pc' w = .promoting cl res) :
    Framed made k' pc' root settled := by
  constructor
  case stolen =>
    intro c f isLive isFrame
    rw [frameOf c isLive] at isFrame
    obtain ⟨old, stolen⟩ := framed.stolen c f (live c isLive) isFrame
    rw [frames c f isLive isFrame]
    exact ⟨old.trans_le entered, stolen⟩
  case injective =>
    intro c d f isLive isLive' isFrame isFrame'
    rw [frameOf c isLive] at isFrame
    rw [frameOf d isLive'] at isFrame'
    exact framed.injective c d f (live c isLive) (live d isLive') isFrame
      isFrame'
  case last =>
    intro c f isLive isFrame isLast
    rw [frameOf c isLive] at isFrame
    rw [frames c f isLive isFrame] at isLast
    exact framed.last c f (live c isLive) isFrame isLast
  case ready =>
    intro c isReady
    rw [frameOf c (by simp [Node.Live, isReady])]
    exact ready c isReady
  case called =>
    intro c p isLive isCaller notPromoting
    have suspended := (placed.caller c p isLive isCaller).1
    have callerLive : (made.nodes p).Live := by simp [Node.Live, suspended]
    rw [callParent c isLive] at isCaller
    obtain ⟨f, g, isFrame, isCallerFrame, attached, link⟩ :=
      framed.called c p (live c isLive) isCaller fun w isPromoting =>
        notPromoting w (promoting w p c isPromoting)
    refine ⟨f, g, (frameOf c isLive).trans isFrame,
      (frameOf p callerLive).trans isCallerFrame, ?_⟩
    rw [frames c f isLive isFrame]
    exact ⟨attached, link⟩
  case synched =>
    intro c isLive synched notPromoting
    apply framed.synched c (live c isLive)
    · intro f isFrame
      rw [← frames c f isLive isFrame]
      exact synched f ((frameOf c isLive).trans isFrame)
    · exact fun w cl isPromoting =>
        notPromoting w cl (promoting w cl c isPromoting)
  case parted =>
    intro c isLive isSettled f isFrame
    rw [frameOf c isLive] at isFrame
    rw [frames c f isLive isFrame]
    exact framed.parted c (live c isLive) isSettled f isFrame
  case returning =>
    intro c isReturning f isFrame
    have isLive : (made.nodes c).Live := by simp [Node.Live, isReturning]
    rw [frameOf c isLive] at isFrame
    rw [frames c f isLive isFrame]
    exact returning c isReturning f isFrame

/-- The frame of a closure that has no children any more is synced. -/
theorem setUnsynched (framed : Framed core k pc root settled)
    (live : (core.nodes t).Live) (isSettled : settled' t)
    (keeps : ∀ c, (core.nodes c).Live → c ≠ t → (settled c ↔ settled' c)) :
    Framed core (k.setUnsynched t false) pc root settled' := by
  have remains (c : ℕ) (synched : k.Synched c) :
      (k.setUnsynched t false).Synched c := by
    intro f isFrame
    rw [Stacks.setUnsynched_frameOf] at isFrame
    rw [Stacks.setUnsynched_frames]
    show (if _ then _ else _) = _
    split
    · rfl
    · exact synched f isFrame
  constructor
  case stolen =>
    intro c f isLive isFrame
    rw [Stacks.setUnsynched_frameOf] at isFrame
    rw [Stacks.setUnsynched_entered, Stacks.setUnsynched_frames]
    exact framed.stolen c f isLive isFrame
  case injective =>
    rw [Stacks.setUnsynched_frameOf]
    exact framed.injective
  case last =>
    intro c f isLive isFrame isLast
    rw [Stacks.setUnsynched_frameOf] at isFrame
    rw [Stacks.setUnsynched_frames] at isLast
    exact framed.last c f isLive isFrame isLast
  case ready =>
    rw [Stacks.setUnsynched_frameOf]
    exact framed.ready
  case called =>
    intro c p isLive isCaller notPromoting
    obtain ⟨f, g, isFrame, isCallerFrame, attached, link⟩ :=
      framed.called c p isLive isCaller notPromoting
    rw [Stacks.setUnsynched_frameOf]
    refine ⟨f, g, isFrame, isCallerFrame, ?_⟩
    rw [Stacks.setUnsynched_frames]
    exact ⟨attached, link⟩
  case synched =>
    intro c isLive synched notPromoting
    by_cases isT : c = t
    · rwa [isT]
    apply (keeps c isLive isT).mp
    apply framed.synched c isLive _ notPromoting
    intro f isFrame
    have isSynched := synched f (by rwa [Stacks.setUnsynched_frameOf])
    have notOwn : k.frameOf t ≠ some f := fun isOwn =>
      isT (framed.injective c t f isLive live isFrame isOwn)
    rw [Stacks.setUnsynched_frames] at isSynched
    exact (if_neg notOwn).symm.trans isSynched
  case parted =>
    intro c isLive settledThere
    by_cases isT : c = t
    · intro f isFrame
      rw [isT, Stacks.setUnsynched_frameOf] at isFrame
      rw [Stacks.setUnsynched_frames]
      exact if_pos isFrame
    · exact remains c
        (framed.parted c isLive ((keeps c isLive isT).mpr settledThere))
  case returning =>
    exact fun c isReturning => remains c (framed.returning c isReturning)

/-- A closure whose frame has been detached has no caller. -/
theorem not_called (framed : Framed core k pc root settled)
    (live : (core.nodes t).Live) (isOwn : k.frameOf t = some f)
    (detached : (k.frames f).detached = true)
    (notPromoted : ∀ w p, pc w ≠ .promoting p t) :
    (core.nodes t).callParent = none := by
  cases isCaller : (core.nodes t).callParent with
  | none => rfl
  | some p =>
      obtain ⟨g, -, isFrame, -, attached, -⟩ :=
        framed.called t p live isCaller fun w => notPromoted w p
      rw [isOwn, Option.some.injEq] at isFrame
      rw [← isFrame, detached] at attached
      cases attached

/-- The frame of a spawned child is left. -/
theorem leaveOwn (framed : Framed core k pc root settled)
    (live : (core.nodes t).Live) (isOwn : k.frameOf t = some f)
    (notCalled : (core.nodes t).callParent = none)
    (frameOf : k'.frameOf = k.frameOf)
    (frames : ∀ g, k'.frames g = if g = f then
      { k.frames f with callParent := none, detached := false }
      else k.frames g)
    (entered : k'.entered = k.entered)
    (promoting : ∀ w cl res, pc w = .promoting cl res →
      pc' w = .promoting cl res) :
    Framed core k' pc' root settled := by
  have flags (g : ℕ) : (k'.frames g).stolen = (k.frames g).stolen ∧
      (k'.frames g).last = (k.frames g).last ∧
      (k'.frames g).unsynched = (k.frames g).unsynched := by
    rw [frames]
    split
    case isTrue same =>
      rw [same]
      exact ⟨rfl, rfl, rfl⟩
    case isFalse => exact ⟨rfl, rfl, rfl⟩
  constructor
  case stolen =>
    intro c g isLive isFrame
    rw [frameOf] at isFrame
    rw [entered, (flags g).1]
    exact framed.stolen c g isLive isFrame
  case injective =>
    rw [frameOf]
    exact framed.injective
  case last =>
    intro c g isLive isFrame isLast
    rw [frameOf] at isFrame
    rw [(flags g).2.1] at isLast
    exact framed.last c g isLive isFrame isLast
  case ready =>
    rw [frameOf]
    exact framed.ready
  case called =>
    intro c p isLive isCaller notPromoting
    obtain ⟨g, h, isFrame, isCallerFrame, attached, link⟩ :=
      framed.called c p isLive isCaller fun w isPromoting =>
        notPromoting w (promoting w p c isPromoting)
    have other : g ≠ f := by
      rintro rfl
      rw [framed.injective c t g isLive live isFrame isOwn, notCalled]
        at isCaller
      cases isCaller
    rw [frameOf]
    refine ⟨g, h, isFrame, isCallerFrame, ?_⟩
    rw [frames, if_neg other]
    exact ⟨attached, link⟩
  case synched =>
    intro c isLive synched notPromoting
    apply framed.synched c isLive
    · intro g isFrame
      rw [← (flags g).2.2]
      exact synched g (frameOf.symm ▸ isFrame)
    · exact fun w cl isPromoting =>
        notPromoting w cl (promoting w cl c isPromoting)
  case parted =>
    intro c isLive isSettled g isFrame
    rw [frameOf] at isFrame
    rw [(flags g).2.2]
    exact framed.parted c isLive isSettled g isFrame
  case returning =>
    intro c isReturning g isFrame
    rw [frameOf] at isFrame
    rw [(flags g).2.2]
    exact framed.returning c isReturning g isFrame

end Framed

end Multicilk.Scheduler
