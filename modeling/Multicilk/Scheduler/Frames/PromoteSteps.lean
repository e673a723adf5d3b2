import Multicilk.Scheduler.Fibers.Contents
import Multicilk.Scheduler.Frames.StealSteps

/-!
# The frames that a thief promotes

The frames that a thief has taken get closures, and no frame is forgotten.
-/

namespace Multicilk.Scheduler

open LinkPath

variable {core made : Core} {k k' : Stacks} {pc : ℕ → Pc} {young : ℕ → List ℕ}
  {w v c d f g cl res root frame base : ℕ} {rest closures path : List ℕ}
  {settled : ℕ → Prop}

section Pairs

variable {α β : Type*} {related : α → β → Prop} {linked : α → α → Prop}
  {next : β → β → Prop} {as : List α} {bs : List β}

theorem isChain_of_forall₂ (paired : List.Forall₂ related as bs)
    (links : as.IsChain linked) (chain : bs.IsChain next) :
    as.IsChain fun a b =>
      linked a b ∧ ∃ x y, related a x ∧ related b y ∧ next x y := by
  induction paired with
  | nil => exact .nil
  | @cons a x as bs first rest induction =>
      cases rest with
      | nil => exact List.isChain_singleton a
      | cons second rest =>
          rw [List.isChain_cons_cons] at links chain ⊢
          exact ⟨⟨links.1, x, _, first, second, chain.1⟩,
            induction links.2 chain.2⟩

/-- Items with different values are different. -/
theorem forall₂_injective {value : α → Option β}
    (paired : List.Forall₂ (fun a x => value a = some x) as bs)
    (nodup : bs.Nodup) {a b : α} (first : a ∈ as) (second : b ∈ as)
    (same : value a = value b) : a = b := by
  have equal : List.Forall₂ Eq (as.map value) (bs.map some) :=
    List.forall₂_map_left_iff.mpr (List.forall₂_map_right_iff.mpr paired)
  rw [List.forall₂_eq_eq_eq] at equal
  apply List.inj_on_of_nodup_map ?_ first second same
  rw [equal]
  exact nodup.map fun _ _ => Option.some.inj

end Pairs

section Fuel

variable {M : Type*} {s : State M}

/-- More fuel does not change what has been found. -/
theorem oldestNonStolenFrameInStacklet_mono {fuel more oldest : ℕ}
    (found : oldestNonStolenFrameInStacklet s fuel f = some oldest)
    (enough : fuel ≤ more) :
    oldestNonStolenFrameInStacklet s more f = some oldest := by
  induction fuel generalizing f more with
  | zero => cases found
  | succ fuel induction =>
      obtain ⟨more, rfl⟩ : ∃ rest, more = rest + 1 :=
        Nat.exists_eq_add_of_le' (Nat.le_of_add_left_le enough)
      rw [oldestNonStolenFrameInStacklet] at found ⊢
      split at found
      case isTrue detached => rw [if_pos detached, found]
      case isFalse attached =>
        rw [if_neg attached]
        split at found
        case h_1 => exact found
        case h_2 parent isParent =>
          split at found
          case isTrue stolen => rw [if_pos stolen, found]
          case isFalse notStolen =>
            rw [if_neg notStolen]
            exact induction found (Nat.le_of_succ_le_succ enough)

end Fuel

/-- What the promotion makes of the frames: `rest` are those that have not been
stolen yet. -/
structure Stacks.Promoted (k k' : Stacks) (frame cl base : ℕ)
    (rest closures path : List ℕ) : Prop where
  shape : path ++ [base] = rest ++ (k.frameOf cl).toList
  nodup : closures.Nodup
  paired : List.Forall₂ (fun c f => k'.frameOf c = some f) closures path
  older : k'.frameOf cl = some base
  kept : ∀ c, c ∉ closures → c ≠ cl → k'.frameOf c = k.frameOf c
  frames : ∀ f, k'.frames f = { k.frames f with
    stolen := if f ∈ rest then true else (k.frames f).stolen
    unsynched := if f = frame then true else (k.frames f).unsynched }
  entered : k'.entered = k.entered
  workers : k'.workers = k.workers

namespace Accounted

variable (accounted : Accounted core k pc root settled young)

include accounted

/-- Every frame that has been taken has a closure in the end. -/
theorem promote (isPromoting : pc w = .promoting cl res) (different : cl ≠ res)
    (isFrame : k.frameOf res = some frame)
    (pending : k.Pending frame (young w) (k.frameOf cl))
    (chain : core.Chained made cl res closures)
    (promoted : k.Promoted k' frame cl base (young w) closures path)
    (isSettled : ∀ c ∈ closures, settled c) (notSettled : ¬ settled res)
    (placed : Placed made (Function.update pc w (.holding res))) :
    Accounted made k' (Function.update pc w (.holding res)) root settled
      (Function.update young w []) := by
  have framed := accounted.framed
  have posture := accounted.placed.posture w
  rw [isPromoting] at posture
  obtain ⟨-, running, caller⟩ := posture
  have has : res ∈ core.carried pc w := by
    simp [Core.carried, isPromoting, Pc.closures]
  have live := (accounted.placed.active has).live
  have resCaller := caller different
  have suspended := (accounted.placed.caller res cl live resCaller).1
  have clLive : (core.nodes cl).Live := by simp [Node.Live, suspended]
  have nodup : (path ++ [base]).Nodup := by
    rw [promoted.shape]
    refine List.Nodup.append (accounted.stranded.nodup w) (by
      cases k.frameOf cl <;> simp) fun f member isOwn => ?_
    exact accounted.not_young clLive (Option.mem_toList.mp isOwn) w member
  have pathYoung (f : ℕ) (member : f ∈ path) : f ∈ young w := by
    apply @Stacks.Strand.mem_dropLast _ (k.frameOf cl)
    rw [← promoted.shape, List.dropLast_concat]
    exact member
  have baseOld : base < k.entered ∧
      (base ∈ young w ∨ k.frameOf cl = some base) := by
    have member : base ∈ young w ++ (k.frameOf cl).toList := by
      rw [← promoted.shape]
      simp
    rcases List.mem_append.mp member with isYoung | isOwn
    · exact ⟨(accounted.stranded.fresh w base isYoung).1, .inl isYoung⟩
    · have isOwn := Option.mem_toList.mp isOwn
      exact ⟨(framed.stolen cl base clLive isOwn).1, .inr isOwn⟩
  have frameOld : frame ∉ young w := accounted.not_young live isFrame w
  have fresh (c : ℕ) (isLive : (core.nodes c).Live) : c ∉ closures :=
    fun member => absurd (accounted.placed.allocated isLive)
      (not_lt.mpr (chain.fresh c member).1)
  obtain ⟨callee, clNode⟩ := chain.older
  obtain ⟨callParent, resNode⟩ := chain.younger
  have before (c : ℕ) (isLive : (made.nodes c).Live) :
      c ∈ closures ∨ (core.nodes c).Live ∧ c ∉ closures := by
    by_cases isBetween : c ∈ closures
    · exact .inl isBetween
    refine .inr ⟨?_, isBetween⟩
    by_cases isCl : c = cl
    · exact isCl ▸ clLive
    by_cases isRes : c = res
    · exact isRes ▸ live
    · rwa [chain.kept c isBetween isCl isRes] at isLive
  have frameOf (c : ℕ) (isLive : (core.nodes c).Live) (notCl : c ≠ cl) :
      k'.frameOf c = k.frameOf c := promoted.kept c (fresh c isLive) notCl
  have between (c : ℕ) (member : c ∈ closures) :
      ∃ f ∈ path, k'.frameOf c = some f :=
    exists_mem_of_forall₂ promoted.paired c member
  -- No other closure has a frame that has just been promoted.
  have owner (c f : ℕ) (isLive : (core.nodes c).Live) (hasFrame :
      k'.frameOf c = some f) (member : f ∈ path) : False := by
    by_cases isCl : c = cl
    · rw [isCl, promoted.older] at hasFrame
      cases hasFrame
      exact (List.nodup_append'.mp nodup).2.2 member (List.mem_singleton_self _)
    · rw [frameOf c isLive isCl] at hasFrame
      exact accounted.not_young isLive hasFrame w (pathYoung f member)
  have baseOwner (c : ℕ) (isLive : (core.nodes c).Live) (notCl : c ≠ cl)
      (hasFrame : k'.frameOf c = some base) : False := by
    rw [frameOf c isLive notCl] at hasFrame
    rcases baseOld.2 with isYoung | isOwn
    · exact accounted.not_young isLive hasFrame w isYoung
    · exact notCl (framed.injective c cl base isLive clLive hasFrame isOwn)
  have ownBase (f : ℕ) (isOwn : k.frameOf cl = some f) : f = base := by
    have shape := promoted.shape
    rw [isOwn, Option.toList_some] at shape
    exact (List.singleton_inj.mp (List.append_inj' shape rfl).2).symm
  have frames (f : ℕ) (notYoung : f ∉ young w) (notFrame : f ≠ frame) :
      k'.frames f = k.frames f := by
    rw [promoted.frames, if_neg notYoung, if_neg notFrame]
  refine ⟨placed, ?_, ?_⟩
  · apply accounted.stranded.act
    case deques =>
      intro v _
      rw [chain.deques]
    case workers =>
      intro v _
      rw [promoted.workers]
    case framesOf =>
      intro v other f member
      apply frames f
      · exact fun mine => other (accounted.stranded.apart v w f member mine)
      · rintro rfl
        exact accounted.not_young live isFrame v member
    case known =>
      intro v other c known
      have isLive := accounted.placed.known_live known
      have notRes := accounted.placed.known_apart known has other
      have notCl : c ≠ cl := by
        rintro rfl
        rcases accounted.placed.known_cases known with
          member | ⟨second, alsoPromoting, notItself, -⟩
        · exact accounted.placed.not_carried suspended member
        · have hasSecond : second ∈ core.carried pc v := by
            simp [Core.carried, alsoPromoting, Pc.closures]
          have posture := accounted.placed.posture v
          rw [alsoPromoting] at posture
          have same := accounted.placed.callee second res c
            (accounted.placed.active hasSecond).live live
            (posture.2.2 notItself) resCaller
          exact other (accounted.placed.apart v w res (same ▸ hasSecond) has)
      refine ⟨frameOf c isLive notCl, fun f hasFrame => ?_⟩
      apply frames f
      · exact accounted.not_young isLive hasFrame w
      · rintro rfl
        exact notRes (framed.injective c res f isLive live hasFrame isFrame)
    case entered => exact promoted.entered.ge
    case standing => trivial
    case fresh => exact fun f member => absurd member List.not_mem_nil
    case nodup => exact List.nodup_nil
    case apart => exact fun f member => absurd member List.not_mem_nil
  · constructor
    case stolen =>
      have young (f : ℕ) (isYoung : f ∈ young w) :
          f < k'.entered ∧ (k'.frames f).stolen = true := by
        rw [promoted.entered, promoted.frames]
        exact ⟨(accounted.stranded.fresh w f isYoung).1, if_pos isYoung⟩
      have older (c f : ℕ) (isLive : (core.nodes c).Live)
          (hasFrame : k.frameOf c = some f) :
          f < k'.entered ∧ (k'.frames f).stolen = true := by
        obtain ⟨old, stolen⟩ := framed.stolen c f isLive hasFrame
        rw [promoted.entered, promoted.frames, stolen]
        exact ⟨old, ite_self true⟩
      intro c f isLive hasFrame
      rcases before c isLive with member | ⟨liveBefore, -⟩
      · obtain ⟨g, isPath, isHere⟩ := between c member
        cases hasFrame.symm.trans isHere
        exact young f (pathYoung f isPath)
      · by_cases isCl : c = cl
        · rw [isCl, promoted.older] at hasFrame
          cases hasFrame
          rcases baseOld.2 with isYoung | isOwn
          · exact young base isYoung
          · exact older cl base clLive isOwn
        · rw [frameOf c liveBefore isCl] at hasFrame
          exact older c f liveBefore hasFrame
    case injective =>
      intro c d f isLive isLive' hasFrame hasFrame'
      rcases before c isLive with member | ⟨liveBefore, -⟩
      · obtain ⟨g, isPath, isHere⟩ := between c member
        cases hasFrame.symm.trans isHere
        rcases before d isLive' with member' | ⟨liveBefore', -⟩
        · exact forall₂_injective promoted.paired
            (List.nodup_append'.mp nodup).1 member member'
            (hasFrame.trans hasFrame'.symm)
        · exact (owner d f liveBefore' hasFrame' isPath).elim
      · rcases before d isLive' with member' | ⟨liveBefore', -⟩
        · obtain ⟨g, isPath, isHere⟩ := between d member'
          cases hasFrame'.symm.trans isHere
          exact (owner c f liveBefore hasFrame isPath).elim
        by_cases isCl : c = cl
        · by_cases isCl' : d = cl
          · exact isCl.trans isCl'.symm
          · rw [isCl, promoted.older] at hasFrame
            cases hasFrame
            exact (baseOwner d liveBefore' isCl' hasFrame').elim
        · by_cases isCl' : d = cl
          · rw [isCl', promoted.older] at hasFrame'
            cases hasFrame'
            exact (baseOwner c liveBefore isCl hasFrame).elim
          · rw [frameOf c liveBefore isCl] at hasFrame
            rw [frameOf d liveBefore' isCl'] at hasFrame'
            exact framed.injective c d f liveBefore liveBefore' hasFrame
              hasFrame'
    case last =>
      have young (f : ℕ) (isYoung : f ∈ young w) :
          (k.frames f).last ≠ true := by
        rw [(accounted.stranded.fresh w f isYoung).2.notLast]
        exact Bool.noConfusion
      intro c f isLive hasFrame isLast
      rw [promoted.frames] at isLast
      rcases before c isLive with member | ⟨liveBefore, -⟩
      · obtain ⟨g, isPath, isHere⟩ := between c member
        cases hasFrame.symm.trans isHere
        exact absurd isLast (young f (pathYoung f isPath))
      · by_cases isCl : c = cl
        · rw [isCl, promoted.older] at hasFrame
          cases hasFrame
          rcases baseOld.2 with isYoung | isOwn
          · exact absurd isLast (young base isYoung)
          · exact isCl ▸ framed.last cl base clLive isOwn isLast
        · rw [frameOf c liveBefore isCl] at hasFrame
          exact framed.last c f liveBefore hasFrame isLast
    case ready =>
      intro c isReady
      rcases before c (by simp [Node.Live, isReady]) with
        member | ⟨liveBefore, notBetween⟩
      · obtain ⟨_, _, node⟩ := chain.between c member
        rw [node] at isReady
        cases isReady
      by_cases isCl : c = cl
      · rw [isCl, promoted.older]
        exact Option.some_ne_none base
      rw [frameOf c liveBefore isCl]
      by_cases isRes : c = res
      · rw [isRes, isFrame]
        exact Option.some_ne_none frame
      · rw [chain.kept c notBetween isCl isRes] at isReady
        exact framed.ready c isReady
    case called =>
      have links : (frame :: (path ++ [base])).IsChain fun f g =>
          (k'.frames f).detached = false ∧
            (k'.frames f).callParent = some g := by
        rw [promoted.shape]
        refine isChain_imp_dropLast pending.linked fun f member g link => ?_
        rw [promoted.frames]
        exact ⟨pending.attached f member, link⟩
      have paired : List.Forall₂ (fun c f => k'.frameOf c = some f)
          (res :: (closures ++ [cl])) (frame :: (path ++ [base])) := by
        refine .cons ?_ (List.rel_append promoted.paired
          (.cons promoted.older .nil))
        rw [frameOf res live (Ne.symm different), isFrame]
      have mirrored := isChain_of_forall₂ paired chain.linked links
      intro c p isLive isCaller noPromotion
      by_cases isLinked : c ∈ res :: closures
      · obtain ⟨next, -, ⟨isNext, -⟩, f, h, hasFrame, nextFrame, attached,
          link⟩ := exists_mem_of_forall₂
            (List.isChain_cons_append_singleton_iff_forall₂.mp mirrored) c
            isLinked
        cases isCaller.symm.trans isNext
        exact ⟨f, h, hasFrame, nextFrame, attached, link⟩
      · rw [List.mem_cons, not_or] at isLinked
        have liveBefore := ((before c isLive).resolve_left isLinked.2).1
        have isCallerBefore : (core.nodes c).callParent = some p := by
          by_cases isCl : c = cl
          · rw [isCl, clNode] at isCaller
            rw [isCl, isCaller]
          · rwa [chain.kept c isLinked.2 isCl isLinked.1] at isCaller
        have callerSuspended :=
          (accounted.placed.caller c p liveBefore isCallerBefore).1
        have callerLive : (core.nodes p).Live := by
          simp [Node.Live, callerSuspended]
        have notCl : p ≠ cl := by
          rintro rfl
          exact isLinked.1 (accounted.placed.callee c res p liveBefore live
            isCallerBefore resCaller)
        obtain ⟨f, h, hasFrame, callerFrame, attached, link⟩ :=
          framed.called c p liveBefore isCallerBefore fun v alsoPromoting => by
            by_cases isHere : v = w
            · rw [isHere, isPromoting] at alsoPromoting
              cases alsoPromoting
              exact isLinked.1 rfl
            · exact noPromotion v
                ((Function.update_of_ne isHere ..).trans alsoPromoting)
        refine ⟨f, h, ?_, (frameOf p callerLive notCl).trans callerFrame, ?_⟩
        · by_cases isCl : c = cl
          · rw [isCl] at hasFrame ⊢
            rw [promoted.older, ownBase f hasFrame]
          · rw [frameOf c liveBefore isCl, hasFrame]
        · rw [promoted.frames]
          exact ⟨attached, link⟩
    case synched =>
      intro c isLive synched noPromotion
      rcases before c isLive with member | ⟨liveBefore, notBetween⟩
      · exact isSettled c member
      by_cases isRes : c = res
      · have isSynched := synched frame (by
          rw [frameOf c liveBefore (isRes ▸ Ne.symm different), isRes, isFrame])
        rw [promoted.frames] at isSynched
        exact absurd ((if_pos rfl).symm.trans isSynched) Bool.noConfusion
      apply framed.synched c liveBefore
      · intro f hasFrame
        have hasFrameThere : k'.frameOf c = some f := by
          by_cases isCl : c = cl
          · rw [isCl] at hasFrame ⊢
            rw [promoted.older, ownBase f hasFrame]
          · rw [frameOf c liveBefore isCl, hasFrame]
        have notFrame : f ≠ frame := by
          rintro rfl
          exact isRes (framed.injective c res f liveBefore live hasFrame isFrame)
        have isSynched := synched f hasFrameThere
        rw [promoted.frames] at isSynched
        exact (if_neg notFrame).symm.trans isSynched
      · intro v p alsoPromoting
        by_cases isHere : v = w
        · rw [isHere, isPromoting] at alsoPromoting
          cases alsoPromoting
          exact isRes rfl
        · exact noPromotion v p
            ((Function.update_of_ne isHere ..).trans alsoPromoting)
    case parted =>
      intro c isLive settledThere f hasFrame
      rw [promoted.frames]
      show (if f = frame then true else (k.frames f).unsynched) = false
      rcases before c isLive with member | ⟨liveBefore, -⟩
      · obtain ⟨g, isPath, isHere⟩ := between c member
        cases hasFrame.symm.trans isHere
        have isYoung := pathYoung f isPath
        rw [if_neg fun same : f = frame => frameOld (same ▸ isYoung)]
        exact (accounted.stranded.fresh w f isYoung).2.synched
      have notRes : c ≠ res := by
        rintro rfl
        exact notSettled settledThere
      by_cases isOwn : k.frameOf c = some f
      · rw [if_neg]
        · exact framed.parted c liveBefore settledThere f isOwn
        · rintro rfl
          exact notRes (framed.injective c res f liveBefore live isOwn isFrame)
      · -- The oldest closure had no frame before.
        have isCl : c = cl := by
          by_contra notCl
          exact isOwn ((frameOf c liveBefore notCl).symm.trans hasFrame)
        rw [isCl, promoted.older] at hasFrame
        cases hasFrame
        have isYoung := baseOld.2.resolve_right (isCl ▸ isOwn)
        rw [if_neg fun same : base = frame => frameOld (same ▸ isYoung)]
        exact (accounted.stranded.fresh w base isYoung).2.synched
    case returning =>
      intro c isReturning f hasFrame
      rcases before c (by simp [Node.Live, isReturning]) with
        member | ⟨liveBefore, notBetween⟩
      · obtain ⟨_, _, node⟩ := chain.between c member
        rw [node] at isReturning
        cases isReturning
      by_cases isCl : c = cl
      · rw [isCl, clNode, suspended] at isReturning
        cases isReturning
      by_cases isRes : c = res
      · rw [isRes, resNode] at isReturning
        cases isReturning
      rw [chain.kept c notBetween isCl isRes] at isReturning
      rw [frameOf c liveBefore isCl] at hasFrame
      have notFrame : f ≠ frame := by
        rintro rfl
        exact isRes (framed.injective c res f liveBefore live hasFrame isFrame)
      rw [promoted.frames]
      exact (if_neg notFrame).trans
        (framed.returning c isReturning f hasFrame)

/-- The closure at the top has been stolen, and its frame waits for the child.
-/
theorem readied (isPromoting : pc w = .promoting res res)
    (isFrame : k.frameOf res = some frame) (notSettled : ¬ settled res)
    (placed : Placed (core.setStatus res .ready)
      (Function.update pc w (.holding res))) :
    Accounted (core.setStatus res .ready) (k.setUnsynched res true)
      (Function.update pc w (.holding res)) root settled
      (Function.update young w []) := by
  have framed := accounted.framed
  have has : res ∈ core.carried pc w := by
    simp [Core.carried, isPromoting, Pc.closures]
  have live := (accounted.placed.active has).live
  have frames (f : ℕ) (notFrame : f ≠ frame) :
      (k.setUnsynched res true).frames f = k.frames f := by
    rw [Stacks.setUnsynched_frames, if_neg]
    rw [isFrame]
    exact fun same => notFrame (Option.some.inj same).symm
  have status (c : ℕ) (notRes : c ≠ res) :
      (core.setStatus res .ready).nodes c = core.nodes c := by
    rw [Core.setStatus_nodes, if_neg notRes]
  have before (c : ℕ) (isLive : ((core.setStatus res .ready).nodes c).Live) :
      (core.nodes c).Live := by
    by_cases isRes : c = res
    · exact isRes ▸ live
    · rwa [status c isRes] at isLive
  refine ⟨placed, ?_, ?_⟩
  · apply accounted.stranded.own accounted.placed framed has
    case deques => exact fun _ _ => rfl
    case workers =>
      intro v _
      rw [Stacks.setUnsynched_workers]
    case frameOf =>
      intro c _
      rw [Stacks.setUnsynched_frameOf]
    case others =>
      intro f _ _ notOwn
      apply frames f
      rintro rfl
      exact notOwn isFrame
    case entered => exact (Stacks.setUnsynched_entered ..).ge
    case standing => trivial
    case fresh => exact fun f member => absurd member List.not_mem_nil
    case nodup => exact List.nodup_nil
    case apart => exact fun f member => absurd member List.not_mem_nil
  · constructor
    case stolen =>
      intro c f isLive hasFrame
      rw [Stacks.setUnsynched_frameOf] at hasFrame
      rw [Stacks.setUnsynched_entered, Stacks.setUnsynched_frames]
      exact framed.stolen c f (before c isLive) hasFrame
    case injective =>
      intro c d f isLive isLive'
      rw [Stacks.setUnsynched_frameOf]
      exact framed.injective c d f (before c isLive) (before d isLive')
    case last =>
      intro c f isLive hasFrame isLast
      rw [Stacks.setUnsynched_frameOf] at hasFrame
      rw [Stacks.setUnsynched_frames] at isLast
      exact framed.last c f (before c isLive) hasFrame isLast
    case ready =>
      intro c isReady
      rw [Stacks.setUnsynched_frameOf]
      by_cases isRes : c = res
      · rw [isRes, isFrame]
        exact Option.some_ne_none frame
      · rw [status c isRes] at isReady
        exact framed.ready c isReady
    case called =>
      intro c p isLive isCaller noPromotion
      rw [Core.setStatus_nodes] at isCaller
      have suspended :=
        (accounted.placed.caller c p (before c isLive) isCaller).1
      obtain ⟨f, h, hasFrame, callerFrame, attached, link⟩ :=
        framed.called c p (before c isLive) isCaller fun v alsoPromoting => by
          by_cases isHere : v = w
          · rw [isHere, isPromoting] at alsoPromoting
            cases alsoPromoting
            exact accounted.placed.not_carried suspended has
          · exact noPromotion v
              ((Function.update_of_ne isHere ..).trans alsoPromoting)
      rw [Stacks.setUnsynched_frameOf]
      refine ⟨f, h, hasFrame, callerFrame, ?_⟩
      rw [Stacks.setUnsynched_frames]
      exact ⟨attached, link⟩
    case synched =>
      intro c isLive synched noPromotion
      by_cases isRes : c = res
      · have isSynched := synched frame (by
          rw [Stacks.setUnsynched_frameOf, isRes, isFrame])
        rw [Stacks.setUnsynched_frames] at isSynched
        exact absurd ((if_pos isFrame).symm.trans isSynched) Bool.noConfusion
      have liveBefore := before c isLive
      apply framed.synched c liveBefore
      · intro f hasFrame
        rw [← frames f]
        · exact synched f (by rwa [Stacks.setUnsynched_frameOf])
        · rintro rfl
          exact isRes
            (framed.injective c res f liveBefore live hasFrame isFrame)
      · intro v p alsoPromoting
        by_cases isHere : v = w
        · rw [isHere, isPromoting] at alsoPromoting
          cases alsoPromoting
          exact isRes rfl
        · exact noPromotion v p
            ((Function.update_of_ne isHere ..).trans alsoPromoting)
    case parted =>
      intro c isLive settledThere f hasFrame
      have notRes : c ≠ res := by
        rintro rfl
        exact notSettled settledThere
      have liveBefore := before c isLive
      rw [Stacks.setUnsynched_frameOf] at hasFrame
      rw [frames f]
      · exact framed.parted c liveBefore settledThere f hasFrame
      · rintro rfl
        exact notRes
          (framed.injective c res f liveBefore live hasFrame isFrame)
    case returning =>
      intro c isReturning f hasFrame
      by_cases isRes : c = res
      · rw [isRes, Core.setStatus_nodes] at isReturning
        cases (if_pos rfl).symm.trans isReturning
      rw [status c isRes] at isReturning
      rw [Stacks.setUnsynched_frameOf] at hasFrame
      rw [frames f]
      · exact framed.returning c isReturning f hasFrame
      · rintro rfl
        exact isRes (framed.injective c res f
          (by simp [Node.Live, isReturning]) live hasFrame isFrame)

end Accounted

section Finish

variable {M : Type*} {s t : State M} {fuel : ℕ}

/-- The oldest frame that nobody has stolen is the last one of those that have
been taken, unless the victim has a frame that it has stolen itself. -/
theorem Stacks.Pending.shape {own : Option ℕ} {oldest next : ℕ}
    (pending : s.stacks.Pending frame rest own)
    (isOwn : (s.closures cl).frame = own)
    (notStolen : ∀ f ∈ rest, (s.frames f).stolen = false)
    (stolen : ∀ f, own = some f → (s.frames f).stolen = true)
    (nodup : rest.Nodup)
    (found : oldestNonStolenFrameInStacklet s fuel frame = some oldest)
    (isNext : (s.frames frame).callParent = some next)
    (links : FramePath s next path (baseFrame s cl oldest))
    (absent : baseFrame s cl oldest ∉ path) :
    path ++ [baseFrame s cl oldest] = rest ++ own.toList := by
  have taken (items : List ℕ) (last : ℕ)
      (same : items ++ [last] = rest ++ own.toList) :
      FramePath s frame (frame :: items) last ∧ FramePath s next items last := by
    have linked := pending.linked
    rw [← same, ← List.cons_append] at linked
    have whole : FramePath s frame (frame :: items) last :=
      path_of_isChain linked rfl
    obtain ⟨-, middle, isMiddle, later⟩ := path_cons.mp whole
    cases isNext.symm.trans isMiddle
    exact ⟨whole, later⟩
  cases own with
  | some b =>
      have isBase : baseFrame s cl oldest = b := by
        rw [baseFrame, isOwn, Option.getD_some]
      rw [isBase] at links absent ⊢
      have notRest : b ∉ rest := fun member => by
        have isStolen := stolen b rfl
        rw [notStolen b member] at isStolen
        cases isStolen
      rw [links.unique (taken rest b rfl).2 absent notRest]
      rfl
  | none =>
      obtain ⟨last, isLast, detached⟩ := pending.spawned rfl
      obtain ⟨older, rfl⟩ := List.getLast?_eq_some_iff.mp isLast
      rw [Option.toList_none, List.append_nil] at taken ⊢
      obtain ⟨whole, later⟩ := taken older last rfl
      have attached : ∀ f ∈ frame :: older, (s.frames f).detached = false := by
        intro f member
        apply pending.attached f
        rwa [Option.toList_none, List.append_nil, ← List.cons_append,
          List.dropLast_concat]
      have isOldest := (oldestNonStolenFrameInStacklet_of_path whole attached
        (fun f member => notStolen f (List.mem_append_left _ member))
        (Nat.lt_succ_of_le (Nat.le_max_right fuel _))).2
        (notStolen last (by simp)) detached
      have same := oldestNonStolenFrameInStacklet_mono found
        ((Nat.le_max_left fuel (older.length + 1)).trans (Nat.le_succ _))
      cases same.symm.trans isOldest
      have isBase : baseFrame s cl oldest = oldest := by
        rw [baseFrame, isOwn, Option.getD_none]
      rw [isBase] at links absent ⊢
      have notOlder : oldest ∉ older := fun member =>
        (List.nodup_append'.mp nodup).2.2 member (List.mem_singleton_self _)
      rw [links.unique later absent notOlder]

/-- The closures that are made follow the frames that have been taken. -/
theorem finishPromote_promoted
    (finished : finishPromote s fuel res (cl ≠ res) = some t)
    (different : cl ≠ res)
    (caller : (s.closures res).callParent = some cl)
    (allocated : cl < s.created) (stolenAllocated : res < s.created)
    (isFrame : s.stacks.frameOf res = some frame)
    (pending : s.stacks.Pending frame rest (s.stacks.frameOf cl))
    (notStolen : ∀ f ∈ rest, (s.stacks.frames f).stolen = false)
    (stolen : ∀ f, s.stacks.frameOf cl = some f →
      (s.stacks.frames f).stolen = true)
    (nodup : rest.Nodup) :
    ∃ base closures path, s.core.Chained t.core cl res closures ∧
      s.stacks.Promoted t.stacks frame cl base rest closures path ∧
      t.fibers = s.fibers.promote cl closures := by
  rw [finishPromote, if_pos (decide_eq_true different)] at finished
  obtain ⟨promoted, made, rfl⟩ := Option.map_eq_some_iff.mp finished
  obtain ⟨youngest, oldest, next, path, closures, isYoungest, found, isNext,
    links, absent, chain⟩ := setupClosuresInStacklet_path made caller allocated
      stolenAllocated (Ne.symm different)
  cases isFrame.symm.trans isYoungest
  have shape := pending.shape rfl notStolen stolen nodup found isNext links
    absent
  have isReady : (readyParent promoted res).stacks =
      promoted.stacks.setUnsynched res true := stacks_readyParent res
  have frameOf (c : ℕ) : (readyParent promoted res).stacks.frameOf c =
      (promoted.closures c).frame := by
    rw [isReady, Stacks.setUnsynched_frameOf]
    rfl
  obtain ⟨_, younger⟩ := chain.younger
  refine ⟨baseFrame s cl oldest, closures, path,
    chain.chained stolenAllocated (Ne.symm different), ?_,
    (fibers_readyParent res).trans chain.fibers⟩
  constructor
  case shape => exact shape
  case nodup => exact chain.nodup
  case paired =>
    refine chain.frameOf.imp fun c f isFrame => ?_
    rw [frameOf, isFrame]
  case older =>
    obtain ⟨_, older⟩ := chain.older
    rw [frameOf, older]
  case kept =>
    intro c notBetween notCl
    rw [frameOf]
    by_cases isRes : c = res
    · rw [isRes, younger]
      rfl
    · rw [chain.kept c notBetween notCl isRes]
      rfl
  case frames =>
    intro f
    have hasFrame : promoted.stacks.frameOf res = some frame := by
      exact (congrArg Closure.frame younger).trans isFrame
    have isTaken : f ∈ path ∨ f = baseFrame s cl oldest ↔
        f ∈ rest ∨ s.stacks.frameOf cl = some f := by
      have same := congrArg (f ∈ ·) shape
      simpa [eq_comm] using same
    have isStolen : (promoted.stacks.frames f) = { s.stacks.frames f with
        stolen := if f ∈ path ∨ f = baseFrame s cl oldest then true
          else (s.stacks.frames f).stolen } := by
      simp only [State.stacks]
      rw [chain.frames, promoteOldest_frames stolen]
      by_cases inPath : f ∈ path <;> by_cases isBase :
        f = baseFrame s cl oldest <;>
        simp [inPath, isBase, StackFrame.flags, StackFrame.promoted]
    have alreadyStolen : (if f ∈ path ∨ f = baseFrame s cl oldest then true
        else (s.stacks.frames f).stolen) =
          if f ∈ rest then true else (s.stacks.frames f).stolen := by
      by_cases isRest : f ∈ rest
      · rw [if_pos isRest, if_pos (isTaken.mpr (.inl isRest))]
      · by_cases isOwn : s.stacks.frameOf cl = some f
        · rw [stolen f isOwn, ite_self, ite_self]
        · rw [if_neg isRest, if_neg fun here =>
            (isTaken.mp here).elim isRest isOwn]
    rw [isReady, Stacks.setUnsynched_frames, hasFrame, isStolen, alreadyStolen]
    simp only [Option.some.injEq, eq_comm]
  case entered =>
    rw [isReady, Stacks.setUnsynched_entered]
    exact chain.rest.entered
  case workers =>
    rw [isReady, Stacks.setUnsynched_workers]
    exact congrArg (fun workers w => (workers w).stack) chain.rest.workers

end Finish

end Multicilk.Scheduler
