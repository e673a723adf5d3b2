import Multicilk.Scheduler.Frames.RuntimeSteps

/-!
# Frames change hands

A thief takes the frame that has spawned, and the older frames with it until
they have closures.  The victim keeps the child.
-/

namespace Multicilk.Scheduler

variable {core made : Core} {k k' : Stacks} {pc : ℕ → Pc} {young : ℕ → List ℕ}
  {w v c d f g cl res child root : ℕ} {below older rest : List ℕ}
  {settled settled' : ℕ → Prop}

/-- The frame at the head of the victim gets a closure, and the child of the
frame gets one without a frame. -/
def Stacks.steal (k : Stacks) (v g res child : ℕ) : Stacks :=
  { k with
    frameOf :=
      Function.update (Function.update k.frameOf res (some g)) child none
    frames := Function.update k.frames g { k.frames g with stolen := true }
    workers := Function.update k.workers v { k.workers v with
      head := (k.workers v).head + 1
      exc := (k.workers v).exc + 1 } }

namespace Stacks

theorem steal_frameOf (k : Stacks) (c : ℕ) :
    (k.steal v g res child).frameOf c =
      if c = child then none else if c = res then some g else k.frameOf c := by
  simp only [steal, Function.update_apply]

theorem steal_frames (k : Stacks) (f : ℕ) : (k.steal v g res child).frames f =
    { k.frames f with
      stolen := if f = g then true else (k.frames f).stolen } := by
  simp only [steal, Function.update_apply]
  split
  case isTrue same => rw [same]
  case isFalse => rfl

theorem steal_self (k : Stacks) : (k.steal v g res child).workers v =
    { k.workers v with
      head := (k.workers v).head + 1, exc := (k.workers v).exc + 1 } :=
  Function.update_self ..

theorem steal_other (k : Stacks) (other : w ≠ v) :
    (k.steal v g res child).workers w = k.workers w :=
  Function.update_of_ne other ..

end Stacks

section Extracted

variable {M : Type*} {s : State M} {victim : ℕ} {fiber : Option ℕ}

theorem stacks_extractedItself :
    (extractedItself s victim cl fiber).stacks =
      s.stacks.steal victim (frameToSteal s victim) cl s.created := by
  apply Stacks.ext
  case frameOf =>
    funext c
    rw [Stacks.steal_frameOf]
    simp only [State.stacks, extractedItself]
    split
    · rfl
    · split
      · rfl
      · split <;> rfl
  case frames =>
    funext f
    rw [Stacks.steal_frames]
    simp only [State.stacks, extractedItself, extracted, setStolen,
      State.modifyFrame, Function.update_apply]
    split
    case isTrue same => rw [same]; rfl
    case isFalse => rfl
  case entered => rfl
  case workers =>
    funext v
    simp only [State.stacks, extractedItself, extracted, Stacks.steal,
      Function.update_apply]
    split <;> rfl

theorem stacks_extractedCallee :
    (extractedCallee s victim cl fiber).stacks =
      s.stacks.steal victim (frameToSteal s victim) s.created
        (s.created + 1) := by
  apply Stacks.ext
  case frameOf =>
    funext c
    rw [Stacks.steal_frameOf]
    simp only [State.stacks, extractedCallee]
    split
    · rfl
    · split
      · rfl
      · split
        case isTrue same => rw [same]
        case isFalse => rfl
  case frames =>
    funext f
    rw [Stacks.steal_frames]
    simp only [State.stacks, extractedCallee, extracted, setStolen,
      State.modifyFrame, Function.update_apply]
    split
    case isTrue same => rw [same]; rfl
    case isFalse => rfl
  case entered => rfl
  case workers =>
    funext v
    simp only [State.stacks, extractedCallee, extracted, Stacks.steal,
      Function.update_apply]
    split <;> rfl

end Extracted

/-- What the steal makes of the tree: the stolen closure `res` is either that at
the top or a new one, and `child` is new. -/
structure Core.StolenFrom (core made : Core) (v cl res child : ℕ) : Prop where
  childFresh : core.created ≤ child
  resFresh : res = cl ∨ core.created ≤ res ∧ res ≠ child
  deques : made.deques = Function.update core.deques v [child]
  childNode : (made.nodes child).status = .running ∧
    (made.nodes child).callParent = none
  resNode : (made.nodes res).status = .running ∧
    (cl ≠ res → (made.nodes res).callParent = some cl)
  callParent : (made.nodes cl).callParent = (core.nodes cl).callParent
  suspended : cl ≠ res → (made.nodes cl).status = .suspended
  kept : ∀ c, c ≠ child → c ≠ res → c ≠ cl →
    (made.nodes c).status = (core.nodes c).status ∧
      (made.nodes c).callParent = (core.nodes c).callParent

theorem Core.stolenFrom_itself (allocated : cl < core.created)
    (isDeque : core.deques v = [cl])
    (running : (core.nodes cl).status = .running) :
    core.StolenFrom ((core.addChild cl).setDeque v
      (core.deques v ++ [core.created]).tail) v cl cl core.created := by
  have notNew : cl ≠ core.created := Nat.ne_of_lt allocated
  constructor
  case childFresh => exact le_rfl
  case resFresh => exact .inl rfl
  case deques => simp [Core.setDeque, Core.addChild, isDeque]
  case childNode => simp [Core.setDeque, Core.addChild]
  case resNode => simp [Core.setDeque, Core.addChild, notNew, running]
  case callParent => simp [Core.setDeque, Core.addChild, notNew]
  case suspended => exact fun different => absurd rfl different
  case kept =>
    intro c notChild notRes notCl
    simp only [Core.setDeque, Core.addChild, if_neg notChild, if_neg notCl]
    split <;> simp

theorem Core.stolenFrom_callee (allocated : cl < core.created)
    (isDeque : core.deques v = [cl]) :
    core.StolenFrom (((core.addTempCallee cl).addChild core.created).setDeque v
      ((core.deques v).dropLast ++ [core.created + 1])) v cl core.created
        (core.created + 1) := by
  have notNew : cl ≠ core.created := Nat.ne_of_lt allocated
  have notChild : cl ≠ core.created + 1 := by omega
  constructor
  case childFresh => exact Nat.le_succ _
  case resFresh => exact .inr ⟨le_rfl, by omega⟩
  case deques =>
    simp [Core.setDeque, Core.addChild, Core.addTempCallee, isDeque]
  case childNode => simp [Core.setDeque, Core.addChild, Core.addTempCallee]
  case resNode => simp [Core.setDeque, Core.addChild, Core.addTempCallee]
  case callParent =>
    simp [Core.setDeque, Core.addChild, Core.addTempCallee, notNew, notChild]
  case suspended =>
    simp [Core.setDeque, Core.addChild, Core.addTempCallee, notNew, notChild]
  case kept =>
    intro c isOther notRes notCl
    simp [Core.setDeque, Core.addChild, Core.addTempCallee, isOther, notRes,
      notCl]

/-- How the frames of a victim are divided when `g` is stolen: the young frames
`below` stay, and the thief has still to promote `rest`. -/
structure Stacks.Divided (k : Stacks) (v g : ℕ) (own : Option ℕ)
    (frames below rest : List ℕ) : Prop where
  strand : k.Strand { k.workers v with
    head := (k.workers v).head + 1, exc := (k.workers v).exc + 1 } below none
  belowYoung : ∀ f ∈ below, f ∈ frames
  restYoung : ∀ f ∈ rest, f ∈ frames
  belowNodup : below.Nodup
  restNodup : rest.Nodup
  disjoint : ∀ f ∈ below, f ∉ rest
  belowAbsent : g ∉ below
  restAbsent : g ∉ rest
  frame : g ∈ frames ∨ own = some g

theorem Stacks.Strand.divided {own : Option ℕ} {frames : List ℕ}
    (strand : k.Strand (k.workers v) frames own)
    (nodup : frames.Nodup) (absent : ∀ f, own = some f → f ∉ frames)
    (nonempty : (k.workers v).head < (k.workers v).tail)
    (isFrame : g = (k.workers v).shadowStack (k.workers v).head) :
    ∃ below rest, k.Divided v g own frames below rest ∧
      (rest = [] ∧ (own = some g ∨
          own = none ∧ (k.frames g).detached = true) ∨
        own ≠ some g ∧ k.Pending g rest own) := by
  obtain ⟨below, older, split, stays, isHead, linked, attached, spawned⟩ :=
    strand.steal nonempty ((k.workers v).exc + 1)
  rw [← isFrame] at isHead
  rw [split] at nodup
  obtain ⟨belowNodup, olderNodup, disjoint⟩ := List.nodup_append'.mp nodup
  cases older with
  | nil =>
      rw [List.nil_append, Option.head?_toList] at isHead
      refine ⟨below, [], ⟨stays, ?_, nofun, belowNodup, List.nodup_nil,
        fun _ _ => List.not_mem_nil, ?_, List.not_mem_nil, .inr isHead⟩,
        .inl ⟨rfl, .inl isHead⟩⟩
      · intro f member
        rw [split]
        exact List.mem_append_left _ member
      · intro member
        apply absent g isHead
        rw [split]
        exact List.mem_append_left _ member
  | cons first rest =>
      cases isHead
      obtain ⟨restAbsent, restNodup⟩ := List.nodup_cons.mp olderNodup
      have isYoung : g ∈ frames := by simp [split]
      refine ⟨below, rest, ⟨stays, ?_, ?_, belowNodup, restNodup, ?_, ?_,
        restAbsent, .inl isYoung⟩, ?_⟩
      · intro f member
        rw [split]
        exact List.mem_append_left _ member
      · intro f member
        rw [split]
        exact List.mem_append_right _ (List.mem_cons_of_mem _ member)
      · exact fun f member isRest =>
          disjoint member (List.mem_cons_of_mem _ isRest)
      · exact fun member => disjoint member List.mem_cons_self
      · by_cases alone : rest ++ own.toList = []
        · obtain ⟨noRest, noFrame⟩ := List.append_eq_nil_iff.mp alone
          have noOwn := Option.toList_eq_nil_iff.mp noFrame
          obtain ⟨f, isLast, detached⟩ := spawned noOwn
          rw [noRest, List.getLast?_singleton, Option.some.injEq] at isLast
          exact .inl ⟨noRest, .inr ⟨noOwn, isLast ▸ detached⟩⟩
        · refine .inr ⟨fun isOwn => absent g isOwn isYoung, linked, alone,
            attached, fun noOwn => ?_⟩
          obtain ⟨f, isLast, detached⟩ := spawned noOwn
          rw [noOwn, Option.toList_none, List.append_nil] at alone
          rw [List.getLast?_cons_of_ne_nil alone] at isLast
          exact ⟨f, isLast, detached⟩

namespace Accounted

variable (accounted : Accounted core k pc root settled young)

include accounted

/-- The frames of a victim. -/
theorem victimStrand (inCode : pc v = .user ∨ pc v = .popped)
    (isDeque : core.deques v = [cl])
    (nonempty : (k.workers v).head < (k.workers v).tail) :
    (k.workers v).InBounds ∧
      k.Strand (k.workers v) (young v) (k.frameOf cl) := by
  have standing := accounted.stranded.standing v
  rcases inCode with isUser | isPopped
  · rw [isUser] at standing
    obtain ⟨t, isDequeThere, inBounds, strand⟩ := standing
    rw [isDeque] at isDequeThere
    cases isDequeThere
    exact ⟨inBounds, strand⟩
  · rw [isPopped] at standing
    obtain ⟨t, isDequeThere, inBounds, strand, -⟩ := standing
    rw [isDeque] at isDequeThere
    cases isDequeThere
    exact ⟨inBounds, strand nonempty.le⟩

/-- No closure has a young frame. -/
theorem not_young (live : (core.nodes c).Live) (isFrame : k.frameOf c = some f)
    (w : ℕ) : f ∉ young w := by
  intro member
  have stolen := (accounted.framed.stolen c f live isFrame).2
  rw [(accounted.stranded.fresh w f member).2.notStolen] at stolen
  cases stolen

theorem steal (isThief : pc w = .thief)
    (inCode : pc v = .user ∨ pc v = .popped) (isDeque : core.deques v = [cl])
    (nonempty : (k.workers v).head < (k.workers v).tail)
    (taken : core.StolenFrom made v cl res child)
    (divided : k.Divided v g (k.frameOf cl) (young v) below rest)
    (itself : cl = res → k.frameOf cl = none ∨ k.frameOf cl = some g)
    (callee : cl ≠ res →
      k.frameOf cl ≠ some g ∧ k.Pending g rest (k.frameOf cl))
    (keeps : ∀ c, (core.nodes c).Live → c ≠ res → (settled c ↔ settled' c))
    (isSettled : settled' child) (notSettled : ¬ settled' res)
    (placed : Placed made (Function.update pc w (.promoting cl res))) :
    Accounted made (k.steal v g res child)
      (Function.update pc w (.promoting cl res)) root settled'
      (Function.update (Function.update young v below) w rest) := by
  have different : v ≠ w := by
    rintro rfl
    rw [isThief] at inCode
    simp at inCode
  obtain ⟨⟨positive, raised⟩, strand⟩ :=
    accounted.victimStrand inCode isDeque nonempty
  have framed := accounted.framed
  have has : cl ∈ core.carried pc v := by simp [Core.carried, isDeque]
  have clLive := (accounted.placed.active has).live
  have clAllocated := accounted.placed.allocated clLive
  have pcThief : Function.update pc w (.promoting cl res) w =
      .promoting cl res := Function.update_self ..
  have pcOther (u : ℕ) (notThief : u ≠ w) :
      Function.update pc w (.promoting cl res) u = pc u :=
    Function.update_of_ne notThief ..
  have youngThief : Function.update (Function.update young v below) w rest w =
      rest := Function.update_self ..
  have youngVictim : Function.update (Function.update young v below) w rest v =
      below := by
    rw [Function.update_of_ne different, Function.update_self]
  have youngOther (u : ℕ) (notVictim : u ≠ v) (notThief : u ≠ w) :
      Function.update (Function.update young v below) w rest u = young u := by
    rw [Function.update_of_ne notThief, Function.update_of_ne notVictim]
  have notNew (c : ℕ) (live : (core.nodes c).Live) : c ≠ child ∧
      (c ≠ cl → c ≠ res) := by
    have allocated := accounted.placed.allocated live
    have childFresh := taken.childFresh
    have resFresh := taken.resFresh
    constructor <;> omega
  have frameOf (c : ℕ) (live : (core.nodes c).Live) (notRes : c ≠ res) :
      (k.steal v g res child).frameOf c = k.frameOf c := by
    rw [k.steal_frameOf, if_neg (notNew c live).1, if_neg notRes]
  have frames (f : ℕ) (notG : f ≠ g) :
      (k.steal v g res child).frames f = k.frames f := by
    rw [k.steal_frames, if_neg notG]
  have owner (c : ℕ) (live : (core.nodes c).Live)
      (isFrame : k.frameOf c = some g) : c = cl := by
    rcases divided.frame with isYoung | isOwn
    · exact absurd isYoung (accounted.not_young live isFrame v)
    · exact framed.injective c cl g live clLive isFrame isOwn
  have elsewhere (u : ℕ) (notVictim : u ≠ v) : g ∉ young u := by
    intro member
    rcases divided.frame with isYoung | isOwn
    · exact notVictim (accounted.stranded.apart u v g member isYoung)
    · exact accounted.not_young clLive isOwn u member
  have old : g < k.entered := by
    rcases divided.frame with isYoung | isOwn
    · exact (accounted.stranded.fresh v g isYoung).1
    · exact (framed.stolen cl g clLive isOwn).1
  have before (c : ℕ) (live : (made.nodes c).Live) :
      c = child ∨ c = res ∨ (core.nodes c).Live ∧ c ≠ child ∧ c ≠ res := by
    by_cases isChild : c = child
    · exact .inl isChild
    by_cases isRes : c = res
    · exact .inr (.inl isRes)
    refine .inr (.inr ⟨?_, isChild, isRes⟩)
    by_cases isCl : c = cl
    · exact isCl ▸ clLive
    · rwa [Node.Live, (taken.kept c isChild isRes isCl).1] at live
  have callParent (c : ℕ) (live : (core.nodes c).Live) (notRes : c ≠ res) :
      (made.nodes c).callParent = (core.nodes c).callParent := by
    by_cases isCl : c = cl
    · exact isCl ▸ taken.callParent
    · exact (taken.kept c (notNew c live).1 notRes isCl).2
  have notPromoting (u p c : ℕ)
      (isPromoting : pc u = .promoting p c) :
      Function.update pc w (.promoting cl res) u = .promoting p c :=
    promoting_of_update (by
      intro q r
      rw [isThief]
      exact Pc.noConfusion) isPromoting
  have resFrame : (k.steal v g res child).frameOf res = some g := by
    have notChild : res ≠ child := by
      rcases taken.resFresh with rfl | ⟨-, notChild⟩
      · exact (notNew res clLive).1
      · exact notChild
    rw [k.steal_frameOf, if_neg notChild, if_pos rfl]
  have childFrame : (k.steal v g res child).frameOf child = none := by
    rw [k.steal_frameOf, if_pos rfl]
  refine ⟨placed, ?_, ?_⟩
  · apply @Stranded.rearranged core made k (k.steal v g res child) pc _ young _
      (fun u => u = v ∨ u = w) accounted.stranded
    case others =>
      intro u other
      have notVictim : u ≠ v := fun same => other (.inl same)
      have notThief : u ≠ w := fun same => other (.inr same)
      refine ⟨pcOther u notThief, youngOther u notVictim notThief, ?_,
        k.steal_other notVictim, ?_, ?_⟩
      · rw [taken.deques, Function.update_of_ne notVictim]
      · intro f member
        apply frames f
        rintro rfl
        exact elsewhere u notVictim member
      · intro c known
        have live := accounted.placed.known_live known
        have notCl := accounted.placed.known_apart known has notVictim
        refine ⟨frameOf c live ((notNew c live).2 notCl), fun f isFrame => ?_⟩
        apply frames f
        rintro rfl
        exact notCl (owner c live isFrame)
    case entered => exact le_rfl
    case standing =>
      rintro u (rfl | rfl)
      · have victimDeque : made.deques u = [child] := by
          rw [taken.deques, Function.update_self]
        have stays : (k.steal u g res child).Strand
            ((k.steal u g res child).workers u) below none := by
          rw [k.steal_self]
          refine divided.strand.congr fun f member => ?_
          rw [k.steal_frames]
          exact ⟨rfl, rfl⟩
        have inBounds : ((k.steal u g res child).workers u).InBounds := by
          rw [k.steal_self]
          exact ⟨Nat.le_succ_of_le positive, Nat.succ_le_succ raised⟩
        rw [pcOther u different, youngVictim]
        rcases inCode with isUser | isPopped
        · rw [isUser]
          exact ⟨child, victimDeque, inBounds, childFrame.symm ▸ stays⟩
        · rw [isPopped]
          refine ⟨child, victimDeque, inBounds, fun _ => ?_, fun _ f isFrame =>
            ?_⟩
          · exact childFrame.symm ▸ stays
          · rw [childFrame] at isFrame
            cases isFrame
      · rw [pcThief, youngThief]
        refine ⟨g, resFrame, fun notItself => ?_⟩
        rw [frameOf cl clLive notItself]
        refine (callee notItself).2.congr fun f member => ?_
        rw [k.steal_frames]
        exact ⟨rfl, rfl⟩
    case fresh =>
      have young (f : ℕ) (isYoung : f ∈ young v) (notG : f ≠ g) :
          f < (k.steal v g res child).entered ∧
            ((k.steal v g res child).frames f).Young := by
        rw [frames f notG]
        exact accounted.stranded.fresh v f isYoung
      rintro u (rfl | rfl) f member
      · rw [youngVictim] at member
        exact young f (divided.belowYoung f member) fun same =>
          divided.belowAbsent (same ▸ member)
      · rw [youngThief] at member
        exact young f (divided.restYoung f member) fun same =>
          divided.restAbsent (same ▸ member)
    case nodup =>
      rintro u (rfl | rfl)
      · rw [youngVictim]
        exact divided.belowNodup
      · rw [youngThief]
        exact divided.restNodup
    case apart =>
      have apart (u u' f : ℕ) (first : f ∈ young v) (notVictim : u' ≠ v)
          (notThief : u' ≠ w) (second : f ∈ Function.update
            (Function.update young v below) w rest u') : u = u' := by
        rw [youngOther u' notVictim notThief] at second
        exact absurd (accounted.stranded.apart u' v f second first) notVictim
      rintro u u' f (rfl | rfl) first second
      · rw [youngVictim] at first
        by_cases isVictim : u' = u
        · exact isVictim.symm
        by_cases isThiefToo : u' = w
        · rw [isThiefToo, youngThief] at second
          exact absurd second (divided.disjoint f first)
        · exact apart u u' f (divided.belowYoung f first) isVictim isThiefToo
            second
      · rw [youngThief] at first
        by_cases isVictim : u' = v
        · rw [isVictim, youngVictim] at second
          exact absurd first (divided.disjoint f second)
        by_cases isThiefToo : u' = u
        · exact isThiefToo.symm
        · exact apart u u' f (divided.restYoung f first) isVictim isThiefToo
            second
  · constructor
    case stolen =>
      intro c f live isFrame
      rcases before c live with rfl | rfl | ⟨liveBefore, -, notRes⟩
      · rw [childFrame] at isFrame
        cases isFrame
      · rw [resFrame] at isFrame
        cases isFrame
        refine ⟨old, ?_⟩
        rw [k.steal_frames, if_pos rfl]
      · rw [frameOf c liveBefore notRes] at isFrame
        obtain ⟨isOld, stolen⟩ := framed.stolen c f liveBefore isFrame
        refine ⟨isOld, ?_⟩
        rw [k.steal_frames, stolen]
        exact ite_self true
    case injective =>
      have unique (d : ℕ) (liveBefore : (core.nodes d).Live) (notRes : d ≠ res)
          (isFrame : k.frameOf d = some g) : False := by
        have isCl := owner d liveBefore isFrame
        rw [isCl] at notRes isFrame
        exact (callee notRes).1 isFrame
      intro c d f live live' isFrame isFrame'
      rcases before c live with rfl | rfl | ⟨liveBefore, -, notRes⟩
      · rw [childFrame] at isFrame
        cases isFrame
      · rw [resFrame] at isFrame
        cases isFrame
        rcases before d live' with rfl | rfl | ⟨liveBefore, -, notRes⟩
        · rw [childFrame] at isFrame'
          cases isFrame'
        · rfl
        · rw [frameOf d liveBefore notRes] at isFrame'
          exact (unique d liveBefore notRes isFrame').elim
      · rw [frameOf c liveBefore notRes] at isFrame
        rcases before d live' with rfl | rfl | ⟨liveBefore', -, notRes'⟩
        · rw [childFrame] at isFrame'
          cases isFrame'
        · rw [resFrame] at isFrame'
          cases isFrame'
          exact (unique c liveBefore notRes isFrame).elim
        · rw [frameOf d liveBefore' notRes'] at isFrame'
          exact framed.injective c d f liveBefore liveBefore' isFrame isFrame'
    case last =>
      intro c f live isFrame isLast
      rw [k.steal_frames] at isLast
      rcases before c live with rfl | rfl | ⟨liveBefore, -, notRes⟩
      · rw [childFrame] at isFrame
        cases isFrame
      · rw [resFrame] at isFrame
        cases isFrame
        rcases divided.frame with isYoung | isOwn
        · have notLast := (accounted.stranded.fresh v g isYoung).2.notLast
          exact absurd (notLast.symm.trans isLast) Bool.noConfusion
        · by_cases same : cl = c
          · exact framed.last c g (same ▸ clLive) (same ▸ isOwn) isLast
          · exact absurd isOwn (callee same).1
      · rw [frameOf c liveBefore notRes] at isFrame
        exact framed.last c f liveBefore isFrame isLast
    case ready =>
      intro c isReady
      rcases before c (by simp [Node.Live, isReady]) with
        rfl | rfl | ⟨liveBefore, notChild, notRes⟩
      · rw [taken.childNode.1] at isReady
        cases isReady
      · rw [resFrame]
        exact Option.some_ne_none g
      · rw [frameOf c liveBefore notRes]
        by_cases isCl : c = cl
        · subst isCl
          rw [taken.suspended notRes] at isReady
          cases isReady
        · rw [(taken.kept c notChild notRes isCl).1] at isReady
          exact framed.ready c isReady
    case called =>
      have called (c p : ℕ) (live : (core.nodes c).Live)
          (isCaller : (core.nodes c).callParent = some p)
          (noPromotion : ∀ u, pc u ≠ .promoting p c)
          (kept : ∀ f, k.frameOf c = some f →
            (k.steal v g res child).frameOf c = some f) :
          ∃ f h, (k.steal v g res child).frameOf c = some f ∧
            (k.steal v g res child).frameOf p = some h ∧
            ((k.steal v g res child).frames f).detached = false ∧
            ((k.steal v g res child).frames f).callParent = some h := by
        obtain ⟨f, h, isFrame, isCallerFrame, attached, link⟩ :=
          framed.called c p live isCaller noPromotion
        have suspended := (accounted.placed.caller c p live isCaller).1
        have callerLive : (core.nodes p).Live := by
          simp [Node.Live, suspended]
        have notCl : p ≠ cl := by
          rintro rfl
          exact accounted.placed.not_carried suspended has
        refine ⟨f, h, kept f isFrame, ?_, ?_⟩
        · rwa [frameOf p callerLive ((notNew p callerLive).2 notCl)]
        · rw [k.steal_frames]
          exact ⟨attached, link⟩
      intro c p live isCaller noPromotion
      have noneBefore (u : ℕ) : pc u ≠ .promoting p c := fun isPromoting =>
        noPromotion u (notPromoting u p c isPromoting)
      rcases before c live with rfl | rfl | ⟨liveBefore, -, notRes⟩
      · rw [taken.childNode.2] at isCaller
        cases isCaller
      · by_cases same : cl = c
        · subst same
          rw [taken.callParent] at isCaller
          refine called cl p clLive isCaller noneBefore fun f isFrame => ?_
          rcases itself rfl with noFrame | isOwn
          · rw [noFrame] at isFrame
            cases isFrame
          · rwa [resFrame, ← isOwn]
        · rw [taken.resNode.2 same] at isCaller
          cases isCaller
          exact absurd pcThief (noPromotion w)
      · rw [callParent c liveBefore notRes] at isCaller
        refine called c p liveBefore isCaller noneBefore fun f isFrame => ?_
        rwa [frameOf c liveBefore notRes]
    case synched =>
      intro c live synched noPromotion
      rcases before c live with rfl | rfl | ⟨liveBefore, notChild, notRes⟩
      · exact isSettled
      · exact absurd pcThief (noPromotion w cl)
      · apply (keeps c liveBefore notRes).mp
        apply framed.synched c liveBefore
        · intro f isFrame
          have here := synched f ((frameOf c liveBefore notRes).trans isFrame)
          rwa [k.steal_frames] at here
        · exact fun u p isPromoting =>
            noPromotion u p (notPromoting u p c isPromoting)
    case parted =>
      intro c live settledThere f isFrame
      rcases before c live with rfl | rfl | ⟨liveBefore, -, notRes⟩
      · rw [childFrame] at isFrame
        cases isFrame
      · exact absurd settledThere notSettled
      · rw [frameOf c liveBefore notRes] at isFrame
        rw [k.steal_frames]
        exact framed.parted c liveBefore
          ((keeps c liveBefore notRes).mpr settledThere) f isFrame
    case returning =>
      intro c isReturning f isFrame
      rcases before c (by simp [Node.Live, isReturning]) with
        rfl | rfl | ⟨liveBefore, notChild, notRes⟩
      · rw [taken.childNode.1] at isReturning
        cases isReturning
      · rw [taken.resNode.1] at isReturning
        cases isReturning
      · rw [frameOf c liveBefore notRes] at isFrame
        rw [k.steal_frames]
        by_cases isCl : c = cl
        · subst isCl
          rw [taken.suspended notRes] at isReturning
          cases isReturning
        · rw [(taken.kept c notChild notRes isCl).1] at isReturning
          exact framed.returning c isReturning f isFrame

end Accounted

end Multicilk.Scheduler
