import Multicilk.Scheduler.Promotion
import Multicilk.Support.Path

/-!
# The closures of a stolen stacklet

The frames of a stacklet form a path along `call_parent`.  The promotion gives
every frame a closure, and the links between the closures follow the path.
-/

namespace Multicilk.Scheduler

open LinkPath

variable {M : Type*}

section Pairs

variable {α β : Type*} {first second : α → β → Prop} {as : List α}
  {bs : List β}

theorem forall₂_imp_of_mem (paired : List.Forall₂ first as bs)
    (implies : ∀ a ∈ as, ∀ b, first a b → second a b) :
    List.Forall₂ second as bs := by
  induction paired with
  | nil => exact .nil
  | cons head _ induction =>
      rw [List.forall_mem_cons] at implies
      exact .cons (implies.1 _ head) (induction implies.2)

theorem exists_mem_of_forall₂ (paired : List.Forall₂ first as bs) :
    ∀ a ∈ as, ∃ b ∈ bs, first a b := by
  induction paired with
  | nil => simp
  | cons head _ induction =>
      rw [List.forall_mem_cons]
      constructor
      · exact ⟨_, List.mem_cons_self, head⟩
      · intro a member
        obtain ⟨b, found, related⟩ := induction a member
        exact ⟨b, List.mem_cons_of_mem _ found, related⟩

end Pairs

/-- The callee and the caller know each other. -/
def CalleeOf (s : State M) (callee caller : ℕ) : Prop :=
  (s.closures callee).callParent = some caller ∧
    (s.closures caller).callee = some callee ∧
    (s.closures caller).hasCilkCallee = true

/-- Only closures and frames differ. -/
structure SameElsewhere (s t : State M) : Prop where
  entered : t.entered = s.entered
  workers : t.workers = s.workers
  deques : t.deques = s.deques
  rootClosure : t.rootClosure = s.rootClosure
  pool : t.pool = s.pool
  mapped : t.mapped = s.mapped
  unmapped : t.unmapped = s.unmapped
  taken : t.taken = s.taken
  returned : t.returned = s.returned
  destroyed : t.destroyed = s.destroyed

theorem SameElsewhere.trans {s t u : State M} (first : SameElsewhere s t)
    (second : SameElsewhere t u) : SameElsewhere s u := by
  constructor
  case entered => exact second.entered.trans first.entered
  case workers => exact second.workers.trans first.workers
  case deques => exact second.deques.trans first.deques
  case rootClosure => exact second.rootClosure.trans first.rootClosure
  case pool => exact second.pool.trans first.pool
  case mapped => exact second.mapped.trans first.mapped
  case unmapped => exact second.unmapped.trans first.unmapped
  case taken => exact second.taken.trans first.taken
  case returned => exact second.returned.trans first.returned
  case destroyed => exact second.destroyed.trans first.destroyed

/-- The frames on the path from one frame to another. -/
abbrev FramePath (s : State M) : ℕ → List ℕ → ℕ → Prop :=
  Path fun frame => (s.frames frame).callParent

/-- The frame is promoted, and its closure is suspended. -/
def StackFrame.promoted (frame : StackFrame) : StackFrame :=
  { frame with stolen := true, worker := none }

/-- What the recursion over a path has made of a state: the closures of the
frames on the path, from the youngest one to the oldest one. -/
structure Ancestors (s t : State M) (oldest top : ℕ)
    (path : List ℕ) (closures : List ℕ) : Prop where
  head : (closures ++ [oldest]).head? = some top
  nodup : closures.Nodup
  fresh : ∀ c ∈ closures, s.created ≤ c ∧ c < t.created
  created : t.created = s.created + path.length
  frameOf : List.Forall₂ (fun c f => (t.closures c).frame = some f)
    closures path
  linked : (closures ++ [oldest]).IsChain (CalleeOf t)
  made : ∀ c ∈ closures, ∃ frame callParent callee hasCilkCallee,
    t.closures c = {
      status := .suspended, fiber := (s.closures oldest).fiber
      frame, callParent, callee, hasCilkCallee }
  called : ∀ c ∈ closures ++ [oldest], c ≠ top →
    (t.closures c).hasCilkCallee = true
  oldestKept : ∃ callee hasCilkCallee, t.closures oldest =
    { s.closures oldest with callee, hasCilkCallee }
  kept : ∀ c, c ∉ closures → c ≠ oldest → t.closures c = s.closures c
  frames : ∀ f, t.frames f =
    if f ∈ path then (s.frames f).promoted else s.frames f
  rest : SameElsewhere s t

section Recursion

variable {s t : State M} {oldest top : ℕ} {path : List ℕ}
  {closures : List ℕ} {frame base : ℕ}

theorem ancestors_nil (s : State M) (oldest : ℕ) :
    Ancestors s s oldest oldest [] [] := by
  constructor
  case oldestKept => exact ⟨_, _, rfl⟩
  case rest => constructor <;> rfl
  all_goals simp

/-- The recursion makes one more closure on its way back. -/
def addAncestor (s : State M) (callParent : ℕ) (frame : ℕ) :
    State M :=
  let currCl := s.created
  let s := closureCreate (setStolen s frame)
  let s := s.modifyClosure currCl ({ · with
    frame := some frame
    status := .suspended
    fiber := (s.closures callParent).fiber })
  let s := s.modifyFrame frame ({ · with worker := none })
  closureAddCallee s callParent currCl

theorem setupCallParentClosureHelper_succ (fuel : ℕ)
    (found : (s.closures oldest).frame ≠ some frame) :
    setupCallParentClosureHelper s oldest (fuel + 1) frame =
      (s.frames frame).callParent.bind fun parentFrame =>
        (setupCallParentClosureHelper s oldest fuel parentFrame).map
          fun (t, callParent) =>
            (addAncestor t callParent frame, t.created) := by
  rw [setupCallParentClosureHelper, if_neg found]
  rfl

theorem addAncestor_frames (t : State M) (callParent : ℕ)
    (frame other : ℕ) :
    (addAncestor t callParent frame).frames other =
      if other = frame then (t.frames other).promoted else t.frames other := by
  by_cases same : other = frame
  · subst same
    simp [addAncestor, closureAddCallee, State.modifyClosure,
      State.modifyFrame, closureCreate, setStolen, StackFrame.promoted]
  · simp [addAncestor, closureAddCallee, State.modifyClosure,
      State.modifyFrame, closureCreate, setStolen, same]

theorem addAncestor_closures {callParent : ℕ}
    (different : callParent ≠ t.created) (c : ℕ) : (addAncestor t callParent frame).closures c =
      if c = t.created then {
        status := .suspended, frame := some frame
        fiber := (t.closures callParent).fiber
        callParent := some callParent }
      else if c = callParent then
        { t.closures c with callee := some t.created, hasCilkCallee := true }
      else t.closures c := by
  by_cases isNew : c = t.created
  · subst isNew
    simp [addAncestor, closureAddCallee, State.modifyClosure_apply,
      State.modifyFrame, closureCreate, setStolen, different, different.symm]
  · by_cases isCaller : c = callParent
    · subst isCaller
      simp [addAncestor, closureAddCallee, State.modifyClosure_apply,
        State.modifyFrame, closureCreate, setStolen, isNew]
    · simp [addAncestor, closureAddCallee, State.modifyClosure_apply,
        State.modifyFrame, closureCreate, setStolen, isNew, isCaller]

theorem Ancestors.top_lt (ancestors : Ancestors s t oldest top path closures)
    (allocated : oldest < s.created) : top < t.created := by
  have member : top ∈ closures ++ [oldest] :=
    List.mem_of_mem_head? ancestors.head
  rcases List.mem_append.mp member with new | old
  · exact (ancestors.fresh top new).2
  · rw [List.mem_singleton] at old
    rw [old, ancestors.created]
    omega

theorem Ancestors.oldest_notMem
    (ancestors : Ancestors s t oldest top path closures)
    (allocated : oldest < s.created) : oldest ∉ closures := fun member =>
  absurd (ancestors.fresh oldest member).1 (by omega)

theorem Ancestors.nodup_append
    (ancestors : Ancestors s t oldest top path closures)
    (allocated : oldest < s.created) : (closures ++ [oldest]).Nodup :=
  ancestors.nodup.append (List.nodup_singleton oldest)
    (by simpa using ancestors.oldest_notMem allocated)

/-- The youngest closure calls none of the others. -/
theorem Ancestors.ne_top_of_mem_tail
    (ancestors : Ancestors s t oldest top path closures)
    (allocated : oldest < s.created) {c : ℕ}
    (member : c ∈ (closures ++ [oldest]).tail) : c ≠ top := by
  have nodup := ancestors.nodup_append allocated
  obtain ⟨rest, shape⟩ := List.head?_eq_some_iff.mp ancestors.head
  rw [shape] at nodup member
  rintro rfl
  exact (List.nodup_cons.mp nodup).1 member

theorem Ancestors.top_fiber (ancestors : Ancestors s t oldest top path closures) :
    (t.closures top).fiber = (s.closures oldest).fiber := by
  have member : top ∈ closures ++ [oldest] :=
    List.mem_of_mem_head? ancestors.head
  rcases List.mem_append.mp member with new | old
  · obtain ⟨_, _, _, _, made⟩ := ancestors.made top new
    rw [made]
  · rw [List.mem_singleton] at old
    obtain ⟨_, _, kept⟩ := ancestors.oldestKept
    rw [old, kept]

/-- The new closure is the callee of the one that was the youngest. -/
theorem Ancestors.add (ancestors : Ancestors s t oldest top path closures)
    (allocated : oldest < s.created) :
    Ancestors s (addAncestor t top frame) oldest t.created (frame :: path)
      (t.created :: closures) := by
  have topOld : top < t.created := ancestors.top_lt allocated
  have closuresOf := @addAncestor_closures M t frame top topOld.ne
  have oldestOld : oldest < t.created := by
    have created := ancestors.created
    omega
  have notNew : ∀ c ∈ closures ++ [oldest], c ≠ t.created := by
    intro c member
    rcases List.mem_append.mp member with new | old
    · exact (ancestors.fresh c new).2.ne
    · rw [List.mem_singleton.mp old]
      exact oldestOld.ne
  constructor
  case head => simp
  case nodup =>
    refine List.nodup_cons.mpr ⟨fun member => ?_, ancestors.nodup⟩
    exact absurd (ancestors.fresh _ member).2 (lt_irrefl _)
  case fresh =>
    intro c member
    have created := ancestors.created
    change s.created ≤ c ∧ c < t.created + 1
    rcases List.mem_cons.mp member with rfl | old
    · omega
    · have bounds := ancestors.fresh c old
      omega
  case created =>
    have created := ancestors.created
    change t.created + 1 = s.created + (path.length + 1)
    omega
  case frameOf =>
    refine .cons ?_ ?_
    · rw [closuresOf, if_pos rfl]
    · refine forall₂_imp_of_mem ancestors.frameOf ?_
      intro c member f frameOf
      rw [closuresOf, if_neg (notNew c (List.mem_append_left _ member))]
      split <;> simpa using frameOf
  case linked =>
    obtain ⟨rest, shape⟩ := List.head?_eq_some_iff.mp ancestors.head
    rw [List.cons_append, shape, List.isChain_cons_cons, ← shape]
    constructor
    · simp [CalleeOf, closuresOf, topOld.ne]
    · refine ancestors.linked.imp_of_mem_tail_imp ?_
      rintro c caller member callerMember ⟨callParent, callee, hasCallee⟩
      have callerNotNew :=
        notNew caller (List.mem_of_mem_tail callerMember)
      -- Only the youngest closure so far is changed, and that is no caller yet.
      have callerNotTop :=
        ancestors.ne_top_of_mem_tail allocated callerMember
      have sameCaller : (addAncestor t top frame).closures caller =
          t.closures caller := by
        rw [closuresOf, if_neg callerNotNew, if_neg callerNotTop]
      refine ⟨?_, sameCaller ▸ callee, sameCaller ▸ hasCallee⟩
      rw [closuresOf, if_neg (notNew c member)]
      split <;> simpa using callParent
  case made =>
    intro c member
    rcases List.mem_cons.mp member with rfl | old
    · refine ⟨some frame, some top, none, false, ?_⟩
      rw [closuresOf, if_pos rfl, ancestors.top_fiber]
    · obtain ⟨_, _, _, _, made⟩ := ancestors.made c old
      rw [closuresOf, if_neg (notNew c (List.mem_append_left _ old))]
      split
      · rw [made]
        exact ⟨_, _, _, _, rfl⟩
      · exact ⟨_, _, _, _, made⟩
  case called =>
    intro c member notNewest
    rw [List.cons_append, List.mem_cons] at member
    have old := member.resolve_left notNewest
    rw [closuresOf, if_neg notNewest]
    split
    · rfl
    · exact ancestors.called c old ‹_›
  case oldestKept =>
    obtain ⟨_, _, kept⟩ := ancestors.oldestKept
    rw [closuresOf, if_neg oldestOld.ne]
    split
    · rw [kept]
      exact ⟨_, _, rfl⟩
    · exact ⟨_, _, kept⟩
  case kept =>
    intro c absent notOldest
    rw [List.mem_cons, not_or] at absent
    have notTop : c ≠ top := by
      rintro rfl
      have member : c ∈ closures ++ [oldest] :=
        List.mem_of_mem_head? ancestors.head
      rcases List.mem_append.mp member with new | old
      · exact absent.2 new
      · exact notOldest (List.mem_singleton.mp old)
    rw [closuresOf, if_neg absent.1, if_neg notTop,
      ancestors.kept c absent.2 notOldest]
  case frames =>
    intro f
    rw [addAncestor_frames, ancestors.frames]
    by_cases same : f = frame
    · subst same
      by_cases member : f ∈ path <;> simp [member, StackFrame.promoted]
    · simp [same]
  case rest =>
    apply ancestors.rest.trans
    constructor <;> rfl

/-- Where the recursion comes to an end, it has followed a path to the frame of
the oldest closure. -/
theorem setupCallParentClosureHelper_path {fuel : ℕ}
    (made : setupCallParentClosureHelper s oldest fuel frame = some (t, top))
    (found : (s.closures oldest).frame = some base)
    (allocated : oldest < s.created) :
    ∃ path closures, FramePath s frame path base ∧ base ∉ path ∧
      Ancestors s t oldest top path closures := by
  induction fuel generalizing frame t top with
  | zero => simp [setupCallParentClosureHelper] at made
  | succ fuel induction =>
      by_cases isBase : frame = base
      · subst isBase
        simp only [setupCallParentClosureHelper, found, if_true,
          Option.some.injEq, Prod.mk.injEq] at made
        obtain ⟨rfl, rfl⟩ := made
        exact ⟨[], [], .nil frame, by simp, ancestors_nil s oldest⟩
      · have notBase : (s.closures oldest).frame ≠ some frame := by
          rw [found]
          exact fun same => isBase (Option.some.inj same).symm
        rw [setupCallParentClosureHelper_succ fuel notBase] at made
        obtain ⟨parentFrame, link, made⟩ := Option.bind_eq_some_iff.mp made
        obtain ⟨⟨earlier, callParent⟩, older, same⟩ :=
          Option.map_eq_some_iff.mp made
        obtain ⟨path, closures, links, absent, ancestors⟩ := induction older
        cases same
        refine ⟨frame :: path, earlier.created :: closures,
          .cons link links, ?_, ancestors.add allocated⟩
        rw [List.mem_cons, not_or]
        exact ⟨Ne.symm isBase, absent⟩

/-- Enough fuel brings the recursion to the frame of the oldest closure. -/
theorem setupCallParentClosureHelper_isSome
    (found : (s.closures oldest).frame = some base)
    (links : FramePath s frame path base) {fuel : ℕ}
    (enough : path.length < fuel) :
    (setupCallParentClosureHelper s oldest fuel frame).isSome := by
  induction links generalizing fuel with
  | nil =>
      obtain ⟨fuel, rfl⟩ := Nat.exists_eq_add_of_lt enough
      simp [setupCallParentClosureHelper, found]
  | @cons frame parentFrame base rest link _ induction =>
      cases fuel with
      | zero => simp at enough
      | succ fuel =>
          rw [List.length_cons, Nat.add_lt_add_iff_right] at enough
          by_cases isBase : (s.closures oldest).frame = some frame
          · simp [setupCallParentClosureHelper, isBase]
          · simp [setupCallParentClosureHelper_succ fuel isBase, link,
              induction found enough]

end Recursion

section Oldest

variable {s t : State M} {cl oldest base : ℕ}

/-- The frame that the oldest closure has in the end. -/
def baseFrame (s : State M) (cl oldest : ℕ) : ℕ :=
  (s.closures cl).frame.getD oldest

theorem promoteOldest_closures (s : State M) (cl oldest c : ℕ) :
    (promoteOldest s cl oldest).closures c =
      if c = cl then
        { s.closures cl with frame := some (baseFrame s cl oldest) }
      else s.closures c := by
  cases found : (s.closures cl).frame with
  | none =>
      simp only [promoteOldest, found, if_true, baseFrame, Option.getD_none,
        State.modifyFrameOf, State.modifyFrame,
        State.modifyClosure, setStolen, Function.update_apply]
  | some frame =>
      simp only [promoteOldest, found, baseFrame, Option.getD_some,
        State.modifyFrameOf, State.modifyFrame, reduceCtorEq, if_false]
      by_cases same : c = cl
      · subst same
        rw [if_pos rfl, ← found]
      · rw [if_neg same]

theorem promoteOldest_frames
    (stolen : ∀ frame, (s.closures cl).frame = some frame →
      (s.frames frame).stolen = true) (f : ℕ) :
    (promoteOldest s cl oldest).frames f =
      if f = baseFrame s cl oldest then (s.frames f).promoted
      else s.frames f := by
  cases found : (s.closures cl).frame with
  | none =>
      simp only [promoteOldest, found, if_true, baseFrame, Option.getD_none,
        State.modifyFrameOf, State.modifyFrame, State.modifyClosure,
        setStolen, Function.update_apply, StackFrame.promoted]
      grind
  | some frame =>
      have isStolen := stolen frame found
      simp only [promoteOldest, found, baseFrame, Option.getD_some,
        State.modifyFrameOf, State.modifyFrame, reduceCtorEq, if_false,
        Function.update_apply, StackFrame.promoted]
      grind

theorem promoteOldest_created (s : State M) (cl oldest : ℕ) :
    (promoteOldest s cl oldest).created = s.created := by
  cases found : (s.closures cl).frame <;>
    simp [promoteOldest, found, State.modifyFrameOf, State.modifyFrame,
      State.modifyClosure, setStolen]

theorem promoteOldest_rest (s : State M) (cl oldest : ℕ) :
    SameElsewhere s (promoteOldest s cl oldest) := by
  cases found : (s.closures cl).frame <;> constructor <;>
    simp [promoteOldest, found, State.modifyFrameOf, State.modifyFrame,
      State.modifyClosure, setStolen]

/-- The recursion leaves the older closures alone, but for the oldest one of the
stacklet. -/
structure StackletPromoted (s t : State M) (cl youngestCl oldest : ℕ)
    (path closures : List ℕ) : Prop where
  nodup : closures.Nodup
  fresh : ∀ c ∈ closures, s.created ≤ c ∧ c < t.created
  created : t.created = s.created + path.length
  frameOf : List.Forall₂ (fun c f => (t.closures c).frame = some f)
    closures path
  linked : (youngestCl :: (closures ++ [cl])).IsChain (CalleeOf t)
  made : ∀ c ∈ closures, ∃ frame callParent callee,
    t.closures c = {
      status := .suspended, fiber := (s.closures cl).fiber
      hasCilkCallee := true, frame, callParent, callee }
  older : ∃ callee, t.closures cl = { s.closures cl with
    frame := some (baseFrame s cl oldest), callee, hasCilkCallee := true }
  younger : ∃ callParent, t.closures youngestCl =
    { s.closures youngestCl with callParent := some callParent }
  kept : ∀ c, c ∉ closures → c ≠ cl → c ≠ youngestCl →
    t.closures c = s.closures c
  frames : ∀ f, t.frames f =
    if f ∈ path then ((promoteOldest s cl oldest).frames f).promoted
    else (promoteOldest s cl oldest).frames f
  rest : SameElsewhere s t

theorem closureAddCallee_closures {caller callee : ℕ}
    (different : callee ≠ caller) (c : ℕ) :
    (closureAddCallee s caller callee).closures c =
      if c = callee then
        { s.closures c with callParent := some caller }
      else if c = caller then
        { s.closures c with callee := some callee, hasCilkCallee := true }
      else s.closures c := by
  simp only [closureAddCallee, State.modifyClosure_apply]
  grind

theorem Ancestors.promoted {top youngestCl : ℕ} {path closures : List ℕ}
    (ancestors : Ancestors (promoteOldest s cl oldest) t cl top path closures)
    (allocated : cl < s.created) (youngestAllocated : youngestCl < s.created)
    (different : youngestCl ≠ cl) :
    StackletPromoted s (closureAddCallee t top youngestCl) cl youngestCl oldest
      path closures := by
  have created := promoteOldest_created s cl oldest
  have notYoungest : ∀ c ∈ closures ++ [cl], c ≠ youngestCl := by
    rintro c member rfl
    rcases List.mem_append.mp member with new | old
    · have bounds := ancestors.fresh c new
      omega
    · exact different (List.mem_singleton.mp old)
  have topMember : top ∈ closures ++ [cl] :=
    List.mem_of_mem_head? ancestors.head
  have topDifferent : youngestCl ≠ top := (notYoungest top topMember).symm
  have closuresOf := @closureAddCallee_closures M t top youngestCl topDifferent
  have before := promoteOldest_closures s cl oldest
  have youngestKept : t.closures youngestCl = s.closures youngestCl := by
    rw [ancestors.kept youngestCl ?_ different, before, if_neg different]
    exact fun member =>
      notYoungest _ (List.mem_append_left _ member) rfl
  have hasCallee (c : ℕ) (member : c ∈ closures ++ [cl]) :
      ((closureAddCallee t top youngestCl).closures c).hasCilkCallee =
        true := by
    rw [closuresOf, if_neg (notYoungest c member)]
    split
    · rfl
    · exact ancestors.called c member ‹_›
  constructor
  case nodup => exact ancestors.nodup
  case fresh =>
    intro c member
    exact created ▸ ancestors.fresh c member
  case created => exact created ▸ ancestors.created
  case frameOf =>
    refine forall₂_imp_of_mem ancestors.frameOf ?_
    intro c member f frameOf
    rw [closuresOf,
      if_neg (notYoungest c (List.mem_append_left _ member))]
    split <;> simpa using frameOf
  case linked =>
    obtain ⟨others, shape⟩ := List.head?_eq_some_iff.mp ancestors.head
    rw [shape, List.isChain_cons_cons, ← shape]
    constructor
    · simp [CalleeOf, closuresOf, topDifferent.symm]
    · refine ancestors.linked.imp_of_mem_tail_imp ?_
      rintro c caller member callerMember ⟨callParent, callee, has⟩
      have callerDifferent :=
        notYoungest caller (List.mem_of_mem_tail callerMember)
      have callerNotTop := ancestors.ne_top_of_mem_tail
        (created.symm ▸ allocated) callerMember
      have sameCaller : (closureAddCallee t top youngestCl).closures caller =
          t.closures caller := by
        rw [closuresOf, if_neg callerDifferent, if_neg callerNotTop]
      refine ⟨?_, sameCaller ▸ callee, sameCaller ▸ has⟩
      rw [closuresOf, if_neg (notYoungest c member)]
      split <;> simpa using callParent
  case made =>
    intro c member
    have has := hasCallee c (List.mem_append_left _ member)
    obtain ⟨frame, callParent, _, _, made⟩ := ancestors.made c member
    rw [closuresOf,
      if_neg (notYoungest c (List.mem_append_left _ member)), made,
      before, if_pos rfl] at has ⊢
    split
    · exact ⟨frame, callParent, some youngestCl, rfl⟩
    · rw [if_neg ‹_›] at has
      dsimp only at has
      subst has
      exact ⟨frame, callParent, _, rfl⟩
  case older =>
    have has := hasCallee cl (List.mem_append_right _ (by simp))
    obtain ⟨callee, _, kept⟩ := ancestors.oldestKept
    rw [closuresOf, if_neg different.symm, kept, before, if_pos rfl]
      at has ⊢
    split
    · exact ⟨some youngestCl, rfl⟩
    · rw [if_neg ‹_›] at has
      dsimp only at has
      subst has
      exact ⟨callee, rfl⟩
  case younger =>
    rw [closuresOf, if_pos rfl, youngestKept]
    exact ⟨_, rfl⟩
  case kept =>
    intro c absent notOldest notYoungest
    have notTop : c ≠ top := by
      rintro rfl
      rcases List.mem_append.mp topMember with new | old
      · exact absent new
      · exact notOldest (List.mem_singleton.mp old)
    rw [closuresOf, if_neg notYoungest, if_neg notTop,
      ancestors.kept c absent notOldest, before, if_neg notOldest]
  case frames => exact ancestors.frames
  case rest =>
    apply ((promoteOldest_rest s cl oldest).trans ancestors.rest).trans
    constructor <;> rfl

end Oldest

section Stacklet

variable {s t : State M} {cl youngestCl youngest oldest base next : ℕ}
  {path : List ℕ} {fuel : ℕ}

/-- The loop stops at a detached frame, or below a stolen one. -/
theorem oldestNonStolenFrameInStacklet_of_path
    (links : FramePath s youngest (youngest :: path) base)
    (undetached : ∀ f ∈ youngest :: path, (s.frames f).detached = false)
    (notStolen : ∀ f ∈ path, (s.frames f).stolen = false)
    (enough : path.length + 1 < fuel) :
    ((s.frames base).stolen = true →
      (oldestNonStolenFrameInStacklet s fuel youngest).isSome) ∧
    ((s.frames base).stolen = false → (s.frames base).detached = true →
      oldestNonStolenFrameInStacklet s fuel youngest = some base) := by
  induction path generalizing youngest fuel with
  | nil =>
      have link : (s.frames youngest).callParent = some base := by
        simpa using links
      rw [List.length_nil, Nat.zero_add] at enough
      obtain ⟨fuel, rfl⟩ : ∃ rest, fuel = rest + 2 :=
        Nat.exists_eq_add_of_le' enough
      have attached := undetached youngest List.mem_cons_self
      constructor
      · intro stolen
        simp [oldestNonStolenFrameInStacklet, attached, link, stolen]
      · intro notStolen detached
        simp [oldestNonStolenFrameInStacklet, attached, link, notStolen,
          detached]
  | cons second path induction =>
      obtain ⟨-, middle, link, later⟩ := path_cons.mp links
      obtain ⟨rfl, -⟩ := path_cons.mp later
      cases fuel with
      | zero => simp at enough
      | succ fuel =>
          rw [List.length_cons, Nat.add_lt_add_iff_right] at enough
          have attached := undetached youngest List.mem_cons_self
          have fresh := notStolen middle List.mem_cons_self
          have followed : oldestNonStolenFrameInStacklet s (fuel + 1)
              youngest = oldestNonStolenFrameInStacklet s fuel middle := by
            rw [oldestNonStolenFrameInStacklet]
            simp [attached, link, fresh]
          rw [followed]
          exact induction later
            (fun f member => undetached f (List.mem_cons_of_mem _ member))
            (fun f member => notStolen f (List.mem_cons_of_mem _ member))
            enough

theorem promoteOldest_callParent (s : State M) (cl oldest f : ℕ) :
    ((promoteOldest s cl oldest).frames f).callParent =
      (s.frames f).callParent := by
  cases found : (s.closures cl).frame <;>
    simp only [promoteOldest, found, if_true, reduceCtorEq, if_false,
      State.modifyFrameOf, State.modifyFrame, State.modifyClosure, setStolen,
      Function.update_apply] <;> grind

/-- What a successful run of `setup_closures_in_stacklet` has done. -/
theorem setupClosuresInStacklet_path
    (made : setupClosuresInStacklet s fuel youngestCl = some t)
    (caller : (s.closures youngestCl).callParent = some cl)
    (allocated : cl < s.created) (youngestAllocated : youngestCl < s.created)
    (different : youngestCl ≠ cl) :
    ∃ youngest oldest next path closures,
      (s.closures youngestCl).frame = some youngest ∧
      oldestNonStolenFrameInStacklet s fuel youngest = some oldest ∧
      (s.frames youngest).callParent = some next ∧
      FramePath s next path (baseFrame s cl oldest) ∧
      baseFrame s cl oldest ∉ path ∧
      StackletPromoted s t cl youngestCl oldest path closures := by
  rw [setupClosuresInStacklet, caller, Option.bind_some] at made
  obtain ⟨youngest, frame, made⟩ := Option.bind_eq_some_iff.mp made
  obtain ⟨oldest, found, made⟩ := Option.bind_eq_some_iff.mp made
  obtain ⟨next, link, made⟩ := Option.bind_eq_some_iff.mp made
  obtain ⟨⟨older, callParent⟩, helped, same⟩ :=
    Option.map_eq_some_iff.mp made
  have base : ((promoteOldest s cl oldest).closures cl).frame =
      some (baseFrame s cl oldest) := by
    rw [promoteOldest_closures, if_pos rfl]
  obtain ⟨path, closures, links, absent, ancestors⟩ :=
    setupCallParentClosureHelper_path helped base
      ((promoteOldest_created s cl oldest).symm ▸ allocated)
  cases same
  refine ⟨youngest, oldest, next, path, closures, frame, found, link, ?_,
    absent, ancestors.promoted allocated youngestAllocated different⟩
  exact links.congr fun f _ => (promoteOldest_callParent s cl oldest f).symm

theorem setupClosuresInStacklet_isSome
    (caller : (s.closures youngestCl).callParent = some cl)
    (frame : (s.closures youngestCl).frame = some youngest)
    (found : oldestNonStolenFrameInStacklet s fuel youngest = some oldest)
    (link : (s.frames youngest).callParent = some next)
    (links : FramePath s next path (baseFrame s cl oldest))
    (enough : path.length < fuel) :
    (setupClosuresInStacklet s fuel youngestCl).isSome := by
  have base : ((promoteOldest s cl oldest).closures cl).frame =
      some (baseFrame s cl oldest) := by
    rw [promoteOldest_closures, if_pos rfl]
  have helped := setupCallParentClosureHelper_isSome base
    (links.congr fun f _ => promoteOldest_callParent s cl oldest f) enough
  simp [setupClosuresInStacklet, caller, frame, found, link, helped]

end Stacklet

end Multicilk.Scheduler
