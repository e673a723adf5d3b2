import Multicilk.Scheduler.Fibers.Custody

/-!
# The fibers of a region

Fibers go from hand to hand while a region is executed, and none of them is lost
or used twice.
-/

namespace Multicilk.Scheduler

open Machine TransitionSystem Inventory

variable {M : Type*} [Monoid M] {m m' start source : Machine M} {action : Action}
  {trace : List (Machine M × Action)} {w v c first root given : ℕ}
  {young children : ℕ → List ℕ} {home : ℕ → ℕ} {items : List ℕ}

section Runs

omit [Monoid M] in
/-- At the start of a region the root closure has a fiber, and the others are in the
pools or have been unmapped. -/
theorem initial_held (initial : Initial start)
    (isFiber : start.sched.fibers.fiber start.sched.rootClosure = some given) :
    Held start given (given :: (start.sched.pool ++ start.sched.unmapped)) := by
  obtain ⟨sf, fiber, -, root, -, mapped, notPooled, notGone⟩ := initial.root
  obtain ⟨nodup, allMapped⟩ := initial.pooled
  have same : fiber = given := by simpa [State.fibers, root] using isFiber
  subst same
  obtain ⟨poolNodup, goneNodup, disjoint⟩ := List.nodup_append.mp nodup
  have live := initial_live initial
  have rootActive : (start.sched.core.nodes start.sched.rootClosure).Active := by
    simp [State.core, root, Closure.node, Node.Active]
  have current (c : ℕ) : start.sched.fibers.contents start.sched.core
      (.current c) = if c = start.sched.rootClosure then [fiber] else [] := by
    by_cases isRoot : c = start.sched.rootClosure
    · rw [if_pos isRoot, isRoot, Fibers.contents_current rootActive, isFiber,
        Option.toList_some]
    · rw [if_neg isRoot, Fibers.contents_idle]
      exact fun active => isRoot ((live c).mp active.live)
  have saved (c : ℕ) :
      start.sched.fibers.contents start.sched.core (.saved c) = [] := by
    by_cases isRoot : c = start.sched.rootClosure
    · simp [Fibers.contents, State.fibers, isRoot, root]
    · simp [Fibers.contents, State.fibers, initial.unused c isRoot]
  have toFree (w : ℕ) :
      start.sched.fibers.contents start.sched.core (.toFree w) = [] := by
    simp [Fibers.contents, State.fibers, initial.fiberToFree w]
  have isAt (place : Berth) (x : ℕ) :
      x ∈ start.sched.fibers.contents start.sched.core place ↔
        place = .current start.sched.rootClosure ∧ x = fiber ∨
        place = .pool ∧ x ∈ start.sched.pool ∨
        place = .unmapped ∧ x ∈ start.sched.unmapped := by
    cases place with
    | current c =>
        rw [current]
        split <;> simp [*]
    | saved c => simp [saved]
    | toFree w => simp [toFree]
    | pool | unmapped => simp [Fibers.contents, State.fibers]
  constructor
  case berthed =>
    constructor
    case parts =>
      constructor
      case nodup =>
        intro place
        cases place with
        | current c =>
            rw [current]
            split <;> simp
        | saved c => simp [saved]
        | toFree w => simp [toFree]
        | pool => exact poolNodup
        | unmapped => exact goneNodup
      case apart =>
        intro x place other found alsoFound
        rw [isAt] at found alsoFound
        grind
      case complete =>
        intro x
        simp only [isAt, List.mem_cons, List.mem_append]
        constructor
        · rintro (isX | pooled | gone)
          · exact ⟨_, .inl ⟨rfl, isX⟩⟩
          · exact ⟨_, .inr (.inl ⟨rfl, pooled⟩)⟩
          · exact ⟨_, .inr (.inr ⟨rfl, gone⟩)⟩
        · rintro ⟨place, isX | pooled | gone⟩
          · exact .inl isX.2
          · exact .inr (.inl pooled.2)
          · exact .inr (.inr gone.2)
    case mapped =>
      rw [List.forall_mem_cons]
      exact ⟨mapped, allMapped⟩
    case balanced =>
      intro x
      obtain ⟨noneTaken, noneReturned, -⟩ := initial.history
      have taken : start.sched.fibers.taken = [] := noneTaken
      have returned : start.sched.fibers.returned = [] := noneReturned
      have isOut : start.sched.fibers.Out
          (fiber :: (start.sched.pool ++ start.sched.unmapped)) x ↔ x = fiber := by
        simp only [Fibers.Out, State.fibers, List.mem_cons, List.mem_append]
        grind
      rw [taken, returned, if_congr isOut rfl rfl]
  case grounded => exact fun w _ => initial.fiberToFree w

/-- What is known of the fibers in a region and after it. -/
theorem run_held (initial : Initial start)
    (isFiber : start.sched.fibers.fiber start.sched.rootClosure = some given)
    (run : Run Step start trace m) :
    (∃ items, Held m given items) ∧
    ((∃ young children home, Regular m start.sched.created
        start.sched.rootClosure young children home ∧
        home start.sched.rootClosure = given) ∨
      Landed m start.sched.rootClosure given) := by
  apply @Run.invariant _ _ _ start m trace (fun m => (∃ items, Held m given items) ∧
    ((∃ young children home, Regular m start.sched.created
        start.sched.rootClosure young children home ∧
        home start.sched.rootClosure = given) ∨
      Landed m start.sched.rootClosure given)) run
  · refine ⟨⟨_, initial_held initial isFiber⟩, .inl ?_⟩
    obtain ⟨home, regular⟩ := initial_regular initial
    refine ⟨_, _, home, regular, ?_⟩
    obtain ⟨_, _, -, root, -⟩ := initial.root
    have atHome := regular.homed.settled start.sched.rootClosure
      ((initial_live initial _).mpr rfl) (by simp [State.core, root, Closure.node])
      (by simp [State.fibers, root])
    exact Option.some.inj (atHome.symm.trans isFiber)
  · rintro source action target ⟨⟨items, held⟩,
      ⟨young, children, home, regular, isHome⟩ | landed⟩ taken
    · refine ⟨regular.held held taken, ?_⟩
      by_cases isExit : ∃ w, action = .exit w
      · obtain ⟨w, rfl⟩ := isExit
        exact .inr (isHome ▸ regular.landed taken)
      · obtain ⟨young', children', home', regular', -, sameHome⟩ :=
          regular.step taken (not_exists.mp isExit)
        have isOld : start.sched.rootClosure < source.sched.created :=
          regular.logged.rootOld.trans_le regular.firstOld
        exact .inl ⟨young', children', home', regular',
          (sameHome _ isOld).trans isHome⟩
    · exact ⟨landed.held held taken, .inr (landed.step taken)⟩

theorem run_landed {before after : List (Machine M × Action)}
    (initial : Initial start)
    (isFiber : start.sched.fibers.fiber start.sched.rootClosure = some given)
    (run : Run Step start (before ++ (source, .exit w) :: after) m) :
    Landed m start.sched.rootClosure given := by
  obtain ⟨middle, earlier, rest⟩ := run.of_append
  obtain ⟨rfl, target, taken, later⟩ := rest.of_cons
  have landed : Landed target start.sched.rootClosure given := by
    rcases (run_held initial isFiber earlier).2 with
      ⟨young, children, home, regular, rfl⟩ | landed
    · exact regular.landed taken
    · exact landed.step taken
  exact @Run.invariant _ _ _ target m after
    (fun m => Landed m start.sched.rootClosure given) later landed
    fun _ _ _ landed taken => landed.step taken

omit [Monoid M] in
theorem initial_fiber (initial : Initial start) : ∃ given,
    start.sched.fibers.fiber start.sched.rootClosure = some given := by
  obtain ⟨sf, fiber, -, root, -⟩ := initial.root
  exact ⟨fiber, by simp [State.fibers, root]⟩

/-- A fiber that a closure names is with somebody that uses it. -/
theorem run_names (initial : Initial start) (run : Run Step start trace m) :
    (∀ c, (m.sched.core.nodes c).Active → m.sched.fibers.fiber c ≠ none) ∧
    ∀ c x, (m.sched.core.nodes c).Live →
      (m.sched.fibers.fiber c = some x ∨ m.sched.fibers.fiberChild c = some x) →
      m.sched.fibers.Holds m.sched.core x := by
  obtain ⟨given, isFiber⟩ := initial_fiber initial
  rcases (run_held initial isFiber run).2 with
    ⟨young, children, home, regular, -⟩ | landed
  · exact ⟨regular.homed.aboard, fun c x live => regular.names live⟩
  · constructor
    · intro c active
      rw [(landed.live c).mp active.live, landed.fiber]
      exact Option.some_ne_none given
    · rintro c x live (isNamed | isSaved)
      · refine ⟨c, .inl ?_⟩
        rw [(landed.live c).mp live] at isNamed ⊢
        rw [Fibers.contents_current landed.active, isNamed]
        exact List.mem_singleton_self x
      · rw [landed.fiberChild] at isSaved
        cases isSaved

end Runs

section Results

/-- A fiber that lies in a pool or has been unmapped is named by no closure and no
worker, and no two of the closures that run, are ready or return, of the saved
fibers and of the fibers to be freed are the same. -/
theorem fibers_owned (initial : Initial start) (run : Run Step start trace m) :
    (m.sched.pool ++ m.sched.unmapped).Nodup ∧
    (∀ x ∈ m.sched.pool ++ m.sched.unmapped,
      (∀ c, (m.sched.core.nodes c).Live → (m.sched.closures c).fiber ≠ some x ∧
        (m.sched.closures c).fiberChild ≠ some x) ∧
      ∀ w, (m.sched.workers w).fiberToFree ≠ some x) ∧
    (∀ c, (m.sched.core.nodes c).Active → (m.sched.closures c).fiber ≠ none) ∧
    (∀ c d x, (m.sched.core.nodes c).Active → (m.sched.core.nodes d).Active →
      (m.sched.closures c).fiber = some x → (m.sched.closures d).fiber = some x →
      c = d) ∧
    (∀ c d x, (m.sched.core.nodes c).Active →
      (m.sched.closures c).fiber = some x →
      (m.sched.closures d).fiberChild ≠ some x) ∧
    (∀ c d x, (m.sched.closures c).fiberChild = some x →
      (m.sched.closures d).fiberChild = some x → c = d) ∧
    (∀ c w x, (m.sched.core.nodes c).Live → ((m.sched.closures c).fiber = some x ∨
      (m.sched.closures c).fiberChild = some x) →
      (m.sched.workers w).fiberToFree ≠ some x) ∧
    ∀ v w x, (m.sched.workers v).fiberToFree = some x →
      (m.sched.workers w).fiberToFree = some x → v = w := by
  obtain ⟨given, isFiber⟩ := initial_fiber initial
  obtain ⟨⟨items, held⟩, -⟩ := run_held initial isFiber run
  obtain ⟨aboard, names⟩ := run_names initial run
  have parts := held.berthed.parts
  have isCurrent {c x : ℕ} (active : (m.sched.core.nodes c).Active)
      (isFiber : (m.sched.closures c).fiber = some x) :
      x ∈ m.sched.fibers.contents m.sched.core (.current c) := by
    have onFiber : m.sched.fibers.fiber c = some x := isFiber
    rw [Fibers.contents_current active, onFiber]
    exact List.mem_singleton_self x
  have isSaved {c x : ℕ} (isSaved : (m.sched.closures c).fiberChild = some x) :
      x ∈ m.sched.fibers.contents m.sched.core (.saved c) := by
    simp [Fibers.contents, State.fibers, isSaved]
  have isToFree {w x : ℕ} (isFree : (m.sched.workers w).fiberToFree = some x) :
      x ∈ m.sched.fibers.contents m.sched.core (.toFree w) := by
    simp [Fibers.contents, State.fibers, isFree]
  -- What a closure names is nowhere else but with closures.
  have elsewhere {c x : ℕ} (live : (m.sched.core.nodes c).Live)
      (named : (m.sched.closures c).fiber = some x ∨
        (m.sched.closures c).fiberChild = some x) (place : Berth)
      (member : x ∈ m.sched.fibers.contents m.sched.core place) :
      ∃ d, place = .current d ∨ place = .saved d := by
    obtain ⟨d, isHere | isHere⟩ := names c x live named
    · exact ⟨d, .inl (parts.apart x place (.current d) member isHere)⟩
    · exact ⟨d, .inr (parts.apart x place (.saved d) member isHere)⟩
  have notWith {c x : ℕ} (live : (m.sched.core.nodes c).Live)
      (named : (m.sched.closures c).fiber = some x ∨
        (m.sched.closures c).fiberChild = some x) {place : Berth}
      (notCurrent : ∀ d, place ≠ .current d) (notSaved : ∀ d, place ≠ .saved d)
      (member : x ∈ m.sched.fibers.contents m.sched.core place) : False := by
    obtain ⟨d, isHere | isHere⟩ := elsewhere live named place member
    · exact notCurrent d isHere
    · exact notSaved d isHere
  refine ⟨?_, ?_, aboard, ?_, ?_, ?_, ?_, ?_⟩
  · rw [List.nodup_append]
    refine ⟨parts.nodup .pool, parts.nodup .unmapped, ?_⟩
    rintro x pooled y gone rfl
    exact Berth.noConfusion (parts.apart x .pool .unmapped pooled gone)
  · intro x member
    obtain ⟨place, isPlace, isHere⟩ : ∃ place, (place = .pool ∨
        place = .unmapped) ∧
          x ∈ m.sched.fibers.contents m.sched.core place := by
      rcases List.mem_append.mp member with pooled | gone
      · exact ⟨.pool, .inl rfl, pooled⟩
      · exact ⟨.unmapped, .inr rfl, gone⟩
    have notCurrent (d : ℕ) : place ≠ .current d := by
      rcases isPlace with rfl | rfl <;> exact Berth.noConfusion
    have notSaved (d : ℕ) : place ≠ .saved d := by
      rcases isPlace with rfl | rfl <;> exact Berth.noConfusion
    refine ⟨fun c live => ⟨fun named => ?_, fun named => ?_⟩, fun w isFree => ?_⟩
    · exact notWith live (.inl named) notCurrent notSaved isHere
    · exact notWith live (.inr named) notCurrent notSaved isHere
    · have same := parts.apart x place (.toFree w) isHere (isToFree isFree)
      rcases isPlace with rfl | rfl <;> cases same
  · intro c d x active active' isFiber isFiber'
    have same := parts.apart x _ _ (isCurrent active isFiber)
      (isCurrent active' isFiber')
    exact Berth.current.inj same
  · intro c d x active isFiber saved
    exact Berth.noConfusion
      (parts.apart x _ _ (isCurrent active isFiber) (isSaved saved))
  · intro c d x saved saved'
    exact Berth.saved.inj (parts.apart x _ _ (isSaved saved) (isSaved saved'))
  · intro c w x live named isFree
    exact notWith live named (fun _ => Berth.noConfusion)
      (fun _ => Berth.noConfusion) (isToFree isFree)
  · intro v w x isFree isFree'
    exact Berth.toFree.inj
      (parts.apart x _ _ (isToFree isFree) (isToFree isFree'))

theorem fibers_owned_region_run : ∃ source : Machine (FreeMonoid ℕ),
    source.sched.taken = [1] ∧
    ∀ c d x, (source.sched.core.nodes c).Active →
      (source.sched.core.nodes d).Active → (source.sched.closures c).fiber = some x →
      (source.sched.closures d).fiber = some x → c = d := by
  obtain ⟨trace, source, m, run, left, -, -, taken, -⟩ := region_run
  exact ⟨source, taken, (fibers_owned regionStart_initial run).2.2.2.1⟩

/-- When a region is over and the workers are back in the scheduler, every fiber
that was taken from a pool has been given back as often, and the root closure is on
its original fiber. -/
theorem fibers_returned {before after : List (Machine M × Action)}
    (initial : Initial start)
    (run : Run Step start (before ++ (source, .exit w) :: after) m)
    (back : ∀ v, m.pc v ≠ .runtime) :
    m.sched.taken.Perm m.sched.returned ∧
    (m.sched.closures start.sched.rootClosure).fiber =
      (start.sched.closures start.sched.rootClosure).fiber ∧
    ∀ c, c ≠ start.sched.rootClosure → ¬ (m.sched.core.nodes c).Live := by
  obtain ⟨given, isFiber⟩ := initial_fiber initial
  obtain ⟨⟨items, held⟩, -⟩ := run_held initial isFiber run
  have landed := run_landed initial isFiber run
  have freed (v : ℕ) : m.sched.fibers.fiberToFree v = none := by
    apply held.grounded
    rcases (landed.ended.idle v).cases with isPc | isPc | isPc
    · exact absurd isPc (back v)
    · exact isPc ▸ trivial
    · exact isPc ▸ trivial
  have isRoot : given ∈ m.sched.fibers.contents m.sched.core
      (.current start.sched.rootClosure) := by
    rw [Fibers.contents_current landed.active, landed.fiber]
    exact List.mem_singleton_self given
  have isOut (x : ℕ) : m.sched.fibers.Out items x ↔ x = given := by
    have parts := held.berthed.parts
    constructor
    · rintro ⟨known, notPooled, notGone⟩
      obtain ⟨place, isHere⟩ := (parts.complete x).mp known
      cases place with
      | current c =>
          by_cases active : (m.sched.core.nodes c).Active
          · rw [(landed.live c).mp active.live,
              Fibers.contents_current landed.active, landed.fiber] at isHere
            exact List.mem_singleton.mp isHere
          · rw [Fibers.contents_idle active] at isHere
            cases isHere
      | saved c => simp [Fibers.contents, landed.fiberChild c] at isHere
      | toFree v => simp [Fibers.contents, freed v] at isHere
      | pool => exact absurd isHere notPooled
      | unmapped => exact absurd isHere notGone
    · rintro rfl
      exact ⟨(parts.complete x).mpr ⟨_, isRoot⟩,
        fun pooled => Berth.noConfusion (parts.apart x _ .pool isRoot pooled),
        fun gone => Berth.noConfusion (parts.apart x _ .unmapped isRoot gone)⟩
  refine ⟨?_, landed.fiber.trans isFiber.symm,
    fun c notRoot live => notRoot ((landed.live c).mp live)⟩
  rw [List.perm_iff_count]
  intro x
  have balanced := held.berthed.balanced x
  rw [if_congr (isOut x) rfl rfl] at balanced
  exact Nat.add_right_cancel balanced

/-- The fiber that the thief has taken is given back after the sync. -/
theorem fibers_returned_region_run : ∃ m : Machine (FreeMonoid ℕ),
    m.sched.taken = [1] ∧ m.sched.returned = [1] ∧
    (m.sched.closures 0).fiber = some 0 := by
  obtain ⟨trace, source, m, run, left, -, -, taken, others⟩ := region_run
  have isPc (v : ℕ) : m.pc v = if v = 1 then .runtime else source.pc v := by
    cases left
    exact Function.update_apply ..
  have sameTaken : m.sched.taken = source.sched.taken := by
    cases left
    rfl
  obtain ⟨final, isFinal⟩ : ∃ final, final =
    m.goto 1 .looking (freeFiber m.sched 1) := ⟨_, rfl⟩
  have freed : Step m (.freeFiber 1) final :=
    isFinal ▸ .freeFiber (by rw [isPc, if_pos rfl])
  have finalTaken : final.sched.taken = [1] := by
    rw [isFinal, ← taken, ← sameTaken, goto, freeFiber]
    split <;> rfl
  have whole : Run Step regionStart
      (trace ++ (source, .exit 1) :: [(m, .freeFiber 1)]) final := by
    simpa using (run.snoc left).snoc freed
  have back (v : ℕ) : final.pc v ≠ .runtime := by
    rw [isFinal]
    by_cases isHere : v = 1
    · rw [isHere]
      simp [goto]
    · refine (Function.update_of_ne isHere ..).trans_ne ?_
      rw [isPc, if_neg isHere]
      exact others v isHere
  obtain ⟨returned, sameFiber, -⟩ :=
    fibers_returned regionStart_initial whole back
  rw [finalTaken] at returned
  exact ⟨final, finalTaken, List.perm_singleton.mp returned.symm, sameFiber⟩

/-- Within a region a closure without outstanding children is on the same fiber,
whenever it has not been left for that of a thief: after every sync, when the frame
returns, and in between until it is stolen from again. -/
theorem fiber_restored {before after : List (Machine M × Action)}
    (initial : Initial start) (earlier : Run Step start before source)
    (later : Run Step source after m)
    (inside : ∀ entry ∈ before ++ after, ∀ w, entry.2 ≠ .exit w) :
    (∀ c, (source.sched.core.nodes c).Live → source.sched.Settled c →
      (m.sched.core.nodes c).Live → m.sched.Settled c →
      (m.sched.closures c).fiber ≠ none ∧
        (m.sched.closures c).fiber = (source.sched.closures c).fiber) ∧
    (∀ w target t, Step m (.sync w) target → m.sched.deques w = [t] →
      target.pc w = .user → target.sched.Settled t) ∧
    (∀ w target p, Step m (.finishReturn w) target → target.pc w = .holding p →
      target.sched.Settled p) ∧
    ∀ w target t, Step m (.setReturn w) target → m.sched.deques w = [t] →
      m.sched.Settled t ∧ ∃ caller, target.sched.deques w = [caller] ∧
        (m.sched.closures caller).fiber = (m.sched.closures t).fiber := by
  have insideBefore : ∀ entry ∈ before, ∀ w, entry.2 ≠ .exit w :=
    fun entry member => inside entry (List.mem_append_left after member)
  have insideAfter : ∀ entry ∈ after, ∀ w, entry.2 ≠ .exit w :=
    fun entry member => inside entry (List.mem_append_right before member)
  obtain ⟨startHome, started⟩ := initial_regular initial
  obtain ⟨_, _, home, regular, -⟩ := started.inside earlier insideBefore
  obtain ⟨_, _, home', regular', -, sameHome⟩ := regular.inside later insideAfter
  have accounted := regular'.accounted
  have placed := accounted.placed
  refine ⟨?_, ?_, ?_, ?_⟩
  · intro c live settled live' settled'
    have before := regular.homed.settled c live settled.1 settled.2
    have after := regular'.homed.settled c live' settled'.1 settled'.2
    rw [sameHome c (regular.accounted.placed.allocated live), ← before] at after
    have atHome : (source.sched.closures c).fiber = some (home c) := before
    have same : (m.sched.closures c).fiber = (source.sched.closures c).fiber :=
      after
    exact ⟨same.trans_ne (atHome ▸ Option.some_ne_none _), same⟩
  · intro w target t taken isDeque isUser
    cases taken with
    | @sync w sf bottomClosure s ready wasUser current unsynched bottom unlocked
        synced =>
        have same : t = bottomClosure := by
          simpa [dequePeekBottom, isDeque] using bottom
        subst same
        have fibers := fibers_cilkSync (placed.kin.real t) synced
        rcases cilkSync_cases (placed.kin.real t) synced with
          ⟨childless, rfl, core⟩ | ⟨-, rfl, -⟩
        · rw [if_pos rfl] at fibers
          refine ⟨?_, ?_⟩
          · rw [goto, core]
            exact bne_eq_false_iff_eq.mp (Bool.or_eq_false_iff.mp childless).2
          · rw [goto, fibers, Fibers.sync_fiberChild, if_pos rfl]
        · cases (Function.update_self ..).symm.trans isUser
  · intro w target p taken isHolding
    cases taken with
    | @finishReturn w child parent s res isReturning isParent unlocked unlocked'
        left right finished =>
        have real := placed.kin.real parent
        have different : child ≠ parent :=
          Nat.ne_of_gt (placed.kin.parent child parent isParent)
        have isNext : nextPc res = .holding p :=
          (Function.update_self ..).symm.trans isHolding
        rcases finishReturn_cases real different finished with
          ⟨childless, suspended, rfl, core⟩ | ⟨-, rfl, -⟩
        · cases isNext
          obtain ⟨-, fibers⟩ := (fibers_finishReturn real rfl
            finished).resolve_left fun nothing =>
              Option.some_ne_none _ nothing.1
          refine ⟨?_, ?_⟩
          · rw [goto, core, Core.setStatus_nodes]
            exact bne_eq_false_iff_eq.mp (Bool.or_eq_false_iff.mp childless).2
          · rw [goto, fibers, Fibers.sync_fiberChild, if_pos rfl]
        · cases isNext
  · intro w target t taken isDeque
    have whole := taken
    cases taken with
    | @setReturn w sf bottomClosure caller isUser current synched notLast attached
        stolen bottom isCaller =>
        have same : t = bottomClosure := by
          simpa [dequePeekBottom, isDeque] using bottom
        subst same
        have has := @mem_carried_of_bottom _ m.pc _ _ _ bottom
        have live := (placed.active has).live
        have settled := whole.setReturn_settled accounted bottom
        have onFiber := regular'.homed.called t caller live isCaller
        have atHome := regular'.homed.settled t live settled.1 settled.2
        have different : t ≠ caller := by
          rintro rfl
          exact placed.not_carried (placed.caller t t live isCaller).1 has
        have core : (cilkSetReturn (popFrame m.sched w sf) w t caller).core =
            m.sched.core.setReturn w t caller := by
          rw [core_cilkSetReturn different, core_popFrame]
        have coreDeque : m.sched.core.deques w = [t] := isDeque
        refine ⟨settled, caller, (congrFun (congrArg Core.deques core) w).trans ?_,
          onFiber.trans atHome.symm⟩
        simp [Core.setReturn, coreDeque]

/-- The root closure has been stolen from in between. -/
theorem fiber_restored_region_run : ∃ m : Machine (FreeMonoid ℕ),
    m.sched.taken = [1] ∧ (m.sched.closures 0).fiber = some 0 := by
  obtain ⟨trace, source, m, run, left, -, -, taken, -⟩ := region_run
  have inside := inside_of_exit regionStart_initial run left
  obtain ⟨home, started⟩ := initial_regular regionStart_initial
  obtain ⟨_, _, _, regular, -⟩ := started.inside run inside
  obtain ⟨-, settled, -⟩ : source.sched.deques 1 = [0] ∧
      source.sched.Settled 0 ∧ _ := by
    cases left with
    | exit isUser current synched isLast =>
        exact regular.root_settled isUser current synched isLast
  have live : (regionStart.sched.core.nodes 0).Live :=
    (initial_live regionStart_initial 0).mpr rfl
  have restored := (fiber_restored regionStart_initial .refl run inside).1 0
  exact ⟨source, taken, (restored live ⟨rfl, rfl⟩ regular.logged.rootLive
    settled).2⟩

end Results

end Multicilk.Scheduler
