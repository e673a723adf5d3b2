import Multicilk.Scheduler.Frames.Stacks

/-!
# The frames of a worker

A worker that runs is in the frame of its closure, and in younger frames that
nobody has stolen.  The entries of its shadow stack are the spawners among these
frames.
-/

namespace Multicilk.Scheduler

variable {k made : Stacks} {stack : Stack} {young : List ℕ} {own : Option ℕ}
  {w f g : ℕ} {frames : List ℕ}

section Entries

/-- The entries of a shadow stack, from the oldest one. -/
def Stack.entries (stack : Stack) : List ℕ :=
  (List.range' stack.head (stack.tail - stack.head)).map stack.shadowStack

theorem Stack.entries_eq_nil : stack.entries = [] ↔ stack.tail ≤ stack.head := by
  simp [Stack.entries, Nat.sub_eq_zero_iff_le]

theorem Stack.entries_push (bounded : stack.head ≤ stack.tail) (parent : ℕ) :
    Stack.entries { stack with
      shadowStack := Function.update stack.shadowStack stack.tail parent
      tail := stack.tail + 1 } = stack.entries ++ [parent] := by
  have count : stack.tail + 1 - stack.head =
      stack.tail - stack.head + 1 := by omega
  have last : stack.head + 1 * (stack.tail - stack.head) = stack.tail := by
    omega
  rw [Stack.entries, Stack.entries, count, List.range'_concat, List.map_append,
    last]
  congr 1
  · apply List.map_congr_left
    intro index member
    rw [List.mem_range'_1] at member
    have before : index ≠ stack.tail := by
      change stack.head ≤ index ∧
        index < stack.head + (stack.tail - stack.head) at member
      omega
    exact Function.update_of_ne before ..
  · simp

theorem Stack.entries_pop : Stack.entries { stack with
    tail := stack.tail - 1 } = stack.entries.dropLast := by
  by_cases isEmpty : stack.tail ≤ stack.head
  · rw [Stack.entries_eq_nil.mpr isEmpty, Stack.entries_eq_nil.mpr (by
      simp only
      omega)]
    rfl
  · have count : stack.tail - stack.head =
        stack.tail - 1 - stack.head + 1 := by omega
    rw [Stack.entries, Stack.entries, count, List.range'_concat,
      List.map_append, List.map_singleton, List.dropLast_concat]

theorem Stack.entries_steal (exc : ℕ) : Stack.entries { stack with
    head := stack.head + 1, exc := exc } = stack.entries.tail := by
  simp only [Stack.entries, Nat.sub_add_eq]
  cases stack.tail - stack.head with
  | zero => rfl
  | succ count => simp [List.range'_succ]

theorem Stack.entries_head? (nonempty : stack.head < stack.tail) :
    stack.entries.head? = some (stack.shadowStack stack.head) := by
  obtain ⟨count, isCount⟩ : ∃ count, stack.tail - stack.head = count + 1 :=
    ⟨stack.tail - stack.head - 1, by omega⟩
  rw [Stack.entries, isCount, List.range'_succ]
  rfl

end Entries

section Chains

/-- The last one of linked items need not be linked to anything. -/
theorem isChain_imp_dropLast {linked next : ℕ → ℕ → Prop} {items : List ℕ}
    (chain : items.IsChain linked)
    (implies : ∀ f ∈ items.dropLast, ∀ g, linked f g → next f g) :
    items.IsChain next := by
  induction items with
  | nil => exact .nil
  | cons f items induction =>
      cases items with
      | nil => exact List.isChain_singleton f
      | cons g rest =>
          rw [List.dropLast_cons_cons, List.forall_mem_cons] at implies
          rw [List.isChain_cons_cons] at chain ⊢
          exact ⟨implies.1 g chain.1, induction chain.2 implies.2⟩

theorem isChain_congr_dropLast {next other : ℕ → Option ℕ} {items : List ℕ}
    (chain : items.IsChain fun f g => next f = some g)
    (same : ∀ f ∈ items.dropLast, other f = next f) :
    items.IsChain fun f g => other f = some g :=
  isChain_imp_dropLast chain fun f member _ link => (same f member).trans link

end Chains

section Spawners

/-- The frames from which the others have been detached. -/
def Stacks.spawners (k : Stacks) : List ℕ → List ℕ
  | f :: g :: rest =>
    if (k.frames f).detached then g :: k.spawners (g :: rest)
    else k.spawners (g :: rest)
  | _ => []

theorem Stacks.spawners_attached (attached : (k.frames f).detached = false) :
    k.spawners (f :: frames) = k.spawners frames := by
  cases frames with
  | nil => rfl
  | cons g rest => simp [Stacks.spawners, attached]

theorem Stacks.spawners_detached (detached : (k.frames f).detached = true)
    (parent : frames.head? = some g) :
    k.spawners (f :: frames) = g :: k.spawners frames := by
  cases frames with
  | nil => cases parent
  | cons first rest =>
      cases parent
      simp [Stacks.spawners, detached]

theorem Stacks.spawners_congr
    (same : ∀ f ∈ frames.dropLast,
      (made.frames f).detached = (k.frames f).detached) :
    made.spawners frames = k.spawners frames := by
  induction frames with
  | nil => rfl
  | cons f frames induction =>
      cases frames with
      | nil => rfl
      | cons g rest =>
          rw [List.dropLast_cons_cons, List.forall_mem_cons] at same
          rw [Stacks.spawners, Stacks.spawners, same.1, induction same.2]

theorem Stacks.attached_of_spawners_nil (nobody : k.spawners frames = []) :
    ∀ f ∈ frames.dropLast, (k.frames f).detached = false := by
  induction frames with
  | nil => simp
  | cons f frames induction =>
      cases frames with
      | nil => simp
      | cons g rest =>
          rw [Stacks.spawners] at nobody
          split at nobody
          case isTrue => cases nobody
          case isFalse attached =>
            rw [List.dropLast_cons_cons, List.forall_mem_cons]
            exact ⟨by simpa using attached, induction nobody⟩

/-- The oldest spawner, and the frames on both sides of it. -/
theorem Stacks.spawners_oldest (oldest : (k.spawners frames).getLast? = some g) :
    ∃ younger child rest, frames = younger ++ child :: g :: rest ∧
      (k.frames child).detached = true ∧ k.spawners (g :: rest) = [] ∧
      k.spawners frames = k.spawners (younger ++ [child]) ++ [g] := by
  induction frames with
  | nil => cases oldest
  | cons f frames induction =>
      cases frames with
      | nil => cases oldest
      | cons second rest =>
          by_cases nobody : k.spawners (second :: rest) = []
          · rw [Stacks.spawners, nobody] at oldest
            split at oldest
            case isFalse => cases oldest
            case isTrue detached =>
              cases oldest
              refine ⟨[], f, rest, rfl, detached, nobody, ?_⟩
              rw [k.spawners_detached detached rfl, nobody]
              rfl
          · have older : (k.spawners (second :: rest)).getLast? = some g := by
              rw [Stacks.spawners] at oldest
              split at oldest
              · rwa [List.getLast?_cons_of_ne_nil nobody] at oldest
              · exact oldest
            obtain ⟨younger, child, later, shape, detached, none, split⟩ :=
              induction older
            refine ⟨f :: younger, child, later, by rw [shape]; rfl, detached,
              none, ?_⟩
            have second : (younger ++ [child]).head? = some second := by
              have head := congrArg List.head? shape
              cases younger with
              | nil => exact head.symm
              | cons first younger => exact head.symm
            by_cases isDetached : (k.frames f).detached = true
            · rw [k.spawners_detached isDetached rfl, split, List.cons_append,
                k.spawners_detached isDetached second, List.cons_append]
            · rw [Bool.not_eq_true] at isDetached
              rw [k.spawners_attached isDetached, split, List.cons_append,
                k.spawners_attached isDetached]

end Spawners

/-- The frames that a worker is in, where `own` is that of its closure. -/
structure Stacks.Strand (k : Stacks) (stack : Stack) (young : List ℕ)
    (own : Option ℕ) : Prop where
  current : (young ++ own.toList).head? = stack.currentStackFrame
  linked : (young ++ own.toList).IsChain
    fun f g => (k.frames f).callParent = some g
  spawned : own = none →
    ∃ f, young.getLast? = some f ∧ (k.frames f).detached = true
  entries : stack.entries = (k.spawners (young ++ own.toList)).reverse
  bounded : stack.head ≤ stack.tail

namespace Stacks.Strand

theorem mem_dropLast (member : f ∈ (young ++ own.toList).dropLast) :
    f ∈ young := by
  cases own with
  | none =>
      rw [Option.toList_none, List.append_nil] at member
      exact List.dropLast_subset _ member
  | some g =>
      rwa [Option.toList_some, List.dropLast_concat] at member

/-- Only the links of the young frames matter. -/
theorem congr (strand : k.Strand stack young own)
    (same : ∀ f ∈ young,
      (made.frames f).callParent = (k.frames f).callParent ∧
        (made.frames f).detached = (k.frames f).detached) :
    made.Strand stack young own := by
  constructor
  case current => exact strand.current
  case linked =>
    exact isChain_congr_dropLast strand.linked
      fun f member => (same f (mem_dropLast member)).1
  case spawned =>
    intro noFrame
    obtain ⟨f, isLast, detached⟩ := strand.spawned noFrame
    exact ⟨f, isLast, (same f (List.mem_of_getLast? isLast)).2.trans detached⟩
  case entries =>
    rw [strand.entries, Stacks.spawners_congr fun f member =>
      (same f (mem_dropLast member)).2]
  case bounded => exact strand.bounded

/-- A worker is always in some frame. -/
theorem ne_nil (strand : k.Strand stack young own) :
    young ++ own.toList ≠ [] := by
  cases own with
  | some g => simp
  | none =>
      obtain ⟨f, isLast, -⟩ := strand.spawned rfl
      rintro isEmpty
      rw [Option.toList_none, List.append_nil] at isEmpty
      rw [isEmpty] at isLast
      cases isLast

theorem enter (strand : k.Strand (k.workers w) young own)
    (unused : k.entered ∉ young) :
    (k.enter w).Strand
      { k.workers w with currentStackFrame := some k.entered }
      (k.entered :: young) own := by
  have frameOf (f : ℕ) (isYoung : f ∈ young) :
      (k.enter w).frames f = k.frames f := by
    apply Function.update_of_ne
    rintro rfl
    exact unused isYoung
  have entered : (k.enter w).frames k.entered =
      { callParent := (k.workers w).currentStackFrame } :=
    Function.update_self ..
  have kept := @congr k (k.enter w) _ _ _ strand fun f isYoung => by
    rw [frameOf f isYoung]
    exact ⟨rfl, rfl⟩
  constructor
  case current => rfl
  case linked =>
    rw [List.cons_append, List.isChain_cons]
    refine ⟨fun g isHead => ?_, kept.linked⟩
    rw [entered, ← strand.current]
    exact isHead
  case spawned =>
    intro noFrame
    obtain ⟨f, isLast, detached⟩ := kept.spawned noFrame
    refine ⟨f, ?_, detached⟩
    rw [List.getLast?_cons, isLast]
    rfl
  case entries =>
    rw [List.cons_append, Stacks.spawners_attached (by rw [entered]),
      ← kept.entries]
    rfl
  case bounded => exact strand.bounded

theorem detach {parent : ℕ} (strand : k.Strand (k.workers w) (f :: young) own)
    (parentFrame : (young ++ own.toList).head? = some parent)
    (attached : (k.frames f).detached = false) (absent : f ∉ young) :
    (k.detach w f parent).Strand ((k.detach w f parent).workers w)
      (f :: young) own := by
  have frameOf (g : ℕ) : (k.detach w f parent).frames g =
      if g = f then { k.frames f with detached := true } else k.frames g :=
    k.modifyFrame_frames ({ · with detached := true }) g
  have callParent (g : ℕ) : ((k.detach w f parent).frames g).callParent =
      (k.frames g).callParent := by
    rw [frameOf]
    split
    case isTrue same => rw [same]
    case isFalse => rfl
  have stack : (k.detach w f parent).workers w = { k.workers w with
      shadowStack := Function.update (k.workers w).shadowStack
        (k.workers w).tail parent
      tail := (k.workers w).tail + 1 } :=
    Stacks.modifyWorker_self ..
  have detached : ((k.detach w f parent).frames f).detached = true := by
    rw [frameOf, if_pos rfl]
  rw [stack]
  constructor
  case current => exact strand.current
  case linked =>
    exact isChain_congr_dropLast strand.linked fun g _ => callParent g
  case spawned =>
    intro noFrame
    obtain ⟨g, isLast, isDetached⟩ := strand.spawned noFrame
    refine ⟨g, isLast, ?_⟩
    rw [frameOf]
    split
    · rfl
    · exact isDetached
  case entries =>
    have older := strand.entries
    rw [List.cons_append, Stacks.spawners_attached attached] at older
    rw [Stack.entries_push strand.bounded, older, List.cons_append,
      Stacks.spawners_detached detached parentFrame, List.reverse_cons]
    congr 2
    apply (Stacks.spawners_congr _).symm
    intro g member
    have isYoung := mem_dropLast member
    rw [frameOf, if_neg fun same : g = f => absent (same ▸ isYoung)]
  case bounded =>
    have bounded := strand.bounded
    simp only
    omega

/-- What remains when the youngest frame is left. -/
theorem rest (strand : k.Strand stack (f :: young) own)
    (remains : young ++ own.toList ≠ []) :
    (young ++ own.toList).head? = (k.frames f).callParent ∧
      ((young ++ own.toList).IsChain
        fun f g => (k.frames f).callParent = some g) ∧
      (own = none →
        ∃ g, young.getLast? = some g ∧ (k.frames g).detached = true) := by
  have linked := strand.linked
  rw [List.cons_append, List.isChain_cons] at linked
  refine ⟨?_, linked.2, fun noFrame => ?_⟩
  · cases isHead : (young ++ own.toList).head? with
    | none => exact absurd (List.head?_eq_none_iff.mp isHead) remains
    | some g => exact (linked.1 g isHead).symm
  · obtain ⟨g, isLast, detached⟩ := strand.spawned noFrame
    rw [noFrame, Option.toList_none, List.append_nil] at remains
    rw [List.getLast?_cons_of_ne_nil remains] at isLast
    exact ⟨g, isLast, detached⟩

/-- A called frame is left. -/
theorem pop (strand : k.Strand stack (f :: young) own)
    (attached : (k.frames f).detached = false) :
    k.Strand { stack with currentStackFrame := (k.frames f).callParent }
      young own := by
  have remains : young ++ own.toList ≠ [] := by
    intro isEmpty
    obtain ⟨noYoung, noFrame⟩ := List.append_eq_nil_iff.mp isEmpty
    obtain ⟨g, isLast, detached⟩ :=
      strand.spawned (Option.toList_eq_nil_iff.mp noFrame)
    rw [noYoung, List.getLast?_singleton, Option.some.injEq] at isLast
    rw [← isLast, attached] at detached
    cases detached
  obtain ⟨current, linked, spawned⟩ := strand.rest remains
  have entries := strand.entries
  rw [List.cons_append, Stacks.spawners_attached attached] at entries
  exact ⟨current, linked, spawned, entries, strand.bounded⟩

/-- A spawned frame is left while the spawner is still there. -/
theorem leave (strand : k.Strand stack (f :: young) own)
    (detached : (k.frames f).detached = true)
    (remains : young ++ own.toList ≠ []) :
    k.Strand { stack with
      currentStackFrame := (k.frames f).callParent, tail := stack.tail - 1 }
      young own := by
  obtain ⟨current, linked, spawned⟩ := strand.rest remains
  obtain ⟨g, isHead⟩ : ∃ g, (young ++ own.toList).head? = some g :=
    Option.isSome_iff_exists.mp (List.isSome_head?.mpr remains)
  have entries := strand.entries
  rw [List.cons_append, Stacks.spawners_detached detached isHead,
    List.reverse_cons] at entries
  constructor
  case current => exact current
  case linked => exact linked
  case spawned => exact spawned
  case entries =>
    have popped := @Stack.entries_pop stack
    rw [entries, List.dropLast_concat] at popped
    exact popped
  case bounded =>
    have nonempty : ¬ stack.tail ≤ stack.head := by
      intro isEmpty
      rw [Stack.entries_eq_nil.mpr isEmpty] at entries
      simp at entries
    simp only
    omega

/-- In its own frame, or in that of a spawn helper whose spawner is not there, a
worker has an empty shadow stack. -/
theorem tail_eq_head (strand : k.Strand stack young own)
    (alone : (young ++ own.toList).length = 1) : stack.tail = stack.head := by
  obtain ⟨f, shape⟩ := List.length_eq_one_iff.mp alone
  have entries := strand.entries
  rw [shape] at entries
  have isEmpty := Stack.entries_eq_nil.mp entries
  exact le_antisymm isEmpty strand.bounded

/-- A thief takes the frame at the head with the older ones, and leaves the
child that the frame has spawned. -/
theorem steal (strand : k.Strand stack young own)
    (nonempty : stack.head < stack.tail) (exc : ℕ) :
    ∃ below older, young = below ++ older ∧
      k.Strand { stack with head := stack.head + 1, exc := exc } below none ∧
      (older ++ own.toList).head? =
        some (stack.shadowStack stack.head) ∧
      ((older ++ own.toList).IsChain
        fun f g => (k.frames f).callParent = some g) ∧
      (∀ f ∈ (older ++ own.toList).dropLast,
        (k.frames f).detached = false) ∧
      (own = none →
        ∃ f, older.getLast? = some f ∧ (k.frames f).detached = true) := by
  have entries := strand.entries
  have oldest : (k.spawners (young ++ own.toList)).getLast? =
      some (stack.shadowStack stack.head) := by
    rw [← List.head?_reverse, ← entries, Stack.entries_head? nonempty]
  obtain ⟨younger, child, rest, shape, detached, nobody, split⟩ :=
    Stacks.spawners_oldest oldest
  obtain ⟨older, isYoung, isOlder⟩ : ∃ older,
      young = younger ++ [child] ++ older ∧
        older ++ own.toList = stack.shadowStack stack.head :: rest := by
    rw [List.append_cons] at shape
    rcases List.append_eq_append_iff.mp shape with
      ⟨between, isBelow, isOwn⟩ | ⟨between, isYoung, isRest⟩
    · have short : (own.toList).length ≤ 1 := by
        cases own <;> simp
      rw [isOwn, List.length_append, List.length_cons] at short
      have none : between = [] := List.eq_nil_of_length_eq_zero (by omega)
      rw [none] at isBelow isOwn
      rw [List.append_nil] at isBelow
      refine ⟨[], ?_, isOwn⟩
      rw [List.append_nil, isBelow]
    · exact ⟨between, isYoung, isRest.symm⟩
  refine ⟨younger ++ [child], older, isYoung, ?_, ?_, ?_, ?_, ?_⟩
  · have linked := strand.linked
    rw [shape, List.append_cons, List.isChain_append] at linked
    constructor
    case current =>
      have current := strand.current
      rw [shape, List.append_cons, List.head?_append_of_ne_nil _ (by simp)]
        at current
      rw [Option.toList_none, List.append_nil]
      exact current
    case linked =>
      rw [Option.toList_none, List.append_nil]
      exact linked.1
    case spawned => exact fun _ => ⟨child, by simp, detached⟩
    case entries =>
      rw [Stack.entries_steal, entries, split, List.reverse_concat,
        List.tail_cons, Option.toList_none, List.append_nil]
    case bounded => exact nonempty
  · rw [isOlder, List.head?_cons]
  · have linked := strand.linked
    rw [shape, List.append_cons, List.isChain_append] at linked
    rw [isOlder]
    exact linked.2.1
  · rw [isOlder]
    exact Stacks.attached_of_spawners_nil nobody
  · intro noFrame
    obtain ⟨f, isLast, isDetached⟩ := strand.spawned noFrame
    have remains : older ≠ [] := by
      rintro rfl
      rw [noFrame] at isOlder
      cases isOlder
    refine ⟨f, ?_, isDetached⟩
    rwa [isYoung, List.getLast?_append_of_ne_nil _ remains] at isLast

end Stacks.Strand

end Multicilk.Scheduler
