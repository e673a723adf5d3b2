import Mathlib.Data.List.Basic

/-!
# Runs of a labelled step relation

A run is recorded by the states it leaves and the actions it takes there, so
that a condition on the steps of a run is a condition on its trace.  The rules
below turn a fact about one step into a fact about every state of a run.
-/

namespace TransitionSystem

variable {State : Type u} {Action : Type v}

/-- A finite run from `start`.  The trace lists, oldest first, every state the
run leaves together with the action taken in it. -/
inductive Run (step : State → Action → State → Prop) (start : State) :
    List (State × Action) → State → Prop where
  | refl : Run step start [] start
  | snoc {trace : List (State × Action)} {source target : State}
      {action : Action} :
      Run step start trace source →
      step source action target →
      Run step start (trace ++ [(source, action)]) target

/-- Every step of the trace meets the condition in the state it leaves. -/
def Meets (condition : State → Action → Prop)
    (trace : List (State × Action)) : Prop :=
  ∀ entry ∈ trace, condition entry.1 entry.2

/-- The state is reached by steps that all meet the condition. -/
def ReachableBy (condition : State → Action → Prop)
    (step : State → Action → State → Prop) (start state : State) : Prop :=
  ∃ trace, Run step start trace state ∧ Meets condition trace

/-- The state is the last one of some run from an initial state. -/
def Reachable (initial : State → Prop)
    (step : State → Action → State → Prop) (state : State) : Prop :=
  ∃ start trace, initial start ∧ Run step start trace state

@[simp] theorem meets_nil (condition : State → Action → Prop) :
    Meets condition [] := by
  simp [Meets]

@[simp] theorem meets_cons {condition : State → Action → Prop}
    {trace : List (State × Action)} {source : State} {action : Action} :
    Meets condition ((source, action) :: trace) ↔
      condition source action ∧ Meets condition trace := by
  simp [Meets]

@[simp] theorem meets_snoc {condition : State → Action → Prop}
    {trace : List (State × Action)} {source : State} {action : Action} :
    Meets condition (trace ++ [(source, action)]) ↔
      Meets condition trace ∧ condition source action := by
  simp only [Meets, List.mem_append, List.mem_singleton]
  constructor
  · intro meets
    exact ⟨fun entry member => meets entry (.inl member),
      meets (source, action) (.inr rfl)⟩
  · rintro ⟨earlier, last⟩ entry (member | rfl)
    · exact earlier entry member
    · exact last

theorem ReachableBy.refl {condition : State → Action → Prop}
    {step : State → Action → State → Prop} {start : State} :
    ReachableBy condition step start start :=
  ⟨[], .refl, meets_nil condition⟩

theorem ReachableBy.snoc {condition : State → Action → Prop}
    {step : State → Action → State → Prop} {start source target : State}
    {action : Action} (earlier : ReachableBy condition step start source)
    (taken : step source action target) (meets : condition source action) :
    ReachableBy condition step start target := by
  obtain ⟨trace, run, earlierMeets⟩ := earlier
  exact ⟨_, run.snoc taken, meets_snoc.mpr ⟨earlierMeets, meets⟩⟩

theorem Meets.mono {weak strong : State → Action → Prop}
    {trace : List (State × Action)} (meets : Meets strong trace)
    (implies : ∀ state action, strong state action → weak state action) :
    Meets weak trace :=
  fun entry member => implies _ _ (meets entry member)

section Rules

variable {step : State → Action → State → Prop} {start final : State}
  {trace : List (State × Action)}

/-- An invariant may mention the trace so far, for instance to compare the
state with what the actions have contributed. -/
theorem Run.traceInvariant {invariant : List (State × Action) → State → Prop}
    (run : Run step start trace final)
    (initial : invariant [] start)
    (preserved : ∀ trace source action target,
      Run step start trace source → invariant trace source →
      step source action target →
      invariant (trace ++ [(source, action)]) target) :
    invariant trace final := by
  induction run with
  | refl => exact initial
  | snoc earlier last induction =>
      exact preserved _ _ _ _ earlier induction last

theorem Run.invariant {invariant : State → Prop}
    (run : Run step start trace final)
    (initial : invariant start)
    (preserved : ∀ source action target,
      invariant source → step source action target → invariant target) :
    invariant final :=
  @Run.traceInvariant _ _ step start final trace
    (fun _ state => invariant state) run initial
    (fun _ source action target _ holds taken =>
      preserved source action target holds taken)

/-- The invariant rule for runs whose steps are known to meet a condition. -/
theorem Run.invariant_of_meets {condition : State → Action → Prop}
    {invariant : State → Prop}
    (run : Run step start trace final) (meets : Meets condition trace)
    (initial : invariant start)
    (preserved : ∀ source action target,
      invariant source → condition source action →
      step source action target → invariant target) :
    invariant final := by
  induction run with
  | refl => exact initial
  | snoc earlier last induction =>
      rw [meets_snoc] at meets
      exact preserved _ _ _ (induction meets.1) meets.2 last

/-- A run splits at each of its steps. -/
theorem Run.split_at_step {source : State} {action : Action}
    (run : Run step start trace final) (member : (source, action) ∈ trace) :
    ∃ before after target, trace = before ++ (source, action) :: after ∧
      Run step start before source ∧ step source action target ∧
      Run step target after final := by
  induction run with
  | refl => simp at member
  | @snoc trace lastSource final lastAction earlier last induction =>
      rcases List.mem_append.mp member with old | new
      · obtain ⟨before, after, target, shape, initial, taken, rest⟩ :=
          induction old
        refine ⟨before, after ++ [(lastSource, lastAction)], target,
          ?_, initial, taken, rest.snoc last⟩
        rw [shape, List.append_assoc, List.cons_append]
      · cases List.mem_singleton.mp new
        exact ⟨trace, [], final, rfl, earlier, last, .refl⟩

/-- A run splits where its trace does. -/
theorem Run.of_append {first second : List (State × Action)}
    (run : Run step start (first ++ second) final) :
    ∃ middle, Run step start first middle ∧ Run step middle second final := by
  generalize shape : first ++ second = trace at run
  induction run generalizing second with
  | refl =>
      obtain ⟨rfl, rfl⟩ := List.append_eq_nil_iff.mp shape
      exact ⟨start, .refl, .refl⟩
  | @snoc trace source final action earlier last induction =>
      rcases List.eq_nil_or_concat second with rfl | ⟨init, entry, rfl⟩
      · rw [List.append_nil] at shape
        exact ⟨final, shape ▸ earlier.snoc last, .refl⟩
      · rw [List.concat_eq_append, ← List.append_assoc] at shape
        obtain ⟨isTrace, isEntry⟩ := List.append_inj' shape rfl
        cases isEntry
        obtain ⟨middle, before, after⟩ := induction isTrace
        exact ⟨middle, before, List.concat_eq_append ▸ after.snoc last⟩

theorem Run.eq_of_nil (run : Run step start [] final) : final = start := by
  generalize shape : [] = trace at run
  cases run with
  | refl => rfl
  | snoc => simp at shape

/-- The first step of a run. -/
theorem Run.of_cons {source : State} {action : Action}
    (run : Run step start ((source, action) :: trace) final) :
    source = start ∧ ∃ target, step start action target ∧
      Run step target trace final := by
  obtain ⟨target, first, later⟩ :=
    @Run.of_append _ _ step start final [(source, action)] trace run
  generalize shape : [(source, action)] = earlier at first
  cases first with
  | refl => cases shape
  | snoc before taken =>
      obtain ⟨noneBefore, sameEntry⟩ :=
        List.append_inj' ((List.nil_append _).trans shape) rfl
      subst noneBefore
      cases sameEntry
      cases before.eq_of_nil
      exact ⟨rfl, target, taken, later⟩

/-- Where the invariant gives the property, a step that meets the condition
keeps the invariant, and a step that does not destroys the property, a run has
the property in all its states exactly when all its steps meet the condition. -/
theorem Run.property_iff {condition : State → Action → Prop}
    {invariant property : State → Prop}
    (run : Run step start trace final)
    (initial : invariant start)
    (sufficient : ∀ state, invariant state → property state)
    (preserved : ∀ source action target,
      invariant source → condition source action →
      step source action target → invariant target)
    (destroyed : ∀ source action target,
      invariant source → ¬ condition source action →
      step source action target → ¬ property target) :
    ((∀ entry ∈ trace, property entry.1) ∧ property final) ↔
      Meets condition trace := by
  constructor
  · rintro ⟨visited, finalHolds⟩
    induction run with
    | refl => simp
    | @snoc trace source target action earlier last induction =>
        have sourceHolds : property source :=
          visited (source, action) (by simp)
        have earlierMeets : Meets condition trace :=
          induction (fun entry member => visited entry (by simp [member]))
            sourceHolds
        rw [meets_snoc]
        refine ⟨earlierMeets, ?_⟩
        by_contra violated
        exact destroyed _ _ _
          (earlier.invariant_of_meets earlierMeets initial preserved)
          violated last finalHolds
  · intro meets
    constructor
    · intro entry member
      obtain ⟨before, after, target, shape, prior, -, -⟩ :=
        run.split_at_step member
      apply sufficient
      apply prior.invariant_of_meets _ initial preserved
      intro earlier earlierMember
      apply meets
      rw [shape]
      exact List.mem_append_left _ earlierMember
    · exact sufficient _ (run.invariant_of_meets meets initial preserved)

theorem Run.trans {middle : State} {later : List (State × Action)}
    (first : Run step start trace middle)
    (second : Run step middle later final) :
    Run step start (trace ++ later) final := by
  induction second with
  | refl => simpa using first
  | snoc _ last induction =>
      rw [← List.append_assoc]
      exact induction.snoc last

theorem Reachable.invariant {initial : State → Prop}
    {invariant : State → Prop} {state : State}
    (reachable : Reachable initial step state)
    (holdsInitially : ∀ start, initial start → invariant start)
    (preserved : ∀ source action target,
      invariant source → step source action target → invariant target) :
    invariant state := by
  obtain ⟨start, trace, isInitial, run⟩ := reachable
  exact run.invariant (holdsInitially start isInitial) preserved

end Rules

end TransitionSystem
