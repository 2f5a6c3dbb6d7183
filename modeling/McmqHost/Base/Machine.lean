import Mathlib.Data.List.Induction

/-!
# Partial machines and their runs

A machine takes a state and an input to one next state, or refuses the input.
Whatever a scheduler, a peer or an allocator may choose is part of the input, so
one list of inputs is one interleaving and a run over it can be evaluated. The
rules below turn a fact about one accepted input into a fact about every run;
the guarded rules carry a side condition that each input of the run meets.
-/

/-- A machine whose inputs carry every scheduling choice. -/
structure Machine (State Input : Type) where
  /-- The state after an accepted input; `none` when the input is refused. -/
  step : State → Input → Option State

namespace Machine

variable {State Input : Type} (machine : Machine State Input)

/-- Feed the inputs in order, stopping at the first refusal. -/
def run : State → List Input → Option State
  | state, [] => some state
  | state, input :: rest =>
    match machine.step state input with
    | none => none
    | some next => run next rest

/-- The run over `inputs` reaches `before`, where it takes `input` to `after`. -/
def Takes (start : State) (inputs : List Input) (before : State) (input : Input)
    (after : State) : Prop :=
  ∃ past future, inputs = past ++ input :: future ∧ machine.run start past = some before ∧
    machine.step before input = some after

/-- The states that some list of inputs reaches. -/
def Reaches (start last : State) : Prop := ∃ inputs, machine.run start inputs = some last

@[simp] theorem run_nil (state : State) : machine.run state [] = some state := rfl

theorem run_cons (state : State) (input : Input) (rest : List Input) :
    machine.run state (input :: rest) =
      (machine.step state input).bind (fun next => machine.run next rest) := by
  simp only [run]
  cases machine.step state input <;> rfl

/-- A run over two lists is the second run from where the first ended. -/
theorem run_append (state : State) (first second : List Input) :
    machine.run state (first ++ second) =
      (machine.run state first).bind (fun middle => machine.run middle second) := by
  induction first generalizing state with
  | nil => rfl
  | cons input rest ih =>
    simp only [List.cons_append, run_cons]
    cases machine.step state input with
    | none => rfl
    | some next => exact ih next

/-- The last input of an accepted run was accepted in the state before it. -/
theorem run_concat {state last : State} {inputs : List Input} {input : Input} :
    machine.run state (inputs ++ [input]) = some last ↔
      ∃ middle, machine.run state inputs = some middle ∧
        machine.step middle input = some last := by
  rw [run_append]
  cases machine.run state inputs with
  | none => simp
  | some middle =>
    simp only [Option.bind_some, run_cons, run_nil, Option.some.injEq, exists_eq_left']
    cases machine.step middle input <;> simp

theorem Reaches.refl (state : State) : machine.Reaches state state := ⟨[], rfl⟩

variable {machine}

/-- **View rule.** A machine whose steps are those of another one, seen through a view, has its runs
as well. -/
theorem run_map {Other : Type} {other : Machine Other Input} {view : State → Other}
    (follows : ∀ state input, (machine.step state input).map view = other.step (view state) input)
    (state : State) (inputs : List Input) :
    (machine.run state inputs).map view = other.run (view state) inputs := by
  induction inputs generalizing state with
  | nil => rfl
  | cons input rest ih =>
    have here := follows state input
    rw [run_cons, run_cons, ← here]
    cases machine.step state input with
    | none => rfl
    | some next => exact ih next

/-- One more accepted input stays among the reached states. -/
theorem Reaches.step {start before after : State} {input : Input}
    (reached : machine.Reaches start before) (taken : machine.step before input = some after) :
    machine.Reaches start after := by
  obtain ⟨inputs, ran⟩ := reached
  exact ⟨inputs ++ [input], machine.run_concat.mpr ⟨before, ran, taken⟩⟩

/-- Every transition of a longer run's front is a transition of the run. -/
theorem Takes.front {start before after : State} {inputs more : List Input} {input : Input}
    (taken : machine.Takes start inputs before input after) :
    machine.Takes start (inputs ++ more) before input after := by
  obtain ⟨past, future, rfl, ran, stepped⟩ := taken
  exact ⟨past, future ++ more, by simp, ran, stepped⟩

/-- The transition that a run's last input makes. -/
theorem Takes.last {start before after : State} {inputs : List Input} {input : Input}
    (ran : machine.run start inputs = some before)
    (stepped : machine.step before input = some after) :
    machine.Takes start (inputs ++ [input]) before input after :=
  ⟨inputs, [], rfl, ran, stepped⟩

/-- No transition is made over no input. -/
theorem not_takes_nil {start before after : State} {input : Input} :
    ¬ machine.Takes start [] before input after := by
  rintro ⟨past, future, split, -⟩
  simp at split

/-- A transition is made over the first input or over the others. -/
theorem takes_cons {start before after : State} {input first : Input} {rest : List Input} :
    machine.Takes start (first :: rest) before input after ↔
      (start = before ∧ first = input ∧ machine.step start first = some after) ∨
        ∃ next, machine.step start first = some next ∧ machine.Takes next rest before input after := by
  constructor
  · rintro ⟨past, future, split, ran, stepped⟩
    cases past with
    | nil =>
      obtain ⟨rfl, rfl⟩ := List.cons.inj split
      obtain rfl := Option.some.inj ran
      exact Or.inl ⟨rfl, rfl, stepped⟩
    | cons head past =>
      obtain ⟨rfl, rfl⟩ := List.cons.inj split
      obtain ⟨next, taken, ran⟩ := Option.bind_eq_some_iff.mp ((machine.run_cons _ _ _).symm.trans ran)
      exact Or.inr ⟨next, taken, past, future, rfl, ran, stepped⟩
  · rintro (⟨rfl, rfl, stepped⟩ | ⟨next, taken, past, future, rfl, ran, stepped⟩)
    · exact ⟨[], rest, rfl, rfl, stepped⟩
    · refine ⟨first :: past, future, rfl, ?_, stepped⟩
      rw [run_cons, taken]
      exact ran

/-- A condition on the transitions over a list of inputs is one on the first and on the others. -/
theorem forall_takes_cons {Holds : State → Input → State → Prop} {start : State} {first : Input}
    {rest : List Input} :
    (∀ before input after, machine.Takes start (first :: rest) before input after →
      Holds before input after) ↔
    ∀ next, machine.step start first = some next → Holds start first next ∧
      ∀ before input after, machine.Takes next rest before input after →
        Holds before input after := by
  constructor
  · intro all next taken
    refine ⟨all _ _ _ (takes_cons.mpr (Or.inl ⟨rfl, rfl, taken⟩)), ?_⟩
    intro before input after inner
    exact all _ _ _ (takes_cons.mpr (Or.inr ⟨next, taken, inner⟩))
  · intro each before input after taken
    rcases takes_cons.mp taken with ⟨rfl, rfl, stepped⟩ | ⟨next, stepped, inner⟩
    · exact (each after stepped).1
    · exact (each next stepped).2 _ _ _ inner

/-- **Guarded run rule.** What every guarded transition preserves holds at the end of a run
whose transitions all meet the guard. -/
theorem run_guarded (Good : State → Prop) (Guard : State → Input → State → Prop)
    (preserved : ∀ before input after, Good before → Guard before input after →
      machine.step before input = some after → Good after)
    {start last : State} {inputs : List Input} (initial : Good start)
    (guarded : ∀ before input after, machine.Takes start inputs before input after →
      Guard before input after)
    (ran : machine.run start inputs = some last) : Good last := by
  induction inputs using List.reverseRecOn generalizing last with
  | nil =>
    obtain rfl := Option.some.inj ran
    exact initial
  | append_singleton inputs input ih =>
    obtain ⟨middle, earlier, stepped⟩ := machine.run_concat.mp ran
    have good := ih (fun before input after taken => guarded _ _ _ taken.front) earlier
    exact preserved _ _ _ good (guarded _ _ _ (.last earlier stepped)) stepped

/-- **Run rule.** What every transition preserves holds in every reached state. -/
theorem Reaches.invariant (Good : State → Prop)
    (preserved : ∀ before input after, Good before →
      machine.step before input = some after → Good after)
    {start last : State} (initial : Good start) (reached : machine.Reaches start last) :
    Good last := by
  obtain ⟨inputs, ran⟩ := reached
  exact run_guarded Good (fun _ _ _ => True)
    (fun before input after good _ stepped => preserved before input after good stepped)
    initial (fun _ _ _ _ => trivial) ran

/-- The guarded run rule at a transition inside the run. -/
theorem Takes.guarded (Good : State → Prop) (Guard : State → Input → State → Prop)
    (preserved : ∀ before input after, Good before → Guard before input after →
      machine.step before input = some after → Good after)
    {start before after : State} {inputs : List Input} {input : Input} (initial : Good start)
    (guarded : ∀ before input after, machine.Takes start inputs before input after →
      Guard before input after)
    (taken : machine.Takes start inputs before input after) : Good before := by
  obtain ⟨past, future, rfl, ran, stepped⟩ := taken
  exact run_guarded Good Guard preserved initial (fun _ _ _ inner => guarded _ _ _ inner.front) ran

/-- **Exchange rule.** Two conditions on transitions that agree in every good state, one of
which keeps states good, hold throughout the same runs. -/
theorem takes_iff (Good : State → Prop) {First Second : State → Input → State → Prop}
    (agree : ∀ before input after, Good before → machine.step before input = some after →
      (First before input after ↔ Second before input after))
    (preserved : ∀ before input after, Good before → First before input after →
      machine.step before input = some after → Good after)
    {start : State} (initial : Good start) (inputs : List Input) :
    (∀ before input after, machine.Takes start inputs before input after →
      First before input after) ↔
    (∀ before input after, machine.Takes start inputs before input after →
      Second before input after) := by
  constructor
  · intro first before input after taken
    have good := taken.guarded Good First preserved initial first
    obtain ⟨_, _, _, _, stepped⟩ := id taken
    exact (agree _ _ _ good stepped).mp (first _ _ _ taken)
  · intro second before input after taken
    have keeps : ∀ before input after, Good before → Second before input after →
        machine.step before input = some after → Good after :=
      fun before input after good holds stepped =>
        preserved _ _ _ good ((agree _ _ _ good stepped).mpr holds) stepped
    have good := taken.guarded Good Second keeps initial second
    obtain ⟨_, _, _, _, stepped⟩ := id taken
    exact (agree _ _ _ good stepped).mpr (second _ _ _ taken)

end Machine
