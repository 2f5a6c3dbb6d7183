import Mathlib.Data.List.Basic

/-!
# Effects on a state

An effect changes a state and ends with a value or an error. The state is there in both cases, so
that what a failure leaves behind can be spoken of. An effect *keeps* a relation when it holds
between the states before and after however the effect ends; it *ensures* a postcondition when it
holds of every value and state that it returns with.
-/

/-- A computation on a state that ends with a value or an error. -/
def Effect (State Error Value : Type) : Type := State → Except Error Value × State

namespace Effect

variable {State Error Value Other : Type}

/-- The end of an effect from a state. -/
def run (effect : Effect State Error Value) (state : State) : Except Error Value × State :=
  effect state

/-- Return a value. -/
protected def pure (value : Value) : Effect State Error Value := fun state => (.ok value, state)

/-- One effect after another; an error ends both. -/
protected def bind (first : Effect State Error Value) (next : Value → Effect State Error Other) :
    Effect State Error Other := fun state =>
  match first state with
  | (.ok value, middle) => next value middle
  | (.error error, middle) => (.error error, middle)

instance : Monad (Effect State Error) where
  pure := Effect.pure
  bind := Effect.bind

/-- End with an error. -/
def fail (error : Error) : Effect State Error Value := fun state => (.error error, state)

/-- Return something about the state. -/
def read (view : State → Value) : Effect State Error Value := fun state => (.ok (view state), state)

/-- Change the state. -/
def modify (change : State → State) : Effect State Error Unit := fun state => (.ok (), change state)

/-- A change that may be refused, and then changes nothing. -/
def attempt (change : State → Except Error (Value × State)) : Effect State Error Value :=
  fun state =>
    match change state with
    | .ok (value, after) => (.ok value, after)
    | .error error => (.error error, state)

/-- End with another error. -/
def mapError (change : Error → Error) (effect : Effect State Error Value) :
    Effect State Error Value := fun state =>
  match effect state with
  | (.ok value, after) => (.ok value, after)
  | (.error error, after) => (.error (change error), after)

variable {first : Effect State Error Value} {next : Value → Effect State Error Other}
  {state after : State}

/-! ## How an effect ends -/

theorem bind_run :
    (first >>= next).run state =
      match first.run state with
      | (.ok value, middle) => (next value).run middle
      | (.error error, middle) => (.error error, middle) := rfl

/-- A sequence returns when each part does. -/
theorem bind_ok {result : Other} :
    (first >>= next).run state = (.ok result, after) ↔
      ∃ value middle, first.run state = (.ok value, middle) ∧
        (next value).run middle = (.ok result, after) := by
  rw [bind_run]
  obtain ⟨outcome, middle⟩ := first.run state
  cases outcome with
  | error error => simp
  | ok value => simp

/-- A sequence fails with its first part, or with its second where the first returned. -/
theorem bind_error {error : Error} :
    (first >>= next).run state = (.error error, after) ↔
      first.run state = (.error error, after) ∨
        ∃ value middle, first.run state = (.ok value, middle) ∧
          (next value).run middle = (.error error, after) := by
  rw [bind_run]
  obtain ⟨outcome, middle⟩ := first.run state
  cases outcome with
  | error other => simp
  | ok value => simp

@[simp] theorem pure_run (value : Value) :
    (pure value : Effect State Error Value).run state = (.ok value, state) := rfl

@[simp] theorem fail_run (error : Error) :
    (fail error : Effect State Error Value).run state = (.error error, state) := rfl

@[simp] theorem read_run (view : State → Value) :
    (read view : Effect State Error Value).run state = (.ok (view state), state) := rfl

@[simp] theorem modify_run (change : State → State) :
    (modify change : Effect State Error Unit).run state = (.ok (), change state) := rfl

theorem attempt_run (change : State → Except Error (Value × State)) :
    (attempt change).run state =
      match change state with
      | .ok (value, after) => (.ok value, after)
      | .error error => (.error error, state) := rfl

theorem attempt_ok {change : State → Except Error (Value × State)} {value : Value} :
    (attempt change).run state = (.ok value, after) ↔ change state = .ok (value, after) := by
  rw [attempt_run]
  cases change state with
  | error error => simp
  | ok result => simp [Prod.ext_iff]

theorem attempt_error {change : State → Except Error (Value × State)} {error : Error} :
    (attempt change).run state = (.error error, after) ↔
      change state = .error error ∧ after = state := by
  rw [attempt_run]
  cases change state with
  | error other => simp [eq_comm]
  | ok result => simp

theorem mapError_run (change : Error → Error) :
    (mapError change first).run state =
      match first.run state with
      | (.ok value, after) => (.ok value, after)
      | (.error error, after) => (.error (change error), after) := rfl

theorem mapError_ok {change : Error → Error} {value : Value} :
    (mapError change first).run state = (.ok value, after) ↔
      first.run state = (.ok value, after) := by
  rw [mapError_run]
  obtain ⟨outcome, last⟩ := first.run state
  cases outcome with
  | error error => simp
  | ok value => simp

theorem mapError_error {change : Error → Error} {error : Error} :
    (mapError change first).run state = (.error error, after) ↔
      ∃ earlier, first.run state = (.error earlier, after) ∧ change earlier = error := by
  rw [mapError_run]
  obtain ⟨outcome, last⟩ := first.run state
  cases outcome with
  | error other => simp [and_comm]
  | ok value => simp

instance : LawfulMonad (Effect State Error) := by
  refine LawfulMonad.mk' _ ?_ ?_ ?_
  · intro Value effect
    funext state
    change (match effect state with
      | (.ok value, middle) => (.ok value, middle)
      | (.error error, middle) => (.error error, middle)) = effect state
    obtain ⟨outcome, middle⟩ := effect state
    cases outcome <;> rfl
  · intro Value Other value next
    rfl
  · intro Value Other Last effect next last
    funext state
    change (match (match effect state with
        | (.ok value, middle) => next value middle
        | (.error error, middle) => (.error error, middle)) with
      | (.ok value, middle) => last value middle
      | (.error error, middle) => (.error error, middle)) =
      match effect state with
      | (.ok value, middle) => (next value >>= last) middle
      | (.error error, middle) => (.error error, middle)
    obtain ⟨outcome, middle⟩ := effect state
    cases outcome <;> rfl

/-! ## What an effect keeps -/

/-- However the effect ends, the states before and after are related. -/
def Keeps (Related : State → State → Prop) (effect : Effect State Error Value) : Prop :=
  ∀ state, Related state (effect.run state).2

section Keeps

variable {Related : State → State → Prop}

theorem Keeps.pure (reflexive : ∀ state, Related state state) (value : Value) :
    Keeps Related (pure value : Effect State Error Value) :=
  reflexive

theorem Keeps.fail (reflexive : ∀ state, Related state state) (error : Error) :
    Keeps Related (fail error : Effect State Error Value) :=
  reflexive

theorem Keeps.read (reflexive : ∀ state, Related state state) (view : State → Value) :
    Keeps Related (read view : Effect State Error Value) :=
  reflexive

theorem Keeps.modify {change : State → State} (kept : ∀ state, Related state (change state)) :
    Keeps Related (modify change : Effect State Error Unit) :=
  kept

theorem Keeps.attempt {change : State → Except Error (Value × State)}
    (reflexive : ∀ state, Related state state)
    (kept : ∀ state value after, change state = .ok (value, after) → Related state after) :
    Keeps Related (attempt change) := by
  intro state
  rw [attempt_run]
  cases ran : change state with
  | error error => exact reflexive state
  | ok result => exact kept state result.1 result.2 ran

theorem Keeps.mapError {change : Error → Error} (kept : Keeps Related first) :
    Keeps Related (mapError change first) := by
  intro state
  have ends := kept state
  rw [mapError_run]
  generalize first.run state = ended at ends ⊢
  obtain ⟨outcome, last⟩ := ended
  cases outcome with
  | error error => exact ends
  | ok value => exact ends

/-- **Sequence rule** for a transitive relation. -/
theorem Keeps.bind (transitive : ∀ {one two three}, Related one two → Related two three →
      Related one three)
    (kept : Keeps Related first) (later : ∀ value, Keeps Related (next value)) :
    Keeps Related (first >>= next) := by
  intro state
  have front := kept state
  rw [bind_run]
  generalize first.run state = ended at front ⊢
  obtain ⟨outcome, middle⟩ := ended
  cases outcome with
  | error error => exact front
  | ok value => exact transitive front (later value middle)

end Keeps

/-! ## What an effect ensures -/

/-- From a state with the precondition, the effect returns with the postcondition or fails in a state
with the last condition. -/
def Ensures (Before : State → Prop) (effect : Effect State Error Value)
    (After : Value → State → Prop) (Failed : State → Prop) : Prop :=
  ∀ state, Before state →
    match effect.run state with
    | (.ok value, after) => After value after
    | (.error _, after) => Failed after

section Ensures

variable {Before : State → Prop} {After : Value → State → Prop} {Final : Other → State → Prop}
  {Failed : State → Prop}

theorem Ensures.pure {value : Value} (holds : ∀ state, Before state → After value state) :
    Ensures Before (pure value : Effect State Error Value) After Failed :=
  holds

theorem Ensures.fail {error : Error} (holds : ∀ state, Before state → Failed state) :
    Ensures Before (fail error : Effect State Error Value) After Failed :=
  holds

theorem Ensures.read {view : State → Value}
    (holds : ∀ state, Before state → After (view state) state) :
    Ensures Before (read view : Effect State Error Value) After Failed :=
  holds

theorem Ensures.modify {change : State → State} {After : Unit → State → Prop}
    (holds : ∀ state, Before state → After () (change state)) :
    Ensures Before (modify change : Effect State Error Unit) After Failed :=
  holds

theorem Ensures.attempt {change : State → Except Error (Value × State)}
    (holds : ∀ state value after, Before state → change state = .ok (value, after) →
      After value after)
    (fails : ∀ state, Before state → Failed state) :
    Ensures Before (attempt change) After Failed := by
  intro state before
  rw [attempt_run]
  cases ran : change state with
  | error error => exact fails state before
  | ok result => exact holds state result.1 result.2 before ran

theorem Ensures.mapError {change : Error → Error} (ensures : Ensures Before first After Failed) :
    Ensures Before (mapError change first) After Failed := by
  intro state before
  have ends := ensures state before
  rw [mapError_run]
  generalize first.run state = ended at ends ⊢
  obtain ⟨outcome, last⟩ := ended
  cases outcome with
  | error error => exact ends
  | ok value => exact ends

/-- **Sequence rule.** -/
theorem Ensures.bind (front : Ensures Before first After Failed)
    (back : ∀ value, Ensures (After value) (next value) Final Failed) :
    Ensures Before (first >>= next) Final Failed := by
  intro state before
  have middle := front state before
  rw [bind_run]
  generalize first.run state = ended at middle ⊢
  obtain ⟨outcome, after⟩ := ended
  cases outcome with
  | error error => exact middle
  | ok value => exact back value after middle

/-- The sequence rule with the condition in between. -/
theorem Ensures.through (After : Value → State → Prop) (front : Ensures Before first After Failed)
    (back : ∀ value, Ensures (After value) (next value) Final Failed) :
    Ensures Before (first >>= next) Final Failed :=
  front.bind back

/-- What holds of the first state may be used to choose what comes next. -/
theorem Ensures.fix (each : ∀ state, Before state → Ensures (· = state) first After Failed) :
    Ensures Before first After Failed :=
  fun state before => each state before state rfl

/-- What holds of no state in particular may be used as well. -/
theorem Ensures.given {fact : Prop} (each : fact → Ensures Before first After Failed) :
    Ensures (fun state => Before state ∧ fact) first After Failed :=
  fun state before => each before.2 state before.1

/-- **Consequence rule.** -/
theorem Ensures.weaken {Before' Failed' : State → Prop} {After' : Value → State → Prop}
    (ensures : Ensures Before' first After' Failed') (before : ∀ state, Before state → Before' state)
    (after : ∀ value state, After' value state → After value state)
    (failed : ∀ state, Failed' state → Failed state) :
    Ensures Before first After Failed := by
  intro state holds
  have ends := ensures state (before state holds)
  generalize first.run state = ended at ends ⊢
  obtain ⟨outcome, last⟩ := ended
  cases outcome with
  | error error => exact failed last ends
  | ok value => exact after value last ends

/-- The postcondition of a run that returned. -/
theorem Ensures.returned (ensures : Ensures Before first After Failed) (before : Before state)
    {value : Value} (ran : first.run state = (.ok value, after)) : After value after := by
  have ends := ensures state before
  rwa [ran] at ends

/-- What an effect keeps, for a transitive relation, it ensures from any earlier state on. -/
theorem Keeps.ensures (Related : State → State → Prop) (transitive : ∀ {one two three},
      Related one two → Related two three → Related one three)
    (kept : Keeps Related first) (start : State) :
    Ensures (Related start) first (fun _ => Related start) (Related start) := by
  intro state related
  have ends := transitive related (kept state)
  generalize first.run state = ended at ends ⊢
  obtain ⟨outcome, last⟩ := ended
  cases outcome with
  | error error => exact ends
  | ok value => exact ends

end Ensures

end Effect
