import Mathlib.Data.List.Infix

/-!
# Deterministic generators

A generator yields an output and its next state from its state alone. What it has yielded is
therefore a function of its first state and the number of draws, and two lists of its outputs from
one state are comparable.
-/

/-- A generator without any other input than its state. -/
structure Generator (State Output : Type) where
  /-- One draw: the output and the next state. -/
  draw : State → Output × State

namespace Generator

variable {State Output : Type} (generator : Generator State Output)

/-- The state after a number of draws. -/
def stateAfter (seed : State) : Nat → State
  | 0 => seed
  | count + 1 => (generator.draw (stateAfter seed count)).2

/-- The outputs of a number of draws, in order. -/
def outputs (seed : State) : Nat → List Output
  | 0 => []
  | count + 1 =>
    outputs seed count ++ [(generator.draw (generator.stateAfter seed count)).1]

@[simp] theorem length_outputs (seed : State) (count : Nat) :
    (generator.outputs seed count).length = count := by
  induction count with
  | zero => rfl
  | succ count ih => rw [outputs, List.length_append, ih, List.length_singleton]

/-- Fewer draws yield a prefix. -/
theorem outputs_prefix (seed : State) {fewer more : Nat} (le : fewer ≤ more) :
    generator.outputs seed fewer <+: generator.outputs seed more := by
  induction more, le using Nat.le_induction with
  | base => exact List.prefix_refl _
  | succ more _ ih => exact ih.trans (List.prefix_append _ _)

/-- A prefix of the outputs is what as many draws yield. -/
theorem eq_outputs_of_prefix {seed : State} {count : Nat} {front : List Output}
    (isPrefix : front <+: generator.outputs seed count) :
    front = generator.outputs seed front.length := by
  have fewer : front.length ≤ count := by
    have shorter := isPrefix.length_le
    rwa [length_outputs] at shorter
  have other := generator.outputs_prefix seed fewer
  exact (List.prefix_of_prefix_length_le isPrefix other
    (Nat.le_of_eq (generator.length_outputs seed _).symm)).eq_of_length
    (generator.length_outputs seed _).symm

/-- Outputs from one state are comparable. -/
theorem outputs_comparable (seed : State) (first second : Nat) :
    generator.outputs seed first <+: generator.outputs seed second ∨
      generator.outputs seed second <+: generator.outputs seed first := by
  rcases Nat.le_total first second with fewer | more
  · exact .inl (generator.outputs_prefix seed fewer)
  · exact .inr (generator.outputs_prefix seed more)

end Generator
