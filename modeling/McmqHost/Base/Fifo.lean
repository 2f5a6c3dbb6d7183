import Mathlib.Algebra.Order.Ring.Int
import Mathlib.Data.List.Infix

/-!
# Bounded queues

A queue of bounded length, changed by atomic actions at its two ends and looked at in between. A
history is possible when each of its actions is. Whatever the order of the actions, the elements that
were taken and those that are left are, in order, the elements that were pushed: nothing is lost,
nothing is taken twice, and nothing overtakes.
-/

namespace Fifo

/-- An action on a queue. -/
inductive Action (Elem : Type)
  /-- Elements are appended. -/
  | push (chunk : List Elem)
  /-- Elements are taken off the front. -/
  | pop (chunk : List Elem)
  /-- A number of elements are dropped off the front. -/
  | drop (count : Nat)
  /-- The free room is measured. -/
  | room (count : Nat)
  /-- The length is measured. -/
  | ready (count : Nat)
  /-- The element at an index is looked at. -/
  | look (index : Nat) (found : Option Elem)
deriving DecidableEq, Repr

variable {Elem : Type} {capacity : Nat}

/-- What an action does to a queue, where it is possible. -/
inductive Step (capacity : Nat) : List Elem → Action Elem → List Elem → Prop
  /-- There is room for the elements. -/
  | push {queue chunk : List Elem} (fits : queue.length + chunk.length ≤ capacity) :
    Step capacity queue (.push chunk) (queue ++ chunk)
  /-- The elements are at the front. -/
  | pop {queue chunk : List Elem} : Step capacity (chunk ++ queue) (.pop chunk) queue
  /-- There are as many. -/
  | drop {queue : List Elem} {count : Nat} (some : count ≤ queue.length) :
    Step capacity queue (.drop count) (queue.drop count)
  /-- So much room is left. -/
  | room {queue : List Elem} {count : Nat} (left : queue.length + count = capacity) :
    Step capacity queue (.room count) queue
  /-- So many elements are there. -/
  | ready {queue : List Elem} : Step capacity queue (.ready queue.length) queue
  /-- The element is there. -/
  | look {queue : List Elem} {index : Nat} : Step capacity queue (.look index queue[index]?) queue

/-- A history of a queue that was empty at first, and the queue behind it. -/
inductive Run (capacity : Nat) : List (Action Elem) → List Elem → Prop
  /-- Nothing happened. -/
  | nil : Run capacity [] []
  /-- One more action happened. -/
  | snoc {history : List (Action Elem)} {before after : List Elem} {action : Action Elem}
    (ran : Run capacity history before) (stepped : Step capacity before action after) :
    Run capacity (history ++ [action]) after

/-- The elements that an action appends. -/
def Action.pushed : Action Elem → List Elem
  | .push chunk => chunk
  | _ => []

/-- The elements that an action takes and shows. -/
def Action.popped : Action Elem → List Elem
  | .pop chunk => chunk
  | _ => []

/-- How many elements an action takes off the front. -/
def Action.taken : Action Elem → Nat
  | .pop chunk => chunk.length
  | .drop count => count
  | _ => 0

/-- The elements that a history appended. -/
def pushed (history : List (Action Elem)) : List Elem := history.flatMap Action.pushed

/-- The elements that a history took and showed. -/
def popped (history : List (Action Elem)) : List Elem := history.flatMap Action.popped

/-- How many elements a history took off the front. -/
def taken (history : List (Action Elem)) : Nat := (history.map Action.taken).sum

@[simp] theorem pushed_concat (history : List (Action Elem)) (action : Action Elem) :
    pushed (history ++ [action]) = pushed history ++ action.pushed := by
  simp [pushed]

@[simp] theorem popped_concat (history : List (Action Elem)) (action : Action Elem) :
    popped (history ++ [action]) = popped history ++ action.popped := by
  simp [popped]

@[simp] theorem taken_concat (history : List (Action Elem)) (action : Action Elem) :
    taken (history ++ [action]) = taken history + action.taken := by
  simp [taken]

/-- A queue does not grow beyond its capacity. -/
theorem Step.length_le {before after : List Elem} {action : Action Elem}
    (stepped : Step capacity before action after) (short : before.length ≤ capacity) :
    after.length ≤ capacity := by
  cases stepped with
  | push fits => rwa [List.length_append]
  | pop =>
    rw [List.length_append] at short
    exact Nat.le_trans (Nat.le_add_left _ _) short
  | drop some => exact Nat.le_trans ((List.drop_suffix _ _).length_le) short
  | room left => exact short
  | ready => exact short
  | look => exact short

/-- What is left of all elements that were ever appended. -/
theorem Step.left {before after all : List Elem} {action : Action Elem} {count : Nat}
    (stepped : Step capacity before action after) (within : count ≤ all.length)
    (left : all.drop count = before) :
    count + action.taken ≤ (all ++ action.pushed).length ∧
      (all ++ action.pushed).drop (count + action.taken) = after := by
  have length : all.length = count + before.length := by
    rw [← left, List.length_drop]
    omega
  -- an action that only looks takes and appends nothing
  have looked : count + 0 ≤ (all ++ []).length ∧ (all ++ []).drop (count + 0) = before := by
    rw [Nat.add_zero, List.append_nil]
    exact ⟨within, left⟩
  cases stepped with
  | @push _ chunk fits =>
    show count + 0 ≤ (all ++ chunk).length ∧ (all ++ chunk).drop (count + 0) = before ++ chunk
    rw [Nat.add_zero, List.drop_append_of_le_length within, left]
    exact ⟨Nat.le_trans within (by simp), rfl⟩
  | @pop _ chunk =>
    show count + chunk.length ≤ (all ++ []).length ∧ (all ++ []).drop (count + chunk.length) = after
    rw [List.append_nil, ← List.drop_drop, left, List.drop_left]
    rw [List.length_append] at length
    exact ⟨by omega, rfl⟩
  | @drop _ gone some =>
    show count + gone ≤ (all ++ []).length ∧ (all ++ []).drop (count + gone) = before.drop gone
    rw [List.append_nil, ← List.drop_drop, left]
    exact ⟨by omega, rfl⟩
  | room fits => exact looked
  | ready => exact looked
  | look => exact looked

variable {history : List (Action Elem)} {queue : List Elem}

theorem Run.length_le (ran : Run capacity history queue) : queue.length ≤ capacity := by
  induction ran with
  | nil => exact Nat.zero_le _
  | snoc ran stepped ih => exact stepped.length_le ih

/-- **Nothing is lost, doubled or reordered**: behind the elements that were taken, the elements that
were appended are those in the queue. -/
theorem Run.left (ran : Run capacity history queue) :
    taken history ≤ (pushed history).length ∧ (pushed history).drop (taken history) = queue := by
  induction ran with
  | nil => exact ⟨Nat.le_refl _, rfl⟩
  | snoc ran stepped ih =>
    rw [pushed_concat, taken_concat]
    exact stepped.left ih.1 ih.2

/-- No more elements are shown than taken. -/
theorem length_popped_le (history : List (Action Elem)) :
    (popped history).length ≤ taken history := by
  induction history using List.reverseRecOn with
  | nil => exact Nat.le_refl _
  | append_singleton history action ih =>
    have shown : action.popped.length ≤ action.taken := by
      cases action <;> simp [Action.popped, Action.taken]
    rw [popped_concat, taken_concat, List.length_append]
    exact Nat.add_le_add ih shown

/-- When all elements that were taken were shown, they and those in the queue are the ones appended. -/
theorem Run.popped_append (ran : Run capacity history queue)
    (whole : taken history = (popped history).length) : pushed history = popped history ++ queue := by
  induction ran with
  | nil => rfl
  | @snoc history before after action ran stepped ih =>
    have shown := length_popped_le history
    rw [popped_concat, taken_concat, List.length_append] at whole
    rw [pushed_concat, popped_concat]
    cases stepped with
    | push fits =>
      rw [ih (by simpa [Action.popped, Action.taken] using whole)]
      simp [Action.pushed, Action.popped]
    | pop =>
      rw [ih (by simp only [Action.popped, Action.taken] at whole; omega)]
      simp [Action.pushed, Action.popped]
    | @drop _ gone some =>
      simp only [Action.popped, Action.taken, List.length_nil] at whole
      rw [ih (by omega)]
      obtain rfl : gone = 0 := by omega
      simp [Action.pushed, Action.popped]
    | room fits =>
      rw [ih (by simpa [Action.popped, Action.taken] using whole)]
      simp [Action.pushed, Action.popped]
    | ready =>
      rw [ih (by simpa [Action.popped, Action.taken] using whole)]
      simp [Action.pushed, Action.popped]
    | look =>
      rw [ih (by simpa [Action.popped, Action.taken] using whole)]
      simp [Action.pushed, Action.popped]

end Fifo
