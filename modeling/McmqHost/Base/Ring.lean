import Mathlib.Algebra.Order.Ring.Int
import Mathlib.Data.List.Nodup
import Mathlib.Data.List.Range
import Mathlib.Logic.Function.Basic

/-!
# Positions on a ring

A ring of `depth` slots is used by counting: the n-th use takes slot `n % depth` on lap
`n / depth`. A producer and a consumer at counts no further apart than the ring is long
never meet on a slot, and a ring with one slot kept empty tells full from empty by the
slots alone.
-/

namespace Ring

/-- The slot after a slot. -/
def next (depth slot : Nat) : Nat := if slot + 1 = depth then 0 else slot + 1

/-- Slots of `count` uses from the use numbered `first`. -/
def window (depth first count : Nat) : List Nat :=
  (List.range count).map fun index => (first + index) % depth

variable {depth : Nat}

/-- Uses less than a ring apart take different slots. -/
theorem slot_ne {first second : Nat} (ordered : first < second) (near : second < first + depth) :
    first % depth ≠ second % depth := by
  intro same
  have split := Nat.div_add_mod first depth
  have split' := Nat.div_add_mod second depth
  rw [← same] at split'
  have grown : depth * (first / depth) < depth * (second / depth) := by omega
  have later : first / depth < second / depth := Nat.lt_of_mul_lt_mul_left grown
  have lap : depth * (first / depth + 1) ≤ depth * (second / depth) := Nat.mul_le_mul_left _ later
  rw [Nat.mul_add, Nat.mul_one] at lap
  omega

/-- The slot after the slot of a use is that of the next use. -/
theorem next_slot (positive : 0 < depth) (use : Nat) :
    next depth (use % depth) = (use + 1) % depth := by
  have below := Nat.mod_lt use positive
  have split := Nat.div_add_mod use depth
  unfold next
  split
  · rename_i last
    have whole : use + 1 = depth * (use / depth + 1) := by
      rw [Nat.mul_add, Nat.mul_one]
      omega
    rw [whole, Nat.mul_mod_right]
  · have short : use % depth + 1 < depth := by omega
    have inside : use + 1 = use % depth + 1 + depth * (use / depth) := by omega
    rw [inside, Nat.add_mul_mod_self_left, Nat.mod_eq_of_lt short]

/-- The next use is on the next lap exactly when it takes the first slot. -/
theorem lap_next (positive : 0 < depth) (use : Nat) :
    (use + 1) / depth = if use % depth + 1 = depth then use / depth + 1 else use / depth := by
  have below := Nat.mod_lt use positive
  have split := Nat.div_add_mod use depth
  split
  · rename_i last
    have whole : use + 1 = depth * (use / depth + 1) := by
      rw [Nat.mul_add, Nat.mul_one]
      omega
    rw [whole, Nat.mul_div_cancel_left _ positive]
  · have short : use % depth + 1 < depth := by omega
    have inside : use + 1 = use % depth + 1 + depth * (use / depth) := by omega
    rw [inside, Nat.add_mul_div_left _ _ positive, Nat.div_eq_of_lt short, Nat.zero_add]

@[simp] theorem window_zero (first : Nat) : window depth first 0 = [] := rfl

@[simp] theorem length_window (first count : Nat) : (window depth first count).length = count := by
  simp [window]

/-- One more use takes the slot behind the window. -/
theorem window_succ (first count : Nat) :
    window depth first (count + 1) = window depth first count ++ [(first + count) % depth] := by
  simp [window, List.range_succ]

/-- The oldest use of a window is its first slot. -/
theorem window_cons (first count : Nat) :
    window depth first (count + 1) = first % depth :: window depth (first + 1) count := by
  simp only [window, List.range_succ_eq_map, List.map_cons, List.map_map, Nat.add_zero]
  congr 1
  apply List.map_congr_left
  intro index _
  simp only [Function.comp_apply, Nat.succ_eq_add_one]
  congr 1
  omega

/-- A window shorter than the ring does not hold the slot of the next use. -/
theorem notMem_window {first count : Nat} (short : count < depth) :
    (first + count) % depth ∉ window depth first count := by
  intro inside
  obtain ⟨index, listed, same⟩ := List.mem_map.mp inside
  have below := List.mem_range.mp listed
  exact slot_ne (by omega) (by omega) same

/-- With one slot kept empty the two ends of a window differ. -/
theorem ends_ne {first count : Nat} (positive : 0 < count) (short : count < depth) :
    (first + count) % depth ≠ first % depth :=
  (slot_ne (by omega) (by omega)).symm

/-- How far a slot is ahead of another. -/
def distance (depth behind ahead : Nat) : Nat := (ahead + depth - behind) % depth

/-- The slots of two uses less than a ring apart tell how many uses are between them. -/
theorem distance_slots {first count : Nat} (short : count < depth) :
    distance depth (first % depth) ((first + count) % depth) = count := by
  have positive : 0 < depth := Nat.zero_lt_of_lt short
  have lower := Nat.mod_lt first positive
  have upper := Nat.mod_lt (first + count) positive
  have sum : (first + count) % depth = (first % depth + count) % depth := by
    rw [Nat.mod_add_mod]
  unfold distance
  rw [sum]
  by_cases wraps : first % depth + count < depth
  · rw [Nat.mod_eq_of_lt wraps]
    have ahead : first % depth + count + depth - first % depth = count + depth := by omega
    rw [ahead, Nat.add_mod_right, Nat.mod_eq_of_lt short]
  · have once : (first % depth + count) % depth = first % depth + count - depth := by
      rw [Nat.mod_eq_sub_mod (Nat.le_of_not_lt wraps), Nat.mod_eq_of_lt (by omega)]
    rw [once]
    have ahead : first % depth + count - depth + depth - first % depth = count := by omega
    rw [ahead, Nat.mod_eq_of_lt short]

/-- How far successive slots lead from a first one. -/
def travelled (depth : Nat) : Nat → List Nat → Nat
  | _, [] => 0
  | slot, next :: rest => distance depth slot next + travelled depth next rest

/-- One more slot leads on from the last one. -/
theorem travelled_concat (slot last : Nat) (slots : List Nat) :
    travelled depth slot (slots ++ [last]) =
      travelled depth slot slots + distance depth (slots.getLast?.getD slot) last := by
  induction slots generalizing slot with
  | nil => simp [travelled]
  | cons next rest ih =>
    rw [List.cons_append, travelled, ih, travelled, Nat.add_assoc]
    cases rest with
    | nil => simp
    | cons second rest => simp [List.getLast?_cons]

/-! ## What the slots hold -/

section Holds

variable {Elem : Type} {data : Nat → Elem} {first : Nat} {list : List Elem}

/-- The slots of the uses from a first one hold the elements of a list. -/
def Holds (depth : Nat) (data : Nat → Elem) (first : Nat) (list : List Elem) : Prop :=
  ∀ index < list.length, list[index]? = some (data ((first + index) % depth))

theorem Holds.nil : Holds depth data first [] := fun _ below => absurd below (Nat.not_lt_zero _)

/-- The elements of two lists are held one behind the other. -/
theorem Holds.append {later : List Elem} (front : Holds depth data first list)
    (back : Holds depth data (first + list.length) later) :
    Holds depth data first (list ++ later) := by
  intro index below
  by_cases early : index < list.length
  · rw [List.getElem?_append_left early]
    exact front index early
  · have late : list.length ≤ index := Nat.le_of_not_lt early
    rw [List.length_append] at below
    have held := back (index - list.length) (by omega)
    rw [List.getElem?_append_right late, held, Nat.add_assoc, Nat.add_sub_cancel' late]

/-- The later elements are held from a later use on. -/
theorem Holds.drop (holds : Holds depth data first list) (count : Nat) :
    Holds depth data (first + count) (list.drop count) := by
  intro index below
  rw [List.length_drop] at below
  rw [List.getElem?_drop, Nat.add_assoc]
  exact holds (count + index) (by omega)

/-- A store to the slot of another use, less than a ring away, changes none of them. -/
theorem Holds.store_apart (holds : Holds depth data first list) {use : Nat} (elem : Elem)
    (behind : first + list.length ≤ use) (near : use < first + depth) :
    Holds depth (Function.update data (use % depth) elem) first list := by
  intro index below
  have apart : (first + index) % depth ≠ use % depth := slot_ne (by omega) (by omega)
  rw [Function.update_of_ne apart]
  exact holds index below

/-- A store to the slot of the next use adds an element. -/
theorem Holds.store_next (holds : Holds depth data first list) (elem : Elem)
    (short : list.length < depth) :
    Holds depth (Function.update data ((first + list.length) % depth) elem) first
      (list ++ [elem]) := by
  refine (holds.store_apart elem (Nat.le_refl _) (by omega)).append ?_
  intro index below
  obtain rfl : index = 0 := Nat.lt_one_iff.mp below
  simp

end Holds

end Ring
