import Mathlib.Data.List.FinRange
import Mathlib.Logic.Function.Basic
import Mathlib.Data.List.Nodup

/-!
# Singly linked paths through slots

Slots hold an optional link to another slot, as the nodes of an intrusive list do.
A path names the slots that the links visit from one pointer to another. Relinking
a slot changes only paths that visit it, so inserting and unlinking a slot are each
one statement about one path.
-/

namespace LinkedPath

variable {Slot : Type}

/-- The links lead from `start` through exactly `visited`, in order, to `stop`. -/
inductive Path (next : Slot → Option Slot) : Option Slot → List Slot → Option Slot → Prop
  /-- No slot is visited where a path ends. -/
  | nil (pointer : Option Slot) : Path next pointer [] pointer
  /-- The slot that a pointer names is visited first. -/
  | cons {slot : Slot} {rest : List Slot} {stop : Option Slot} :
    Path next (next slot) rest stop → Path next (some slot) (slot :: rest) stop

variable {next : Slot → Option Slot} {start stop : Option Slot}

@[simp] theorem path_nil : Path next start [] stop ↔ start = stop := by
  constructor
  · rintro ⟨⟩
    rfl
  · rintro rfl
    exact .nil start

@[simp] theorem path_cons {slot : Slot} {rest : List Slot} :
    Path next start (slot :: rest) stop ↔ start = some slot ∧ Path next (next slot) rest stop := by
  constructor
  · rintro (_ | tail)
    exact ⟨rfl, tail⟩
  · rintro ⟨rfl, tail⟩
    exact .cons tail

/-- A path over two lists passes the pointer between them. -/
theorem path_append {front back : List Slot} :
    Path next start (front ++ back) stop ↔
      ∃ middle, Path next start front middle ∧ Path next middle back stop := by
  induction front generalizing start with
  | nil => simp
  | cons slot rest ih => simp [ih, and_assoc]

/-- A path depends only on the links of the slots it visits. -/
theorem path_congr {other : Slot → Option Slot} {visited : List Slot}
    (same : ∀ slot ∈ visited, next slot = other slot) :
    Path next start visited stop ↔ Path other start visited stop := by
  induction visited generalizing start with
  | nil => simp
  | cons slot rest ih =>
    rw [path_cons, path_cons, same slot List.mem_cons_self,
      ih (fun later inside => same later (List.mem_cons_of_mem slot inside))]

/-- The first slot of a path to the null pointer is the one its start names. -/
theorem path_start {visited : List Slot} (path : Path next start visited none) :
    start = visited.head? := by
  cases path with
  | nil => rfl
  | cons tail => rfl

/-- The links determine which slots a path to the null pointer visits. -/
theorem path_unique {first second : List Slot} (left : Path next start first none)
    (right : Path next start second none) : first = second := by
  induction first generalizing start second with
  | nil =>
    obtain rfl := path_nil.mp left
    cases second with
    | nil => rfl
    | cons slot rest => simp at right
  | cons slot rest ih =>
    obtain ⟨rfl, tail⟩ := path_cons.mp left
    cases second with
    | nil => simp at right
    | cons other more =>
      obtain ⟨same, otherTail⟩ := path_cons.mp right
      obtain rfl := Option.some.inj same
      rw [ih tail otherTail]

/-- Slots linked in index order make one path through all of them. -/
theorem path_finRange (count : Nat) :
    Path (fun slot : Fin count => if later : slot.val + 1 < count then some ⟨slot.val + 1, later⟩
      else none) (if bound : 0 < count then some ⟨0, bound⟩ else none) (List.finRange count) none := by
  have suffix : ∀ left first, first + left = count →
      Path (fun slot : Fin count => if later : slot.val + 1 < count then some ⟨slot.val + 1, later⟩
        else none) (if bound : first < count then some ⟨first, bound⟩ else none)
        ((List.finRange count).drop first) none := by
    intro left
    induction left with
    | zero =>
      intro first sum
      have past : ¬ first < count := by omega
      rw [List.drop_eq_nil_of_le (by simpa using Nat.not_lt.mp past), dif_neg past]
      exact .nil none
    | succ left ih =>
      intro first sum
      have bound : first < count := by omega
      rw [List.drop_eq_getElem_cons (by simpa using bound), dif_pos bound, path_cons]
      exact ⟨by simp, by simpa using ih (first + 1) (by omega)⟩
  simpa using suffix count 0 (by omega)

section Relink

variable [DecidableEq Slot]

/-- Relinking a slot off the path keeps the path. -/
theorem path_update_of_notMem {visited : List Slot} {slot : Slot} {link : Option Slot}
    (outside : slot ∉ visited) :
    Path (Function.update next slot link) start visited stop ↔ Path next start visited stop :=
  path_congr (fun other inside => Function.update_of_ne (by rintro rfl; exact outside inside) _ _)

/-- Unlinking: a slot's link skips the slot that followed it. -/
theorem path_unlink {front back : List Slot} {slot gone : Slot}
    (distinct : (front ++ slot :: gone :: back).Nodup)
    (path : Path next start (front ++ slot :: gone :: back) stop) :
    Path (Function.update next slot (next gone)) start (front ++ slot :: back) stop := by
  obtain ⟨middle, before, here⟩ := path_append.mp path
  obtain ⟨rfl, skipped⟩ := path_cons.mp here
  obtain ⟨-, after⟩ := path_cons.mp skipped
  have clear : slot ∉ front ∧ slot ∉ back := by
    simp only [List.nodup_append, List.nodup_cons, List.mem_cons, not_or] at distinct
    exact ⟨fun inside => distinct.2.2 slot inside slot (Or.inl rfl) rfl, distinct.2.1.1.2⟩
  refine path_append.mpr ⟨some slot, (path_update_of_notMem clear.1).mpr before, .cons ?_⟩
  rw [Function.update_self]
  exact (path_update_of_notMem clear.2).mpr after

/-- Splicing: a new slot takes over the link of the slot it is inserted after. -/
theorem path_splice {front back : List Slot} {slot fresh : Slot}
    (distinct : (front ++ slot :: back).Nodup) (outside : fresh ∉ front ++ slot :: back)
    (path : Path next start (front ++ slot :: back) stop) :
    Path (Function.update (Function.update next fresh (next slot)) slot (some fresh)) start
      (front ++ slot :: fresh :: back) stop := by
  obtain ⟨middle, before, here⟩ := path_append.mp path
  obtain ⟨rfl, after⟩ := path_cons.mp here
  simp only [List.nodup_append, List.nodup_cons, List.mem_cons] at distinct
  simp only [List.mem_append, List.mem_cons, not_or] at outside
  have notFront : slot ∉ front := fun inside => distinct.2.2 slot inside slot (Or.inl rfl) rfl
  refine path_append.mpr ⟨some slot, ?_, .cons ?_⟩
  · rw [path_update_of_notMem notFront, path_update_of_notMem outside.1]
    exact before
  · rw [Function.update_self]
    refine .cons ?_
    rw [Function.update_of_ne outside.2.1, Function.update_self,
      path_update_of_notMem distinct.2.1.1, path_update_of_notMem outside.2.2]
    exact after

end Relink

end LinkedPath
