import Mathlib.Data.Fintype.Card
import Mathlib.Data.List.Induction
import McmqHost.MemorySpace.HoleTable

/-!
# The hole table refines a list of extents

`Threads` is the shape of the table: the hole list and the list of unused slots are
finite paths that together visit every slot once. Under it each pointer operation of
the table is an operation on the list of extents that the hole path describes:
`merge_hole` is `settle`, `allocate` is first fit and `free` is `release`. The 32-bit
sums are exact because the holes lie in one region shorter than the address space.
-/

namespace McmqHost

open Extents LinkedPath

namespace HoleTable

variable (table : HoleTable)

@[simp] theorem next_setNext (slot : Slot) (link : Option Slot) :
    (table.setNext slot link).next = Function.update table.next slot link := by
  funext other
  by_cases same : other = slot
  · subst same; simp [next, setNext]
  · simp [next, setNext, same]

@[simp] theorem extent_setNext (slot : Slot) (link : Option Slot) :
    (table.setNext slot link).extent = table.extent := by
  funext other
  by_cases same : other = slot
  · subst same; simp [extent, setNext]
  · simp [extent, setNext, same]

@[simp] theorem next_setExtent (slot : Slot) (found : Extent) :
    (table.setExtent slot found).next = table.next := by
  funext other
  by_cases same : other = slot
  · subst same; simp [next, setExtent]
  · simp [next, setExtent, same]

@[simp] theorem extent_setExtent (slot : Slot) (found : Extent) :
    (table.setExtent slot found).extent = Function.update table.extent slot found := by
  funext other
  by_cases same : other = slot
  · subst same; simp [extent, setExtent]
  · simp [extent, setExtent, same]

@[simp] theorem next_setHead (head : Option Slot) : (table.setHead head).next = table.next := rfl

@[simp] theorem next_setFree (head : Option Slot) : (table.setFree head).next = table.next := rfl

@[simp] theorem extent_setHead (head : Option Slot) :
    (table.setHead head).extent = table.extent := rfl

@[simp] theorem extent_setFree (head : Option Slot) :
    (table.setFree head).extent = table.extent := rfl

@[simp] theorem holeHead_setNext (slot : Slot) (link : Option Slot) :
    (table.setNext slot link).holeHead = table.holeHead := rfl

@[simp] theorem holeHead_setExtent (slot : Slot) (found : Extent) :
    (table.setExtent slot found).holeHead = table.holeHead := rfl

@[simp] theorem holeHead_setHead (head : Option Slot) : (table.setHead head).holeHead = head := rfl

@[simp] theorem holeHead_setFree (head : Option Slot) :
    (table.setFree head).holeHead = table.holeHead := rfl

@[simp] theorem freeSlots_setNext (slot : Slot) (link : Option Slot) :
    (table.setNext slot link).freeSlots = table.freeSlots := rfl

@[simp] theorem freeSlots_setExtent (slot : Slot) (found : Extent) :
    (table.setExtent slot found).freeSlots = table.freeSlots := rfl

@[simp] theorem freeSlots_setHead (head : Option Slot) :
    (table.setHead head).freeSlots = table.freeSlots := rfl

@[simp] theorem freeSlots_setFree (head : Option Slot) : (table.setFree head).freeSlots = head := rfl

/-- The two lists of the table are finite paths that share no slot and miss none. -/
structure Threads (table : HoleTable) (holes slots : List Slot) : Prop where
  /-- The hole list. -/
  holePath : Path table.next table.holeHead holes none
  /-- The list of unused slots. -/
  slotPath : Path table.next table.freeSlots slots none
  /-- No slot is visited twice. -/
  distinct : (holes ++ slots).Nodup
  /-- Every slot is visited. -/
  complete : ∀ slot, slot ∈ holes ++ slots

/-- The extents of the hole list are `extents`, in order, in a well threaded table. -/
def Holds (table : HoleTable) (extents : List Extent) : Prop :=
  ∃ holes slots, table.Threads holes slots ∧ holes.map table.extent = extents

variable {table} {holes slots front back : List Slot}

theorem Threads.holes_nodup (threads : table.Threads holes slots) : holes.Nodup :=
  (List.nodup_append.mp threads.distinct).1

/-- A hole is not an unused slot. -/
theorem Threads.not_unused (threads : table.Threads holes slots) {slot : Slot}
    (inside : slot ∈ holes) : slot ∉ slots :=
  fun unused => (List.nodup_append.mp threads.distinct).2.2 slot inside slot unused rfl

/-- Changing what a slot describes changes no link. -/
theorem Threads.setExtent (threads : table.Threads holes slots) (slot : Slot) (found : Extent) :
    (table.setExtent slot found).Threads holes slots where
  holePath := by simpa using threads.holePath
  slotPath := by simpa using threads.slotPath
  distinct := threads.distinct
  complete := threads.complete

/-- The two lists fill the table. -/
theorem Threads.count (threads : table.Threads holes slots) :
    holes.length + slots.length = nrHoles := by
  have whole : (holes ++ slots).toFinset = Finset.univ := by
    ext slot
    simpa using threads.complete slot
  have counted := List.toFinset_card_of_nodup threads.distinct
  rw [whole, Finset.card_univ, Fintype.card_fin, List.length_append] at counted
  exact counted.symm

/-- A fresh table has no hole. -/
theorem init_threads : init.Threads [] (List.finRange nrHoles) where
  holePath := .nil none
  slotPath := by
    have path := path_finRange nrHoles
    rw [dif_pos (by decide : 0 < nrHoles)] at path
    exact path
  distinct := by simpa using List.nodup_finRange nrHoles
  complete := by simp

theorem init_holds : init.Holds [] := ⟨[], _, init_threads, rfl⟩

/-! ## Deleting and merging -/

/-- `delete_slot` moves one slot from the hole list to the front of the unused slots. -/
theorem deleteSlot_threads {hp : Slot} (threads : table.Threads (front ++ hp :: back) slots) :
    ∃ after, table.deleteSlot front.getLast? hp = .ok after ∧
      after.Threads (front ++ back) (hp :: slots) ∧
      ∀ slot, slot ≠ hp → after.extent slot = table.extent slot := by
  have distinct := threads.distinct
  have unused := threads.not_unused (show hp ∈ front ++ hp :: back by simp)
  have holesDistinct := threads.holes_nodup
  simp only [List.nodup_append, List.nodup_cons, List.mem_cons] at holesDistinct
  have notFront : hp ∉ front := fun inside => holesDistinct.2.2 hp inside hp (Or.inl rfl) rfl
  have notBack : hp ∉ back := holesDistinct.2.1.1
  have moved : (front ++ back ++ hp :: slots).Nodup ∧ ∀ slot, slot ∈ front ++ back ++ hp :: slots := by
    have perm : (front ++ hp :: back ++ slots).Perm (front ++ back ++ hp :: slots) := by
      have moved : (hp :: (back ++ slots)).Perm (back ++ hp :: slots) := List.perm_middle.symm
      simpa using List.Perm.append_left front moved
    exact ⟨perm.nodup_iff.mp distinct, fun slot => perm.mem_iff.mp (threads.complete slot)⟩
  have reused : Path (Function.update table.next hp table.freeSlots) (some hp) (hp :: slots) none := by
    refine .cons ?_
    rw [Function.update_self]
    exact (path_update_of_notMem unused).mpr threads.slotPath
  -- The head is moved when nothing precedes the slot; otherwise the predecessor is relinked.
  cases front using List.reverseRecOn with
  | nil =>
    obtain ⟨headed, tail⟩ := path_cons.mp (by simpa using threads.holePath)
    refine ⟨_, by simp [deleteSlot, headed, pure, bind, Except.pure, Except.bind]; rfl, ⟨?_, ?_,
      moved.1, moved.2⟩, ?_⟩
    · simpa [path_update_of_notMem notBack] using tail
    · simpa using reused
    · intro slot other
      simp [other]
  | append_singleton front prev =>
    have prevOther : prev ≠ hp := by rintro rfl; simp at notFront
    have headed : table.holeHead ≠ some hp := by
      rw [path_start threads.holePath]
      cases front with
      | nil => simpa using prevOther
      | cons first rest => simp only [List.mem_append, List.mem_cons] at notFront; simp; tauto
    have distinctPath : (front ++ prev :: hp :: back).Nodup := by
      simpa using threads.holes_nodup
    have skipped := path_unlink distinctPath (by simpa using threads.holePath)
    refine ⟨_, by simp [deleteSlot, headed, pure, bind, Except.pure, Except.bind]; rfl, ⟨?_, ?_,
      moved.1, moved.2⟩, ?_⟩
    · have clear : hp ∉ front ++ prev :: back := by
        simp only [List.mem_append, List.mem_cons, not_or] at notFront ⊢
        exact ⟨notFront.1, Ne.symm prevOther, notBack⟩
      simpa [path_update_of_notMem clear] using skipped
    · have clear : prev ∉ hp :: slots := by
        simp only [List.mem_cons, not_or]
        exact ⟨prevOther, threads.not_unused (by simp)⟩
      have rewound : Path (Function.update (Function.update table.next hp table.freeSlots) prev (table.next hp))
          (some hp) (hp :: slots) none := (path_update_of_notMem clear).mpr reused
      rw [Function.update_comm prevOther.symm] at rewound
      simpa using rewound
    · intro slot other
      simp [other]

/-- Holes in address order inside a region that a 32-bit length can describe. -/
structure Ordered (low high : Nat) (extents : List Extent) : Prop where
  /-- Each extent ends before the next begins, or where it begins. -/
  sorted : extents.Pairwise (fun left right => left.stop ≤ right.base)
  /-- No extent is empty. -/
  positive : ∀ extent ∈ extents, 0 < extent.len
  /-- Every extent lies in the region. -/
  within : ∀ extent ∈ extents, low ≤ extent.base ∧ extent.stop ≤ high
  /-- The region ends with the address space or before it. -/
  addressable : high ≤ 2 ^ 32
  /-- The region is shorter than the address space. -/
  short : high < low + 2 ^ 32

theorem Ordered.tail {low high : Nat} {extent : Extent} {rest : List Extent}
    (ordered : Ordered low high (extent :: rest)) : Ordered low high rest where
  sorted := (List.pairwise_cons.mp ordered.sorted).2
  positive later inside := ordered.positive later (List.mem_cons_of_mem extent inside)
  within later inside := ordered.within later (List.mem_cons_of_mem extent inside)
  addressable := ordered.addressable
  short := ordered.short

/-- Two ordered neighbours that touch may be replaced by the merged extent. -/
theorem Ordered.merged {low high : Nat} {first second : Extent} {rest : List Extent}
    (ordered : Ordered low high (first :: second :: rest)) (touch : first.stop = second.base) :
    Ordered low high (⟨first.base, first.len + second.len⟩ :: rest) := by
  have ⟨far, near⟩ := List.pairwise_cons.mp ordered.sorted
  have ⟨beyond, others⟩ := List.pairwise_cons.mp near
  have firstWithin := ordered.within first (by simp)
  have secondWithin := ordered.within second (by simp)
  have firstPositive := ordered.positive first (by simp)
  simp only [Extent.stop] at touch firstWithin secondWithin
  refine ⟨List.pairwise_cons.mpr ⟨?_, others⟩, ?_, ?_, ordered.addressable, ordered.short⟩
  · intro later inside
    have := beyond later inside
    simp only [Extent.stop] at this ⊢
    omega
  · intro later inside
    obtain rfl | inside := List.mem_cons.mp inside
    · simp only; omega
    · exact ordered.positive later (by simp [inside])
  · intro later inside
    obtain rfl | inside := List.mem_cons.mp inside
    · simp only [Extent.stop]; omega
    · exact ordered.within later (by simp [inside])

/-- The 32-bit test of `merge_hole` is exact on ordered neighbours. -/
theorem touches_iff {low high : Nat} {hp nextPtr : Slot} {rest : List Extent}
    (ordered : Ordered low high (table.extent hp :: table.extent nextPtr :: rest)) :
    table.touches hp nextPtr = true ↔ (table.extent hp).stop = (table.extent nextPtr).base := by
  have before := (List.pairwise_cons.mp ordered.sorted).1 (table.extent nextPtr) (by simp)
  have positive := ordered.positive (table.extent nextPtr) (by simp)
  have inside := (ordered.within (table.extent nextPtr) (by simp)).2
  have region := ordered.addressable
  simp only [Extent.stop] at before inside ⊢
  simp only [touches, beq_iff_eq]
  rw [u32_of_lt (by omega)]

/-- What merging from the end of `front` on leaves: `front` is untouched and the holes after it
describe `extents`. -/
def Merged (table : HoleTable) (front : List Slot) (extents : List Extent)
    (after : HoleTable) : Prop :=
  ∃ tail slots, after.Threads (front ++ tail) slots ∧
    front.map after.extent = front.map table.extent ∧ tail.map after.extent = extents

/-- Merging nothing. -/
theorem Merged.refl (threads : table.Threads (front ++ back) slots) :
    table.Merged front (back.map table.extent) table := ⟨back, slots, threads, rfl, rfl⟩

/-- Absorbing the successor of a touching pair of holes. -/
theorem absorb_threads {low high : Nat} {hp nextPtr : Slot}
    (threads : table.Threads (front ++ hp :: nextPtr :: back) slots)
    (ordered : Ordered low high ((hp :: nextPtr :: back).map table.extent))
    (touch : (table.extent hp).stop = (table.extent nextPtr).base) :
    ∃ after, table.absorb hp nextPtr = .ok after ∧
      after.Threads (front ++ hp :: back) (nextPtr :: slots) ∧
      front.map after.extent = front.map table.extent ∧
      (hp :: back).map after.extent =
        ⟨(table.extent hp).base, (table.extent hp).len + (table.extent nextPtr).len⟩ ::
          back.map table.extent := by
  have distinct := threads.holes_nodup
  simp only [List.nodup_append, List.nodup_cons, List.mem_cons, not_or] at distinct
  obtain ⟨-, ⟨⟨differ, hpBack⟩, nextBack, -⟩, apart⟩ := distinct
  have firstWithin := ordered.within (table.extent hp) (by simp)
  have secondWithin := ordered.within (table.extent nextPtr) (by simp)
  have short := ordered.short
  have addressable := ordered.addressable
  have positive := ordered.positive (table.extent hp) (by simp)
  simp only [Extent.stop] at touch firstWithin secondWithin
  have sum : u32 ((table.extent hp).len + (table.extent nextPtr).len) =
      (table.extent hp).len + (table.extent nextPtr).len := u32_of_lt (by omega)
  have grown := threads.setExtent hp
    ⟨(table.extent hp).base, u32 ((table.extent hp).len + (table.extent nextPtr).len)⟩
  rw [show front ++ hp :: nextPtr :: back = (front ++ [hp]) ++ nextPtr :: back by simp] at grown
  obtain ⟨after, deleted, rethreaded, frame⟩ := deleteSlot_threads grown
  rw [List.getLast?_concat] at deleted
  refine ⟨after, deleted, by simpa using rethreaded, ?_, ?_⟩
  · apply List.map_congr_left
    intro slot inside
    have notNext : slot ≠ nextPtr := apart slot inside nextPtr (Or.inr (Or.inl rfl))
    have notHp : slot ≠ hp := apart slot inside hp (Or.inl rfl)
    rw [frame slot notNext, extent_setExtent, Function.update_of_ne notHp]
  · rw [List.map_cons, frame hp differ, extent_setExtent, Function.update_self, sum]
    congr 1
    apply List.map_congr_left
    intro slot inside
    have notNext : slot ≠ nextPtr := by rintro rfl; exact nextBack inside
    have notHp : slot ≠ hp := by rintro rfl; exact hpBack inside
    rw [frame slot notNext, extent_setExtent, Function.update_of_ne notHp]

/-- The second merge of `merge_hole` is `join`. -/
theorem mergeAgain_merged {low high : Nat} {hp : Slot}
    (threads : table.Threads (front ++ hp :: back) slots)
    (ordered : Ordered low high ((hp :: back).map table.extent)) :
    ∃ after, table.mergeAgain hp = .ok after ∧
      table.Merged front (join ((hp :: back).map table.extent)) after := by
  obtain ⟨middle, -, here⟩ := path_append.mp threads.holePath
  obtain ⟨-, link⟩ := path_cons.mp here
  have linked := path_start link
  cases back with
  | nil =>
    refine ⟨table, by simp [mergeAgain, linked, pure, Except.pure], ?_⟩
    exact .refl threads
  | cons nextPtr back =>
    by_cases touch : (table.extent hp).stop = (table.extent nextPtr).base
    · obtain ⟨after, absorbed, rethreaded, frame, merged⟩ := absorb_threads threads ordered touch
      refine ⟨after, ?_, _, _, rethreaded, frame, ?_⟩
      · simp [mergeAgain, linked, (touches_iff ordered).mpr touch, absorbed]
      · rw [merged]
        simp [join, touch]
    · have apart : table.touches hp nextPtr = false := by
        rw [← Bool.not_eq_true, touches_iff ordered]
        exact touch
      refine ⟨table, by simp [mergeAgain, linked, apart, pure, Except.pure], ?_⟩
      have unchanged := Merged.refl threads
      simpa [join, touch] using unchanged

/-- `merge_hole` is `settle` on the holes from its argument on. -/
theorem mergeHole_merged {low high : Nat} {hp : Slot}
    (threads : table.Threads (front ++ hp :: back) slots)
    (ordered : Ordered low high ((hp :: back).map table.extent)) :
    ∃ after, table.mergeHole hp = .ok after ∧
      table.Merged front (settle ((hp :: back).map table.extent)) after := by
  obtain ⟨middle, -, here⟩ := path_append.mp threads.holePath
  obtain ⟨-, link⟩ := path_cons.mp here
  have linked := path_start link
  cases back with
  | nil =>
    refine ⟨table, by simp [mergeHole, linked, pure, Except.pure], ?_⟩
    exact .refl threads
  | cons nextPtr back =>
    by_cases touch : (table.extent hp).stop = (table.extent nextPtr).base
    · obtain ⟨middle, absorbed, rethreaded, frame, merged⟩ := absorb_threads threads ordered touch
      have reordered : Ordered low high ((hp :: back).map middle.extent) := by
        rw [merged]
        exact ordered.merged touch
      obtain ⟨after, again, tail, slots', threads', frame', merged'⟩ :=
        mergeAgain_merged rethreaded reordered
      refine ⟨after, ?_, tail, slots', threads', frame'.trans frame, ?_⟩
      · simp [mergeHole, linked, (touches_iff ordered).mpr touch, absorbed, again, bind, Except.bind]
      · rw [merged', merged]
        simp [settle, touch]
    · have apart : table.touches hp nextPtr = false := by
        rw [← Bool.not_eq_true, touches_iff ordered]
        exact touch
      have shifted : table.Threads ((front ++ [hp]) ++ nextPtr :: back) slots := by
        simpa using threads
      obtain ⟨after, again, tail, slots', threads', frame', merged'⟩ :=
        mergeAgain_merged shifted ordered.tail
      refine ⟨after, by simp [mergeHole, linked, apart, again], hp :: tail, slots',
        by simpa using threads', ?_, ?_⟩
      · simp only [List.map_append, List.map_cons, List.map_nil] at frame'
        exact List.append_inj_left' frame' rfl
      · have kept : after.extent hp = table.extent hp := by
          simp only [List.map_append, List.map_cons, List.map_nil] at frame'
          have := List.append_inj_right' frame' rfl
          simpa using this
        rw [List.map_cons, merged', kept]
        simp [settle, touch]

/-! ## Allocation -/

/-- Holes that do not touch are ordered. -/
theorem Ordered.of_coalesced {low high : Nat} {extents : List Extent}
    (coalesced : Coalesced extents)
    (within : ∀ extent ∈ extents, low ≤ extent.base ∧ extent.stop ≤ high)
    (addressable : high ≤ 2 ^ 32) (short : high < low + 2 ^ 32) : Ordered low high extents where
  sorted := coalesced.apart.imp (fun gap => gap.le)
  positive := coalesced.positive
  within := within
  addressable := addressable
  short := short

/-- Taking from a hole that fits leaves the hole trimmed. The predecessor never ends at the
returned address, so the padding is not handed back to it. -/
theorem takeFrom_holds {low high len align : Nat} {hp : Slot}
    (threads : table.Threads (front ++ hp :: back) slots)
    (coalesced : Coalesced ((front ++ hp :: back).map table.extent))
    (ordered : Ordered low high ((front ++ hp :: back).map table.extent))
    (fits : Fits len align (table.extent hp)) :
    ∃ after,
      table.takeFrom front.getLast? hp len (padding (table.extent hp).base align) =
        .ok (u32 ((table.extent hp).base + padding (table.extent hp).base align), after) ∧
      after.Holds (front.map table.extent ++
        (trim (table.extent hp) (len + padding (table.extent hp).base align) ++
          back.map table.extent)) := by
  set found := table.extent hp with foundEq
  set alignment := padding found.base align
  have within := ordered.within found (by simp [foundEq])
  have addressable := ordered.addressable
  have fits : len + alignment ≤ found.len := fits
  have need : u64 (len + alignment) = len + alignment := by
    simp only [Extent.stop] at within
    exact u64_of_lt (by omega)
  have distinct := threads.holes_nodup
  simp only [List.nodup_append, List.nodup_cons, List.mem_cons] at distinct
  have notFront : ∀ slot ∈ front, slot ≠ hp :=
    fun slot inside => distinct.2.2 slot inside hp (Or.inl rfl)
  have notBack : ∀ slot ∈ back, slot ≠ hp := by
    rintro slot inside rfl
    exact distinct.2.1.1 inside
  set taken := table.setExtent hp ⟨u32 (found.base + (len + alignment)),
    found.len - (len + alignment)⟩ with takenEq
  have takenHp : taken.extent hp =
      ⟨u32 (found.base + (len + alignment)), found.len - (len + alignment)⟩ := by
    simp [takenEq]
  have takenOther : ∀ slot, slot ≠ hp → taken.extent slot = table.extent slot := by
    intro slot other
    simp [takenEq, other]
  have frontSame : front.map taken.extent = front.map table.extent :=
    List.map_congr_left (fun slot inside => takenOther slot (notFront slot inside))
  have backSame : back.map taken.extent = back.map table.extent :=
    List.map_congr_left (fun slot inside => takenOther slot (notBack slot inside))
  have noReturn : ∀ prev ∈ front.getLast?,
      u32 ((taken.extent prev).base + (taken.extent prev).len) ≠ u32 (found.base + alignment) := by
    intro prev last
    have inside := List.mem_of_getLast? last
    have gap := (coalesced_append.mp (by simpa using coalesced)).2.2 (table.extent prev)
      (List.mem_map_of_mem inside) found (by simp [foundEq])
    have prevPositive := coalesced.positive (table.extent prev)
      (List.mem_map_of_mem (List.mem_append_left _ inside))
    rw [takenOther prev (notFront prev inside)]
    simp only [Extent.stop] at gap within
    simp only [u32]
    omega
  have padded : taken.returnPadding front.getLast? (u32 (found.base + alignment)) alignment =
      taken := by
    unfold returnPadding
    cases last : front.getLast? with
    | none => rfl
    | some prev => simp [noReturn prev last]
  have takenThreads : taken.Threads (front ++ hp :: back) slots := threads.setExtent hp _
  by_cases all : found.len = len + alignment
  · obtain ⟨after, deleted, rethreaded, frame⟩ := deleteSlot_threads takenThreads
    refine ⟨after, ?_, front ++ back, hp :: slots, rethreaded, ?_⟩
    · simp only [takeFrom, ← foundEq, need, ← takenEq]
      rw [padded, takenHp]
      simp [all, deleted, pure, bind, Except.pure, Except.bind]
    · rw [List.map_append, List.map_congr_left (fun slot inside => frame slot (notFront slot inside)),
        List.map_congr_left (fun slot inside => frame slot (notBack slot inside)), frontSame,
        backSame]
      simp [trim, all]
  · refine ⟨taken, ?_, front ++ hp :: back, slots, takenThreads, ?_⟩
    · simp only [takeFrom, ← foundEq, need, ← takenEq]
      rw [padded, takenHp]
      have left : found.len - (len + alignment) ≠ 0 := by omega
      simp [left, pure, bind, Except.pure, Except.bind]
    · rw [List.map_append, List.map_cons, frontSame, backSame, takenHp]
      simp only [Extent.stop] at within
      rw [u32_of_lt (by omega)]
      simp [trim, all]

/-- The scan of `allocate` is first fit on the holes still to visit. -/
theorem allocateFrom_refines {low high len align fuel : Nat} (positive : 0 < align)
    (noWrap : len + align ≤ 2 ^ 64)
    (threads : table.Threads (front ++ back) slots)
    (coalesced : Coalesced ((front ++ back).map table.extent))
    (ordered : Ordered low high ((front ++ back).map table.extent))
    (enough : back.length < fuel) :
    match firstFit len align (back.map table.extent) with
    | none => allocateFrom len align fuel front.getLast? back.head? table =
        (.error .memoryNotAvailable, table)
    | some (address, left) => ∃ after,
        allocateFrom len align fuel front.getLast? back.head? table = (.ok (u32 address), after) ∧
        after.Holds (front.map table.extent ++ left) := by
  induction back generalizing front fuel with
  | nil =>
    obtain ⟨fuel, rfl⟩ := Nat.exists_eq_succ_of_ne_zero (Nat.ne_of_gt enough)
    simp [firstFit, allocateFrom]
  | cons hp back ih =>
    obtain ⟨fuel, rfl⟩ := Nat.exists_eq_succ_of_ne_zero (by omega : fuel ≠ 0)
    obtain ⟨middle, -, here⟩ := path_append.mp threads.holePath
    obtain ⟨-, link⟩ := path_cons.mp here
    have linked := path_start link
    have below := padding_lt (table.extent hp).base positive
    have need : u64 (len + padding (table.extent hp).base align) =
        len + padding (table.extent hp).base align := u64_of_lt (by omega)
    by_cases fits : Fits len align (table.extent hp)
    · obtain ⟨after, taken, holds⟩ := takeFrom_holds threads coalesced ordered fits
      have enter : len + padding (table.extent hp).base align ≤ (table.extent hp).len := fits
      simp only [List.map_cons, firstFit, fits, ↓reduceIte]
      refine ⟨after, ?_, holds⟩
      simp [allocateFrom, Nat.ne_of_gt positive, need, enter, taken]
    · have skip : ¬ len + padding (table.extent hp).base align ≤ (table.extent hp).len := fits
      have walk : allocateFrom len align (fuel + 1) front.getLast? (hp :: back).head? table =
          allocateFrom len align fuel (front ++ [hp]).getLast? back.head? table := by
        simp [allocateFrom, Nat.ne_of_gt positive, need, skip, linked]
      have shape : front ++ hp :: back = front ++ [hp] ++ back := by simp
      rw [shape] at threads coalesced ordered
      have next := ih threads coalesced ordered (Nat.lt_of_succ_lt_succ enough)
      simp only [List.map_cons, firstFit, fits, ↓reduceIte]
      rw [walk]
      cases found : firstFit len align (back.map table.extent) with
      | none => simpa [found] using next
      | some result =>
        obtain ⟨address, left⟩ := result
        simp only [found] at next
        obtain ⟨after, taken, holds⟩ := next
        exact ⟨after, taken, by simpa using holds⟩

/-- `allocate` is first fit on the list of holes, and leaves the table as it was when it throws. -/
theorem allocateIn_refines {low high len align : Nat} {extents : List Extent}
    (positive : 0 < align) (noWrap : len + align ≤ 2 ^ 64) (holds : table.Holds extents)
    (coalesced : Coalesced extents) (ordered : Ordered low high extents) :
    match firstFit len align extents with
    | none => table.allocateIn len align = (.error .memoryNotAvailable, table)
    | some (address, left) => ∃ after, table.allocateIn len align = (.ok (u32 address), after) ∧
        after.Holds left := by
  obtain ⟨holes, slots, threads, rfl⟩ := holds
  have count := threads.count
  have enough : holes.length < nrHoles + 1 := by omega
  rw [← List.nil_append holes] at threads coalesced ordered
  have scan := allocateFrom_refines positive noWrap threads coalesced ordered enough
  rw [allocateIn, path_start threads.holePath]
  exact scan

/-- The same of its result. -/
theorem allocate_refines (len align : Nat) {low high : Nat} {extents : List Extent}
    (positive : 0 < align) (noWrap : len + align ≤ 2 ^ 64) (holds : table.Holds extents)
    (coalesced : Coalesced extents) (ordered : Ordered low high extents) :
    match firstFit len align extents with
    | none => table.allocate len align = .error .memoryNotAvailable
    | some (address, left) => ∃ after, table.allocate len align = .ok (u32 address, after) ∧
        after.Holds left := by
  have scan := allocateIn_refines positive noWrap holds coalesced ordered
  cases fit : firstFit len align extents with
  | none =>
    rw [fit] at scan
    show table.allocate len align = _
    rw [allocate, scan]
  | some result =>
    rw [fit] at scan
    obtain ⟨after, ran, left⟩ := scan
    refine ⟨after, ?_, left⟩
    rw [allocate, ran]

/-! ## Release -/

/-- The search of `free` stops behind the last hole that begins below the address. -/
theorem lastBelow_split (front : List Slot) {addr : Address} {fuel : Nat}
    (path : Path table.next back.head? back none) (enough : back.length < fuel) :
    ∃ below above, back = below ++ above ∧
      table.lastBelow addr fuel front.getLast? back.head? = .ok (front ++ below).getLast? ∧
      (∀ slot ∈ below, (table.extent slot).base < addr) ∧
      ∀ slot ∈ above.head?, addr ≤ (table.extent slot).base := by
  induction back generalizing front fuel with
  | nil =>
    obtain ⟨fuel, rfl⟩ := Nat.exists_eq_succ_of_ne_zero (Nat.ne_of_gt enough)
    exact ⟨[], [], rfl, by simp [lastBelow, pure, Except.pure], by simp, by simp⟩
  | cons hp back ih =>
    obtain ⟨fuel, rfl⟩ := Nat.exists_eq_succ_of_ne_zero (by omega : fuel ≠ 0)
    obtain ⟨-, link⟩ := path_cons.mp path
    have linked := path_start link
    by_cases beyond : (table.extent hp).base < addr
    · rw [linked] at link
      have fewer : back.length < fuel := by simpa using enough
      obtain ⟨below, above, rfl, found, under, behind⟩ := ih (front ++ [hp]) link fewer
      refine ⟨hp :: below, above, rfl, ?_, ?_, behind⟩
      · simpa [lastBelow, beyond, linked] using found
      · intro slot inside
        obtain rfl | inside := List.mem_cons.mp inside
        · exact beyond
        · exact under slot inside
    · refine ⟨[], hp :: back, rfl, by simp [lastBelow, beyond, pure, Except.pure], by simp, ?_⟩
      intro slot first
      have same : hp = slot := by simpa using first
      subst same
      exact Nat.not_lt.mp beyond

theorem Ordered.suffix {low high : Nat} {before after : List Extent}
    (ordered : Ordered low high (before ++ after)) : Ordered low high after where
  sorted := (List.pairwise_append.mp ordered.sorted).2.1
  positive extent inside := ordered.positive extent (List.mem_append_right before inside)
  within extent inside := ordered.within extent (List.mem_append_right before inside)
  addressable := ordered.addressable
  short := ordered.short

/-- Inserting a range between the holes below and above it keeps them ordered. -/
theorem Ordered.insert {low high addr len : Nat} (below : List Extent) {above : List Extent}
    (ordered : Ordered low high (below ++ above)) (coalesced : Coalesced (below ++ above))
    (positive : 0 < len) (lower : low ≤ addr) (upper : addr + len ≤ high)
    (disjoint : Disjoint (Extent.bytes ⟨addr, len⟩) (cover (below ++ above)))
    (under : ∀ extent ∈ below, extent.base < addr)
    (behind : ∀ extent ∈ above.head?, addr ≤ extent.base) :
    Ordered low high (below ++ ⟨addr, len⟩ :: above) := by
  refine ⟨sorted_insert positive coalesced disjoint under behind, ?_, ?_, ordered.addressable,
    ordered.short⟩
  · intro extent inside
    simp only [List.mem_append, List.mem_cons] at inside
    rcases inside with inside | rfl | inside
    · exact coalesced.positive extent (List.mem_append_left _ inside)
    · exact positive
    · exact coalesced.positive extent (List.mem_append_right _ inside)
  · intro extent inside
    simp only [List.mem_append, List.mem_cons] at inside
    rcases inside with inside | rfl | inside
    · exact ordered.within extent (List.mem_append_left _ inside)
    · exact ⟨lower, upper⟩
    · exact ordered.within extent (List.mem_append_right _ inside)

/-- The table between the pop of an unused slot and its insertion: the slot is on neither list. -/
structure Popped (table : HoleTable) (newPtr : Slot) (holes slots : List Slot) : Prop where
  /-- The hole list. -/
  holePath : Path table.next table.holeHead holes none
  /-- The list of unused slots. -/
  slotPath : Path table.next table.freeSlots slots none
  /-- The three parts share no slot. -/
  distinct : (newPtr :: (holes ++ slots)).Nodup
  /-- The three parts hold every slot. -/
  complete : ∀ slot, slot ∈ newPtr :: (holes ++ slots)

namespace Popped

variable {newPtr : Slot} (popped : table.Popped newPtr holes slots)
include popped

theorem notHole : newPtr ∉ holes := fun inside =>
  (List.nodup_cons.mp popped.distinct).1 (List.mem_append_left _ inside)

theorem notSlot : newPtr ∉ slots := fun inside =>
  (List.nodup_cons.mp popped.distinct).1 (List.mem_append_right _ inside)

/-- The slots of the list into which the popped slot is inserted. -/
theorem inserted (split : holes = front ++ back) :
    (front ++ newPtr :: back ++ slots).Nodup ∧ ∀ slot, slot ∈ front ++ newPtr :: back ++ slots := by
  have perm : (newPtr :: (holes ++ slots)).Perm (front ++ newPtr :: back ++ slots) := by
    rw [split, List.append_assoc, List.append_assoc, List.cons_append]
    exact List.perm_middle.symm
  exact ⟨perm.nodup_iff.mp popped.distinct, fun slot => perm.mem_iff.mp (popped.complete slot)⟩

/-- Insertion in front of every hole, then the merge. -/
theorem insertFirst {low high : Nat}
    (ordered : Ordered low high ((newPtr :: holes).map table.extent)) :
    ∃ after, ((table.setNext newPtr table.holeHead).setHead (some newPtr)).mergeHole newPtr =
        .ok after ∧ after.Holds (settle ((newPtr :: holes).map table.extent)) := by
  have shape := popped.inserted (show holes = [] ++ holes from rfl)
  have threads : ((table.setNext newPtr table.holeHead).setHead (some newPtr)).Threads
      ([] ++ newPtr :: holes) slots := by
    refine ⟨?_, ?_, shape.1, shape.2⟩
    · apply path_cons.mpr
      refine ⟨rfl, ?_⟩
      simpa [path_update_of_notMem popped.notHole] using popped.holePath
    · simpa [path_update_of_notMem popped.notSlot] using popped.slotPath
  have ordered' : Ordered low high ((newPtr :: holes).map
      ((table.setNext newPtr table.holeHead).setHead (some newPtr)).extent) := by
    simpa using ordered
  obtain ⟨after, merged, tail, slots', threads', -, contents⟩ := mergeHole_merged threads ordered'
  refine ⟨after, merged, tail, slots', by simpa using threads', ?_⟩
  rw [contents]
  simp

/-- Insertion behind a hole, then the merge. -/
theorem insertBehind {low high : Nat} {prev : Slot} (split : holes = front ++ prev :: back)
    (ordered : Ordered low high ((front ++ prev :: newPtr :: back).map table.extent)) :
    ∃ after, ((table.setNext newPtr (table.next prev)).setNext prev (some newPtr)).mergeHole prev =
        .ok after ∧
      after.Holds (front.map table.extent ++ settle ((prev :: newPtr :: back).map table.extent)) := by
  have shape := popped.inserted (show holes = (front ++ [prev]) ++ back by simp [split])
  have parts := (List.nodup_cons.mp popped.distinct).2
  have prevNotSlot : prev ∉ slots := fun inside =>
    (List.nodup_append.mp parts).2.2 prev (by simp [split]) prev inside rfl
  have notHole := popped.notHole
  have holePath := popped.holePath
  rw [split] at parts notHole holePath
  have spliced := path_splice (List.nodup_append.mp parts).1 notHole holePath
  have threads : ((table.setNext newPtr (table.next prev)).setNext prev (some newPtr)).Threads
      (front ++ prev :: newPtr :: back) slots := by
    refine ⟨by simpa using spliced, ?_, by simpa using shape.1, by simpa using shape.2⟩
    simpa [path_update_of_notMem popped.notSlot, path_update_of_notMem prevNotSlot]
      using popped.slotPath
  have ordered' : Ordered low high ((prev :: newPtr :: back).map
      ((table.setNext newPtr (table.next prev)).setNext prev (some newPtr)).extent) := by
    rw [List.map_append] at ordered
    simpa using ordered.suffix
  obtain ⟨after, merged, tail, slots', threads', frame, contents⟩ :=
    mergeHole_merged threads ordered'
  refine ⟨after, merged, front ++ tail, slots', threads', ?_⟩
  rw [List.map_append, frame, contents]
  simp

end Popped

/-- Taking the first unused slot off its list and giving it a range. -/
theorem popped_of_threads {newPtr : Slot} (threads : table.Threads holes (newPtr :: slots))
    (range : Extent) :
    ((table.setExtent newPtr range).setFree (table.next newPtr)).Popped newPtr holes slots := by
  obtain ⟨-, slotTail⟩ := path_cons.mp threads.slotPath
  have perm : (holes ++ newPtr :: slots).Perm (newPtr :: (holes ++ slots)) := List.perm_middle
  exact {
    holePath := by simpa using threads.holePath
    slotPath := by simpa using slotTail
    distinct := perm.nodup_iff.mp threads.distinct
    complete := fun slot => perm.mem_iff.mp (threads.complete slot) }

/-- `free` is release on the list of holes, when the range is disjoint from them and a slot is
unused. -/
theorem free_refines {low high addr len : Nat} {extents : List Extent}
    (holds : table.Holds extents) (coalesced : Coalesced extents)
    (ordered : Ordered low high extents) (positive : 0 < len) (lower : low ≤ addr)
    (upper : addr + len ≤ high) (disjoint : Disjoint (Extent.bytes ⟨addr, len⟩) (cover extents))
    (room : table.freeSlots ≠ none) :
    ∃ after, table.free addr len = .ok after ∧ after.Holds (release ⟨addr, len⟩ extents) := by
  obtain ⟨holes, slots, threads, rfl⟩ := holds
  have addressable := ordered.addressable
  have short := ordered.short
  have addrFits : u32 addr = addr := u32_of_lt (by omega)
  have lenFits : u32 len = len := u32_of_lt (by omega)
  obtain ⟨newPtr, slots, rfl⟩ : ∃ newPtr rest, slots = newPtr :: rest := by
    cases slots with
    | nil => exact absurd (path_nil.mp threads.slotPath) room
    | cons newPtr rest => exact ⟨newPtr, rest, rfl⟩
  obtain ⟨head, -⟩ := path_cons.mp threads.slotPath
  have unthreaded := popped_of_threads threads ⟨addr, len⟩
  set popped := (table.setExtent newPtr ⟨addr, len⟩).setFree (table.next newPtr) with poppedEq
  have poppedNew : popped.extent newPtr = ⟨addr, len⟩ := by simp [poppedEq]
  have poppedHoles : holes.map popped.extent = holes.map table.extent := by
    apply List.map_congr_left
    intro slot inside
    have other : slot ≠ newPtr := by rintro rfl; exact unthreaded.notHole inside
    simp [poppedEq, other]
  have start := path_start unthreaded.holePath
  rw [← poppedHoles] at coalesced ordered disjoint ⊢
  by_cases first : ∀ slot ∈ holes.head?, addr ≤ (popped.extent slot).base
  · have behind : ∀ extent ∈ (holes.map popped.extent).head?, addr ≤ extent.base := by
      simpa [List.head?_map] using first
    have ordered' : Ordered low high ((newPtr :: holes).map popped.extent) := by
      rw [List.map_cons, poppedNew]
      exact Ordered.insert [] ordered coalesced positive lower upper disjoint (by simp) behind
    obtain ⟨after, merged, holds⟩ := unthreaded.insertFirst ordered'
    refine ⟨after, ?_, ?_⟩
    · have test : popped.holeHead.all (fun hp => decide (addr ≤ (popped.extent hp).base)) = true := by
        rw [start]
        cases holes with
        | nil => rfl
        | cons slot rest => simpa using first
      simp only [free, Nat.ne_of_gt positive, ↓reduceIte, head, addrFits, lenFits, ← poppedEq, test,
        merged]
    · rw [release_front behind, ← poppedNew]
      exact holds
  · have enough : holes.length < nrHoles + 1 := by have := threads.count; omega
    obtain ⟨below, above, rfl, found, under, behind⟩ :=
      lastBelow_split [] (start ▸ unthreaded.holePath) enough
    obtain ⟨initial, prev, rfl⟩ : ∃ initial prev, below = initial ++ [prev] := by
      cases below using List.reverseRecOn with
      | nil => exact absurd (by simpa using behind) first
      | append_singleton initial prev => exact ⟨initial, prev, rfl⟩
    have underExtents : ∀ extent ∈ (initial ++ [prev]).map popped.extent, extent.base < addr := by
      intro extent inside
      obtain ⟨slot, listed, rfl⟩ := List.mem_map.mp inside
      exact under slot listed
    have overExtents : ∀ extent ∈ (above.map popped.extent).head?, addr ≤ extent.base := by
      simpa [List.head?_map] using behind
    have ordered' : Ordered low high ((initial ++ prev :: newPtr :: above).map popped.extent) := by
      rw [List.map_append] at ordered coalesced disjoint
      have inserted := ordered.insert _ coalesced positive lower upper disjoint underExtents overExtents
      simpa [poppedNew] using inserted
    obtain ⟨after, merged, holds⟩ := unthreaded.insertBehind (by simp) ordered'
    refine ⟨after, ?_, ?_⟩
    · have test : popped.holeHead.all (fun hp => decide (addr ≤ (popped.extent hp).base)) = false := by
        rw [start, Bool.eq_false_iff]
        intro all
        apply first
        intro slot inside
        have headed : ((initial ++ [prev]) ++ above).head? = some slot := inside
        rw [headed] at all
        simpa using all
      have located : popped.lastBelow addr (nrHoles + 1) none popped.holeHead = .ok (some prev) := by
        rw [start]
        simpa using found
      simp only [free, Nat.ne_of_gt positive, ↓reduceIte, head, addrFits, lenFits, ← poppedEq, test]
      simp [located, merged, bind, Except.bind]
    · have under : ∀ extent ∈ initial.map popped.extent ++ [popped.extent prev], extent.base < addr := by
        simpa using underExtents
      have behind : release ⟨addr, len⟩
          (initial.map popped.extent ++ popped.extent prev :: above.map popped.extent) =
          initial.map popped.extent ++
            settle (popped.extent prev :: ⟨addr, len⟩ :: above.map popped.extent) :=
        release_behind under overExtents
      simp only [List.map_append, List.map_cons, List.append_assoc, List.singleton_append]
      rw [behind, ← poppedNew]
      exact holds

end HoleTable

end McmqHost
