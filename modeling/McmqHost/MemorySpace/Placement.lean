import McmqHost.MemorySpace.Paging

/-!
# Where a block is placed

The scan of `allocate` stops at the first hole that is large enough. Since the holes are sorted
and do not touch, an aligned range of free addresses lies in one hole, and no earlier hole holds
a lower one: first fit is the lowest fit, and a refusal means that there is no fit at all.
-/

namespace McmqHost

namespace HoleTable

open Extents

/-- What `allocate` does with a request: the block is placed as low as the free addresses allow, or
there is no place for it and nothing changed. -/
def Places (table : HoleTable) (len align : Nat) : Prop :=
  match table.allocateIn len align with
  | (.ok address, _) => IsLeast (placements len align table.freeBytes) address
  | (.error fault, after) =>
    fault = .memoryNotAvailable ∧ placements len align table.freeBytes = ∅ ∧ after = table

/-- A sound table places every request. -/
theorem Sound.places {low high : Nat} {table : HoleTable} {extents : List Extent}
    {allocated : Set Nat} (sound : Sound low high table extents allocated)
    (region : Region low high) {len align : Nat} (nonempty : 0 < len) (positive : 0 < align)
    (noWrap : len + align < 2 ^ 64) : table.Places len align := by
  have scan := allocateIn_refines positive noWrap.le sound.holds sound.coalesced
    (sound.ordered region)
  rw [Places, freeBytes_eq sound.holds]
  cases fit : firstFit len align extents with
  | none =>
    rw [fit] at scan
    rw [scan]
    exact ⟨rfl, firstFit_refuses sound.coalesced nonempty positive fit, rfl⟩
  | some result =>
    obtain ⟨found, left⟩ := result
    rw [fit] at scan
    obtain ⟨after, ran, -⟩ := scan
    rw [ran]
    show IsLeast _ (u32 found)
    rw [u32_found region sound nonempty fit]
    exact firstFit_least sound.coalesced nonempty positive fit

/-- The table after the release of all 2^32 addresses: its one hole has no length. -/
structure Hollow (table : HoleTable) (first : Slot) : Prop where
  /-- The hole list starts with this hole. -/
  head : table.holeHead = some first
  /-- It ends there, too. -/
  last : table.next first = none
  /-- The length 2^32 was stored in 32 bits. -/
  empty : table.extent first = ⟨0, 0⟩

namespace Hollow

variable {table : HoleTable} {first : Slot} {len align : Nat}

/-- A hole without length serves no request. -/
theorem refuses (hollow : table.Hollow first) (nonempty : 0 < len) (positive : 0 < align)
    (noWrap : len + align < 2 ^ 64) :
    table.allocateIn len align = (.error .memoryNotAvailable, table) := by
  have size : u64 (len + padding 0 align) = len := by
    rw [padding_of_aligned (Nat.zero_mod align), Nat.add_zero]
    exact u64_of_lt (by omega)
  have large : ¬ u64 (len + padding (table.extent first).base align) ≤ (table.extent first).len := by
    simp only [hollow.empty, size]
    omega
  rw [allocateIn, hollow.head, allocateFrom, if_neg (Nat.ne_of_gt positive)]
  simp only [if_neg large, hollow.last]
  rfl

/-- A hole without length has no free address. -/
theorem freeBytes_empty (hollow : table.Hollow first) : table.freeBytes = ∅ := by
  apply Set.eq_empty_of_forall_notMem
  rintro byte ⟨extents, ⟨holes, slots, threads, rfl⟩, extent, listed, lower, upper⟩
  obtain ⟨slot, inside, rfl⟩ := List.mem_map.mp listed
  have path := threads.holePath
  rw [hollow.head] at path
  cases holes with
  | nil => exact absurd (LinkedPath.path_nil.mp path) (by simp)
  | cons hp rest =>
    obtain ⟨head, link⟩ := LinkedPath.path_cons.mp path
    obtain rfl := Option.some.inj head
    rw [hollow.last] at link
    cases rest with
    | nil =>
      rw [List.mem_singleton.mp inside, hollow.empty] at upper
      exact Nat.not_lt_zero _ upper
    | cons other more => exact absurd (LinkedPath.path_cons.mp link).1 (by simp)

/-- So there is no place for a request, either. -/
theorem places (hollow : table.Hollow first) (nonempty : 0 < len) (positive : 0 < align)
    (noWrap : len + align < 2 ^ 64) : table.Places len align := by
  rw [Places, hollow.refuses nonempty positive noWrap, hollow.freeBytes_empty]
  refine ⟨rfl, Set.eq_empty_of_forall_notMem ?_, rfl⟩
  rintro address ⟨-, inside⟩
  exact inside (show address ∈ Set.Ico address (address + len) from ⟨le_refl _, by omega⟩)

end Hollow

/-- Nothing can happen to the table of the whole address space. -/
theorem Serves.hollow {table : HoleTable} {allocated : Set Nat}
    (served : Serves 0 (2 ^ 32) table allocated) :
    allocated = ∅ ∧ ∃ first, table.Hollow first := by
  induction served with
  | start ok =>
    cases ok
    exact ⟨rfl, ⟨0, by decide⟩, rfl, rfl, rfl⟩
  | allocate _ nonempty positive noWrap ok ih =>
    obtain ⟨-, first, hollow⟩ := ih
    rw [HoleTable.allocate, hollow.refuses nonempty positive noWrap] at ok
    cases ok
  | free _ nonempty live ok ih =>
    rw [ih.1] at live
    exact absurd (live ⟨le_refl _, Nat.lt_add_of_pos_right nonempty⟩) (Set.notMem_empty _)

/-- **Placement.** After every history from one released region, `allocate` returns the least aligned
address from which the request fits into free memory, and throws exactly when there is none, leaving
the table as it was. -/
theorem allocate_lowest {base len : Nat} (addressable : base + len ≤ 2 ^ 32) {table : HoleTable}
    {allocated : Set Nat} (served : Serves base len table allocated) {count align : Nat}
    (nonempty : 0 < count) (positive : 0 < align) (noWrap : count + align < 2 ^ 64) :
    table.Places count align := by
  by_cases short : len < 2 ^ 32
  · have region : Region base (base + len) := ⟨addressable, by omega⟩
    obtain ⟨extents, sound⟩ := served.sound region
    exact sound.places region nonempty positive noWrap
  · obtain rfl : base = 0 := by omega
    obtain rfl : len = 2 ^ 32 := by omega
    obtain ⟨-, first, hollow⟩ := served.hollow
    exact hollow.places nonempty positive noWrap

/-- With two holes a request of two pages skips the lower one, which is too short. -/
theorem allocate_lowest_page : ∃ table, Serves 0x1000 0x8000 table usedBytes ∧
    (table.holeHead.map table.extent = some ⟨0x2000, 0x1000⟩ ∧
      (table.holeHead.bind table.next).map table.extent = some ⟨0x4000, 0x5000⟩) ∧
    (table.allocateIn 0x2000 0x1000).1 = .ok 0x4000 ∧ table.Places 0x2000 0x1000 := by
  obtain ⟨table, served, next, -, holes⟩ := serves_fourCalls
  exact ⟨table, served, holes, next,
    allocate_lowest (by decide) served (by decide) (by decide) (by decide)⟩

end HoleTable

end McmqHost
