import McmqHost.MemorySpace.Refinement

/-!
# Safety of the allocator over every history

`Sound` ties the hole table to the addresses that are allocated: the holes are a
coalesced list inside the region, no hole shares a byte with allocated memory, and
allocated memory stays in the region. Every successful call keeps it, so it holds
after every history of calls. The release of a whole region of 2^32 bytes is the one
start that the 32-bit length of a hole cannot describe.
-/

namespace McmqHost

open Extents

namespace HoleTable

/-- A region of the address space whose length a hole can describe. -/
structure Region (low high : Nat) : Prop where
  /-- The region ends with the address space or before it. -/
  addressable : high ≤ 2 ^ 32
  /-- The region is shorter than the address space. -/
  short : high < low + 2 ^ 32

/-- The table describes `extents`, which are holes of the region apart from what is allocated. -/
structure Sound (low high : Nat) (table : HoleTable) (extents : List Extent)
    (allocated : Set Nat) : Prop where
  /-- The hole list describes the extents. -/
  holds : table.Holds extents
  /-- The holes are sorted, nonempty and do not touch. -/
  coalesced : Coalesced extents
  /-- The holes lie in the region. -/
  within : ∀ extent ∈ extents, low ≤ extent.base ∧ extent.stop ≤ high
  /-- Allocated memory lies in the region. -/
  owned : allocated ⊆ Set.Ico low high
  /-- No hole shares a byte with allocated memory. -/
  apart : Disjoint (cover extents) allocated

namespace Sound

variable {low high : Nat} {table after : HoleTable} {extents : List Extent} {allocated : Set Nat}

theorem ordered (sound : Sound low high table extents allocated) (region : Region low high) :
    Ordered low high extents :=
  .of_coalesced sound.coalesced sound.within region.addressable region.short

/-- Fewer allocated bytes are no harder to keep apart. -/
theorem mono {fewer : Set Nat} (sound : Sound low high table extents allocated)
    (subset : fewer ⊆ allocated) : Sound low high table extents fewer :=
  { sound with
    owned := subset.trans sound.owned
    apart := sound.apart.mono_right subset }

/-- Every free byte lies in the region. -/
theorem cover_subset (sound : Sound low high table extents allocated) :
    cover extents ⊆ Set.Ico low high := by
  rintro byte ⟨extent, inside, lower, upper⟩
  have within := sound.within extent inside
  exact ⟨within.1.trans lower, Nat.lt_of_lt_of_le upper within.2⟩

/-- Holes whose bytes lie in the region lie in it whole. -/
theorem within_of_cover (coalesced : Coalesced extents) (inside : cover extents ⊆ Set.Ico low high) :
    ∀ extent ∈ extents, low ≤ extent.base ∧ extent.stop ≤ high := by
  intro extent listed
  have positive := coalesced.positive extent listed
  have first := inside (mem_cover.mpr ⟨extent, listed, le_refl _, by simp [Extent.stop, positive]⟩)
  have last := inside (mem_cover.mpr
    ⟨extent, listed, show extent.base ≤ extent.stop - 1 by simp only [Extent.stop]; omega,
      show extent.stop - 1 < extent.stop by simp only [Extent.stop]; omega⟩)
  simp only [Set.mem_Ico] at first last
  simp only [Extent.stop] at last ⊢
  omega

/-- What a successful `allocate` did: first fit, and the taken bytes became allocated. -/
theorem allocate (sound : Sound low high table extents allocated) (region : Region low high)
    {len align address : Nat} (positive : 0 < align) (noWrap : len + align ≤ 2 ^ 64)
    (ok : table.allocate len align = .ok (address, after)) :
    ∃ found left, firstFit len align extents = some (found, left) ∧ address = u32 found ∧
      found + len ≤ high ∧ Set.Ico found (found + len) ⊆ cover extents ∧
      Sound low high after left (allocated ∪ Set.Ico found (found + len)) := by
  have scan := allocate_refines _ _ positive noWrap sound.holds sound.coalesced (sound.ordered region)
  cases fit : firstFit len align extents with
  | none =>
    rw [fit] at scan
    rw [scan] at ok
    contradiction
  | some result =>
    obtain ⟨found, left⟩ := result
    rw [fit] at scan
    obtain ⟨last, ran, holds⟩ := scan
    rw [ran] at ok
    simp only [Except.ok.injEq, Prod.mk.injEq] at ok
    obtain ⟨rfl, rfl⟩ := ok
    obtain ⟨start, -, placed, taken, remain⟩ := firstFit_cover sound.coalesced fit
    have coalesced := firstFit_coalesced sound.coalesced fit
    have block : Set.Ico found (found + len) ⊆ Set.Ico start.base (found + len) :=
      Set.Ico_subset_Ico_left (by omega)
    have fewer : cover left ⊆ cover extents := by
      rw [remain]
      exact Set.sdiff_subset
    have ends : found + len ≤ high := by
      obtain ⟨front, extent, back, rfl, fits, -, rfl, -⟩ := firstFit_some fit
      have inside := (sound.within extent (by simp)).2
      simp only [Fits, Extent.stop] at fits inside
      omega
    refine ⟨found, left, rfl, rfl, ends, block.trans taken, holds, coalesced,
      within_of_cover coalesced (fewer.trans sound.cover_subset), ?_, ?_⟩
    · exact Set.union_subset sound.owned ((block.trans taken).trans sound.cover_subset)
    · rw [Set.disjoint_union_right]
      refine ⟨sound.apart.mono_left fewer, ?_⟩
      rw [remain]
      exact Set.disjoint_sdiff_left.mono_right block

/-- The address of a nonempty block is the one that first fit found. -/
theorem u32_found {len align found : Nat} {left : List Extent} (region : Region low high)
    (sound : Sound low high table extents allocated) (nonempty : 0 < len)
    (fit : firstFit len align extents = some (found, left)) : u32 found = found := by
  obtain ⟨extent, -, rfl, taken, -⟩ := firstFit_cover sound.coalesced fit
  have byte := sound.cover_subset (taken (show extent.base + padding extent.base align ∈
    Set.Ico extent.base (extent.base + padding extent.base align + len) from ⟨by omega, by omega⟩))
  have := region.addressable
  simp only [Set.mem_Ico] at byte
  exact u32_of_lt (by omega)

/-- `allocate` fails only by its exception, and then no hole fits. -/
theorem allocate_error (sound : Sound low high table extents allocated) (region : Region low high)
    {len align : Nat} {fault : Fault} (positive : 0 < align) (noWrap : len + align ≤ 2 ^ 64)
    (failed : table.allocate len align = .error fault) :
    fault = .memoryNotAvailable ∧ firstFit len align extents = none := by
  have scan := allocate_refines _ _ positive noWrap sound.holds sound.coalesced (sound.ordered region)
  cases fit : firstFit len align extents with
  | none =>
    rw [fit] at scan
    rw [scan] at failed
    exact ⟨(Except.error.inj failed).symm, rfl⟩
  | some result =>
    obtain ⟨found, left⟩ := result
    rw [fit] at scan
    obtain ⟨last, ran, -⟩ := scan
    rw [ran] at failed
    contradiction

/-- A successful `free` of allocated bytes made exactly those bytes free. -/
theorem free (sound : Sound low high table extents allocated) (region : Region low high)
    {addr len : Nat} (nonempty : 0 < len) (live : Set.Ico addr (addr + len) ⊆ allocated)
    (room : table.freeSlots ≠ none) :
    ∃ after, table.free addr len = .ok after ∧
      Sound low high after (release ⟨addr, len⟩ extents) (allocated \ Set.Ico addr (addr + len)) := by
  have first := sound.owned (live (show addr ∈ Set.Ico addr (addr + len) from ⟨le_refl _, by omega⟩))
  have last := sound.owned (live (show addr + len - 1 ∈ Set.Ico addr (addr + len) from
    ⟨by omega, by omega⟩))
  simp only [Set.mem_Ico] at first last
  have disjoint : Disjoint (Extent.bytes ⟨addr, len⟩) (cover extents) :=
    (sound.apart.mono_right live).symm
  obtain ⟨after, ran, holds⟩ := free_refines sound.holds sound.coalesced (sound.ordered region)
    nonempty first.1 (by omega) disjoint room
  have coalesced : Coalesced (release ⟨addr, len⟩ extents) :=
    coalesced_release nonempty sound.coalesced disjoint
  refine ⟨after, ran, holds, coalesced, ?_, Set.sdiff_subset.trans sound.owned, ?_⟩
  · apply within_of_cover coalesced
    rw [cover_release]
    exact Set.union_subset (live.trans sound.owned) sound.cover_subset
  · rw [cover_release, Set.disjoint_union_left]
    exact ⟨Set.disjoint_sdiff_right, sound.apart.mono_right Set.sdiff_subset⟩

/-- A release that returned found an unused slot. -/
theorem room_of_free {addr len : Nat} (nonempty : 0 < len) (ok : table.free addr len = .ok after) :
    table.freeSlots ≠ none := by
  intro empty
  simp [HoleTable.free, Nat.ne_of_gt nonempty, empty, throw, throwThe, MonadExceptOf.throw] at ok

/-- The step lemma of `free` from its result. -/
theorem free_ok (sound : Sound low high table extents allocated) (region : Region low high)
    {addr len : Nat} (nonempty : 0 < len) (live : Set.Ico addr (addr + len) ⊆ allocated)
    (ok : table.free addr len = .ok after) :
    Sound low high after (release ⟨addr, len⟩ extents) (allocated \ Set.Ico addr (addr + len)) := by
  obtain ⟨last, ran, next⟩ := sound.free region nonempty live (room_of_free nonempty ok)
  rw [ran] at ok
  obtain rfl := Except.ok.inj ok
  exact next

/-- The first release into a fresh table returns. -/
theorem start_ok {base len : Nat} (region : Region base (base + len)) (nonempty : 0 < len) :
    ∃ table, HoleTable.init.free base len = .ok table ∧
      Sound base (base + len) table [⟨base, len⟩] ∅ := by
  have fresh : Sound base (base + len) HoleTable.init [] (Set.Ico base (base + len)) :=
    ⟨init_holds, coalesced_nil, by simp, le_refl _, by simp⟩
  obtain ⟨table, ran, sound⟩ := fresh.free region nonempty (le_refl _) (by simp [init])
  exact ⟨table, ran, by simpa [release, settle] using sound⟩

/-- The table after the constructor's release. -/
theorem start {base len : Nat} (region : Region base (base + len))
    (ok : HoleTable.init.free base len = .ok after) :
    Sound base (base + len) after (if len = 0 then [] else [⟨base, len⟩]) ∅ := by
  by_cases empty : len = 0
  · subst empty
    simp only [HoleTable.free, ↓reduceIte, pure, Except.pure, Except.ok.injEq] at ok
    subst ok
    exact ⟨init_holds, coalesced_nil, by simp, by simp, by simp⟩
  · obtain ⟨table, ran, sound⟩ := start_ok region (Nat.pos_of_ne_zero empty)
    rw [ran] at ok
    obtain rfl := Except.ok.inj ok
    rwa [if_neg empty]

end Sound

/-- The tables and allocated bytes that histories of calls reach from one released region:
`allocate` with any length and alignment, and `free` of any range that is allocated. -/
inductive Serves (base len : Nat) : HoleTable → Set Nat → Prop
  /-- The constructor releases the region into the fresh table. -/
  | start {table : HoleTable} : HoleTable.init.free base len = .ok table → Serves base len table ∅
  /-- An allocation; one that throws leaves the table as it was. -/
  | allocate {table after : HoleTable} {allocated : Set Nat} {count align address : Nat} :
    Serves base len table allocated → 0 < count → 0 < align → count + align < 2 ^ 64 →
    table.allocate count align = .ok (address, after) →
    Serves base len after (allocated ∪ Set.Ico address (address + count))
  /-- A release of allocated bytes that found an unused slot. -/
  | free {table after : HoleTable} {allocated : Set Nat} {addr count : Nat} :
    Serves base len table allocated → 0 < count → Set.Ico addr (addr + count) ⊆ allocated →
    table.free addr count = .ok after →
    Serves base len after (allocated \ Set.Ico addr (addr + count))

/-- Every history keeps the table sound. -/
theorem Serves.sound {base len : Nat} (region : Region base (base + len)) {table : HoleTable}
    {allocated : Set Nat} (served : Serves base len table allocated) :
    ∃ extents, Sound base (base + len) table extents allocated := by
  induction served with
  | start ok => exact ⟨_, Sound.start region ok⟩
  | allocate _ nonempty positive noWrap ok ih =>
    obtain ⟨extents, sound⟩ := ih
    obtain ⟨found, left, fit, rfl, -, -, next⟩ := sound.allocate region positive noWrap.le ok
    rw [Sound.u32_found region sound nonempty fit]
    exact ⟨left, next⟩
  | free _ nonempty live ok ih =>
    obtain ⟨extents, sound⟩ := ih
    exact ⟨_, sound.free_ok region nonempty live ok⟩

/-- The representation: the hole list and the list of unused slots are acyclic and together hold
every slot once; the holes are strictly sorted, nonempty, neither overlap nor touch, and share no
byte with allocated memory. -/
structure Wellformed (table : HoleTable) (holes slots : List Slot) (allocated : Set Nat) : Prop
    extends table.Threads holes slots where
  /-- Sorted by base with a gap between neighbours, none empty. -/
  coalesced : Coalesced (holes.map table.extent)
  /-- Free and allocated memory are disjoint. -/
  unallocated : Disjoint (cover (holes.map table.extent)) allocated

/-- **Allocator safety.** After every history from one released region shorter than the address
space, the representation is well formed, every block that `allocate` returns is aligned, lies in
the region and is disjoint from allocated memory, its only failure is the exception, and `free` of
an allocated range returns whenever a slot is unused. -/
theorem allocator_safe {base len : Nat} (addressable : base + len ≤ 2 ^ 32) (short : len < 2 ^ 32)
    {table : HoleTable} {allocated : Set Nat} (served : Serves base len table allocated) :
    (∃ holes slots, table.Wellformed holes slots allocated) ∧
    (∀ count align, 0 < count → 0 < align → count + align < 2 ^ 64 →
      match table.allocate count align with
      | .error fault => fault = .memoryNotAvailable
      | .ok (address, _) => address % align = 0 ∧
        Set.Ico address (address + count) ⊆ Set.Ico base (base + len) ∧
        Disjoint (Set.Ico address (address + count)) allocated) ∧
    (∀ addr count, 0 < count → Set.Ico addr (addr + count) ⊆ allocated → table.freeSlots ≠ none →
      ∃ after, table.free addr count = .ok after) := by
  have region : Region base (base + len) := ⟨addressable, by omega⟩
  obtain ⟨extents, sound⟩ := served.sound region
  refine ⟨?_, ?_, ?_⟩
  · obtain ⟨holes, slots, threads, rfl⟩ := sound.holds
    exact ⟨holes, slots, threads, sound.coalesced, sound.apart⟩
  · intro count align nonempty positive noWrap
    cases ran : table.allocate count align with
    | error fault => exact (sound.allocate_error region positive noWrap.le ran).1
    | ok result =>
      obtain ⟨address, after⟩ := result
      obtain ⟨found, left, fit, rfl, -, taken, -⟩ := sound.allocate region positive noWrap.le ran
      rw [Sound.u32_found region sound nonempty fit]
      exact ⟨firstFit_aligned positive fit, taken.trans sound.cover_subset,
        sound.apart.mono_left taken⟩
  · intro addr count nonempty live room
    obtain ⟨after, ran, -⟩ := sound.free region nonempty live room
    exact ⟨after, ran⟩

/-- The bytes in use after 16 bytes, a page behind padding and another page were taken and the first
page was given back. -/
def usedBytes : Set Nat :=
  (((∅ ∪ Set.Ico 0x1000 (0x1000 + 0x10)) ∪ Set.Ico 0x2000 (0x2000 + 0x1000)) ∪
    Set.Ico 0x3000 (0x3000 + 0x1000)) \ Set.Ico 0x2000 (0x2000 + 0x1000)

/-- In a region of eight pages these calls leave two holes. -/
theorem serves_fourCalls : ∃ table, Serves 0x1000 0x8000 table usedBytes ∧
    (table.allocateIn 0x2000 0x1000).1 = .ok 0x4000 ∧ table.freeSlots ≠ none ∧
    table.holeHead.map table.extent = some ⟨0x2000, 0x1000⟩ ∧
    (table.holeHead.bind table.next).map table.extent = some ⟨0x4000, 0x5000⟩ := by
  have ran : ∃ fresh short page other table, HoleTable.init.free 0x1000 0x8000 = .ok fresh ∧
      fresh.allocate 0x10 1 = .ok (0x1000, short) ∧
      short.allocate 0x1000 0x1000 = .ok (0x2000, page) ∧
      page.allocate 0x1000 0x1000 = .ok (0x3000, other) ∧ other.free 0x2000 0x1000 = .ok table ∧
      (table.allocateIn 0x2000 0x1000).1 = .ok 0x4000 ∧ table.freeSlots.isSome ∧
      table.holeHead.map table.extent = some ⟨0x2000, 0x1000⟩ ∧
      (table.holeHead.bind table.next).map table.extent = some ⟨0x4000, 0x5000⟩ :=
    ⟨_, _, _, _, _, rfl, rfl, rfl, rfl, rfl, rfl, rfl, rfl, rfl⟩
  obtain ⟨fresh, short, page, other, table, start, first, second, third, back, next, spare, holes⟩ := ran
  have served : Serves 0x1000 0x8000 table usedBytes := by
    refine .free (.allocate (.allocate (.allocate (.start start) ?_ ?_ ?_ first) ?_ ?_ ?_ second)
      ?_ ?_ ?_ third) (by decide) ?_ back
    case refine_10 =>
      intro byte inside
      exact Or.inl (Or.inr inside)
    all_goals decide
  exact ⟨table, served, next, Option.isSome_iff_ne_none.mp spare, holes⟩

/-- After these calls the table is well formed, the next block is aligned, inside and apart, and the
page in use can be given back. -/
theorem allocator_safe_small : ∃ table, Serves 0x1000 0x8000 table usedBytes ∧
    (∃ holes slots, table.Wellformed holes slots usedBytes) ∧
    (0x4000 % 0x1000 = 0 ∧
      Set.Ico 0x4000 (0x4000 + 0x2000) ⊆ Set.Ico 0x1000 (0x1000 + 0x8000) ∧
      Disjoint (Set.Ico 0x4000 (0x4000 + 0x2000)) usedBytes) ∧
    ∃ after, table.free 0x3000 0x1000 = .ok after := by
  obtain ⟨table, served, next, spare, -⟩ := serves_fourCalls
  obtain ⟨formed, blocks, frees⟩ := allocator_safe (by decide) (by decide) served
  refine ⟨table, served, formed, ?_, frees 0x3000 0x1000 (by decide) ?_ spare⟩
  · have block := blocks 0x2000 0x1000 (by decide) (by decide) (by decide)
    rw [HoleTable.allocate] at block
    generalize table.allocateIn 0x2000 0x1000 = given at block next
    obtain ⟨result, after⟩ := given
    obtain rfl : result = .ok 0x4000 := next
    exact block
  · intro byte inside
    refine ⟨Or.inr inside, fun page => ?_⟩
    exact absurd (Nat.lt_of_lt_of_le page.2 inside.1) (Nat.lt_irrefl byte)

/-- Releasing all 2^32 addresses leaves a hole of length zero, since `h_len` has 32 bits. -/
theorem whole_space_malformed :
    0 + 2 ^ 32 ≤ 2 ^ 32 ∧
      ∃ table, Serves 0 (2 ^ 32) table ∅ ∧ ∀ holes slots, ¬ table.Wellformed holes slots ∅ := by
  refine ⟨le_refl _, _, .start rfl, ?_⟩
  intro holes slots formed
  cases holes with
  | nil => exact absurd (LinkedPath.path_nil.mp formed.holePath) (by decide)
  | cons slot rest =>
    obtain ⟨head, -⟩ := LinkedPath.path_cons.mp formed.holePath
    have nonempty := formed.coalesced.positive (_ : Extent) (List.mem_map_of_mem List.mem_cons_self)
    obtain rfl : (⟨0, by decide⟩ : Slot) = slot := Option.some.inj head
    exact absurd nonempty (by decide)

end HoleTable

end McmqHost
