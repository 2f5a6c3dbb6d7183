import Mathlib.Order.Interval.Set.Disjoint
import Mathlib.Order.Interval.Set.LinearOrder
import McmqHost.MemorySpace.Mapping

/-!
# Page-granular use of a memory space

The driver and the I/O threads take whole pages only. Then every hole begins at a page
boundary, no allocation pads, and free memory, the blocks in use and the bytes that were
never given back add up to the memory that was free at first.
-/

namespace McmqHost

open Extents

namespace HoleTable

/-- The `roundup` macro reaches the next page boundary unless it wraps. -/
theorem roundupPage_spec {len : Nat} (fits : len + 0x1000 ≤ 2 ^ 64) :
    ∃ count, roundupPage len = count * 0x1000 ∧ len ≤ count * 0x1000 ∧
      count * 0x1000 < len + 0x1000 := by
  by_cases whole : len % 0x1000 = 0
  · refine ⟨len / 0x1000, ?_, ?_, ?_⟩
    · rw [roundupPage, if_pos whole]
      omega
    · omega
    · omega
  · have rounded : roundupPage len = len + 0x1000 - len % 0x1000 := by
      rw [roundupPage, if_neg whole]
      unfold u64
      omega
    exact ⟨len / 0x1000 + 1, by omega, by omega, by omega⟩

/-- Whole pages are not rounded. -/
theorem roundupPage_whole {len : Nat} (whole : len % 0x1000 = 0) : roundupPage len = len := by
  rw [roundupPage, if_pos whole]

/-- Free memory, blocks in use and lost bytes partition what was free at first, and every hole
begins at a page boundary. -/
structure Paged (low high : Nat) (pool : Set Nat) (table : HoleTable)
    (extents blocks : List Extent) (lost : Set Nat) : Prop where
  /-- The table is sound for the blocks. -/
  sound : Sound low high table extents (cover blocks)
  /-- Holes begin at page boundaries. -/
  aligned : Aligned 0x1000 extents
  /-- Blocks in use are disjoint. -/
  exclusive : Exclusive blocks
  /-- Nothing else is in the pool. -/
  conserved : cover extents ∪ cover blocks ∪ lost = pool
  /-- Lost bytes are neither free nor in use. -/
  spent : Disjoint lost (cover extents ∪ cover blocks)

namespace Paged

variable {low high : Nat} {pool lost : Set Nat} {table after : HoleTable}
  {extents blocks : List Extent}

/-- The order of the blocks in use does not matter. -/
theorem perm {others : List Extent} (paged : Paged low high pool table extents blocks lost)
    (same : blocks.Perm others) : Paged low high pool table extents others lost := by
  have cover := cover_perm same
  exact {
    sound := cover ▸ paged.sound
    aligned := paged.aligned
    exclusive := (same.pairwise_iff fun apart => Disjoint.symm apart).mp paged.exclusive
    conserved := cover ▸ paged.conserved
    spent := cover ▸ paged.spent }

/-- `allocate_pages` moves a page-aligned block from the holes to the blocks in use. -/
theorem allocatePages (paged : Paged low high pool table extents blocks lost)
    (region : Region low high) {len : Nat} {address : Address} (nonempty : 0 < len)
    (fits : len + 0x1000 ≤ 2 ^ 64) (ok : table.allocatePages len = .ok (address, after)) :
    address % 0x1000 = 0 ∧
      ∃ left, Paged low high pool after left (⟨address, roundupPage len⟩ :: blocks) lost := by
  obtain ⟨count, rounded, atLeast, below⟩ := roundupPage_spec fits
  rw [HoleTable.allocatePages, rounded] at ok
  have noWrap : count * 0x1000 + 0x1000 ≤ 2 ^ 64 := by omega
  obtain ⟨found, left, fit, rfl, -, -, next⟩ :=
    paged.sound.allocate region (by decide) noWrap ok
  have same := Sound.u32_found region paged.sound (by omega) fit
  have boundary := firstFit_aligned (by decide) fit
  obtain ⟨aligned, taken, remain⟩ := paged.aligned.firstFit paged.sound.coalesced fit
  have bytes : Extent.bytes ⟨found, count * 0x1000⟩ = Set.Ico found (found + count * 0x1000) := rfl
  have apart : Disjoint (Set.Ico found (found + count * 0x1000)) (cover blocks) :=
    paged.sound.apart.mono_left taken
  rw [same, rounded]
  refine ⟨boundary, left, ?_, aligned, ?_, ?_, ?_⟩
  · rw [cover_cons, bytes, Set.union_comm]
    exact next
  · exact exclusive_cons.mpr ⟨apart, paged.exclusive⟩
  · rw [← paged.conserved, cover_cons, remain, bytes, ← Set.union_assoc,
      Set.sdiff_union_of_subset taken]
  · refine paged.spent.mono_right ?_
    rw [cover_cons, remain, bytes, ← Set.union_assoc, Set.sdiff_union_of_subset taken]

/-- `free` of the first bytes of a block gives them back and loses the others. -/
theorem freeFront (paged : Paged low high pool table extents blocks lost)
    (region : Region low high) {block : Extent} {len : Nat} (used : block ∈ blocks)
    (boundary : block.base % 0x1000 = 0) (nonempty : 0 < len) (within : len ≤ block.len)
    (ok : table.free block.base len = .ok after) :
    Paged low high pool after (release ⟨block.base, len⟩ extents) (blocks.erase block)
      (lost ∪ Set.Ico (block.base + len) block.stop) := by
  obtain ⟨remain, exclusive⟩ := cover_erase paged.exclusive used
  have inBlock : Set.Ico block.base (block.base + len) ⊆ block.bytes :=
    Set.Ico_subset_Ico_right (Nat.add_le_add_left within _)
  have inBlocks : block.bytes ⊆ cover blocks := fun byte inside => mem_cover.mpr ⟨block, used, inside⟩
  have freed := paged.sound.free_ok region nonempty (inBlock.trans inBlocks) ok
  have split : block.bytes = Set.Ico block.base (block.base + len) ∪
      Set.Ico (block.base + len) block.stop :=
    (Set.Ico_union_Ico_eq_Ico (Nat.le_add_right _ _) (Nat.add_le_add_left within _)).symm
  have front : Extent.bytes ⟨block.base, len⟩ = Set.Ico block.base (block.base + len) := rfl
  refine ⟨?_, paged.aligned.release boundary, exclusive, ?_, ?_⟩
  · rw [remain]
    exact freed.mono (Set.sdiff_subset_sdiff_right inBlock)
  · rw [← paged.conserved, remain, cover_release, front, split]
    rw [split] at inBlocks
    ext byte
    have used (member : byte ∈ _) := inBlocks member
    simp only [Set.mem_union, Set.mem_sdiff] at used ⊢
    tauto
  · have cuts : Disjoint (Set.Ico block.base (block.base + len))
        (Set.Ico (block.base + len) block.stop) :=
      Set.Ico_disjoint_Ico.mpr (by simp only [Extent.stop]; omega)
    rw [remain, cover_release, front, split, Set.disjoint_left]
    rw [split] at inBlocks
    intro byte
    have used (member : byte ∈ _) := inBlocks member
    have spent : byte ∈ lost → byte ∉ cover extents ∪ cover blocks :=
      fun gone => Set.disjoint_left.mp paged.spent gone
    have apart : byte ∈ cover extents → byte ∉ cover blocks :=
      fun free => Set.disjoint_left.mp paged.sound.apart free
    have cut : byte ∈ Set.Ico block.base (block.base + len) →
        byte ∉ Set.Ico (block.base + len) block.stop := fun kept => Set.disjoint_left.mp cuts kept
    simp only [Set.mem_union, Set.mem_sdiff] at used spent ⊢
    tauto

/-- `free` of a whole block loses nothing. -/
theorem freeWhole (paged : Paged low high pool table extents blocks lost)
    (region : Region low high) {block : Extent} (used : block ∈ blocks)
    (boundary : block.base % 0x1000 = 0) (nonempty : 0 < block.len)
    (ok : table.free block.base block.len = .ok after) :
    Paged low high pool after (release block extents) (blocks.erase block) lost := by
  have freed := paged.freeFront region used boundary nonempty (le_refl _) ok
  rwa [show Set.Ico (block.base + block.len) block.stop = ∅ from Set.Ico_self _,
    Set.union_empty] at freed

/-- Free memory is itself a pool from which nothing is taken yet. -/
theorem fresh (paged : Paged low high pool table extents blocks lost) :
    Paged low high (cover extents) table extents [] ∅ where
  sound := paged.sound.mono (by simp)
  aligned := paged.aligned
  exclusive := List.Pairwise.nil
  conserved := by simp
  spent := by simp

end Paged

/-! ## Free memory -/

/-- A table describes one list of holes. -/
theorem Holds.unique {table : HoleTable} {first second : List Extent}
    (one : table.Holds first) (other : table.Holds second) : first = second := by
  obtain ⟨holes, _, threads, rfl⟩ := one
  obtain ⟨others, _, threads', rfl⟩ := other
  rw [LinkedPath.path_unique threads.holePath threads'.holePath]

/-- The free addresses of a table. -/
def freeBytes (table : HoleTable) : Set Nat :=
  {byte | ∃ extents, table.Holds extents ∧ byte ∈ cover extents}

/-- The free addresses are those of the holes. -/
theorem freeBytes_eq {table : HoleTable} {extents : List Extent} (holds : table.Holds extents) :
    table.freeBytes = cover extents := by
  ext byte
  constructor
  · rintro ⟨others, holds', inside⟩
    rwa [holds.unique holds']
  · exact fun inside => ⟨extents, holds, inside⟩

/-- One hole that is larger than a request serves it from its base. -/
theorem allocatePages_single {table : HoleTable} {base last len count : Nat}
    (holds : table.Holds [⟨base, last - base⟩]) (addressable : last ≤ 2 ^ 32) (positive : 0 < base)
    (boundary : base % 0x1000 = 0) (rounded : roundupPage len = count * 0x1000)
    (room : base + count * 0x1000 < last) :
    ∃ after, table.allocatePages len = .ok (base, after) ∧
      after.Holds [⟨base + count * 0x1000, last - (base + count * 0x1000)⟩] := by
  have coalesced : Coalesced [⟨base, last - base⟩] := coalesced_singleton (by simp only; omega)
  have ordered : Ordered base last [⟨base, last - base⟩] := by
    refine .of_coalesced coalesced ?_ addressable (by omega)
    intro extent listed
    obtain rfl := List.mem_singleton.mp listed
    simp only [Extent.stop]
    omega
  have scan := allocate_refines (count * 0x1000) 0x1000 (by decide) (by omega) holds coalesced ordered
  have fits : Fits (count * 0x1000) 0x1000 ⟨base, last - base⟩ := by
    simp only [Fits, padding_of_aligned boundary]
    omega
  have part : last - base ≠ count * 0x1000 := by omega
  have left : last - base - count * 0x1000 = last - (base + count * 0x1000) := by omega
  rw [firstFit, if_pos fits] at scan
  simp only [padding_of_aligned boundary, Nat.add_zero, trim, part, ↓reduceIte, left,
    List.append_nil] at scan
  obtain ⟨after, ran, holds⟩ := scan
  rw [u32_of_lt (by omega)] at ran
  exact ⟨after, by rw [HoleTable.allocatePages, rounded, ran], holds⟩

end HoleTable

/-- A memory space whose free memory is one hole serves a request from its base. -/
theorem MemorySpace.allocatePages_single {space : MemorySpace} {base last len count : Nat}
    (holds : space.table.Holds [⟨base, last - base⟩]) (addressable : last ≤ 2 ^ 32)
    (positive : 0 < base) (boundary : base % 0x1000 = 0)
    (rounded : HoleTable.roundupPage len = count * 0x1000) (room : base + count * 0x1000 < last) :
    ∃ table, space.allocatePages len = .ok (base, { space with table := table }) ∧
      table.Holds [⟨base + count * 0x1000, last - (base + count * 0x1000)⟩] := by
  obtain ⟨table, gave, left⟩ :=
    HoleTable.allocatePages_single holds addressable positive boundary rounded room
  rw [HoleTable.allocatePages] at gave
  refine ⟨table, ?_, left⟩
  rw [MemorySpace.allocatePages, MemorySpace.allocate, gave]
  rfl

/-! ## Histories of whole pages -/

/-- A call that takes whole pages or gives back a whole block. -/
def MemoryCall.Pagewise : MemoryCall → Prop
  | .allocate _ _ => False
  | .allocatePages len => 0 < len ∧ len + 0x1000 ≤ 2 ^ 64
  | .free _ => True

namespace Tenancy

open HoleTable

/-- The tenancy's table is page-granular, and so are its blocks. -/
def Pagewise (low high : Nat) (pool : Set Nat) (tenancy : Tenancy) : Prop :=
  (∃ extents, Paged low high pool tenancy.space.table extents tenancy.live ∅) ∧
    ∀ block ∈ tenancy.live, block.base % 0x1000 = 0 ∧ 0 < block.len

variable {low high : Nat} {pool : Set Nat} {tenancy after : Tenancy}

/-- A call on whole pages keeps the tenancy page-granular. -/
theorem Pagewise.step (pagewise : Pagewise low high pool tenancy) (region : Region low high)
    {call : MemoryCall} (whole : call.Pagewise) (stepped : machine.step tenancy call = some after) :
    Pagewise low high pool after := by
  obtain ⟨⟨extents, paged⟩, blocks⟩ := pagewise
  cases call with
  | allocate len align => exact absurd whole id
  | allocatePages len =>
    simp only [machine, allocateStep] at stepped
    cases ran : tenancy.space.allocate (roundupPage len) 0x1000 with
    | error fault =>
      rw [ran] at stepped
      cases fault <;> simp at stepped
      subst stepped
      exact ⟨⟨extents, paged⟩, blocks⟩
    | ok result =>
      obtain ⟨address, space⟩ := result
      rw [ran] at stepped
      obtain rfl := Option.some.inj stepped
      obtain ⟨⟨found, table⟩, gave, same⟩ := bind_ok.mp ran
      cases same
      obtain ⟨boundary, left, next⟩ := paged.allocatePages region whole.1 whole.2 gave
      obtain ⟨count, rounded, atLeast, -⟩ := roundupPage_spec whole.2
      refine ⟨⟨left, next⟩, List.forall_mem_cons.mpr ⟨⟨boundary, ?_⟩, blocks⟩⟩
      have nonempty := whole.1
      simp only [rounded]
      omega
  | free block =>
    simp only [machine] at stepped
    split at stepped
    case isFalse => contradiction
    case isTrue live =>
      cases ran : tenancy.space.free block.base block.len with
      | error fault => simp [ran] at stepped
      | ok space =>
        rw [ran] at stepped
        obtain rfl := Option.some.inj stepped
        obtain ⟨table, freed, same⟩ := bind_ok.mp ran
        cases same
        obtain ⟨boundary, nonempty⟩ := blocks block live
        exact ⟨⟨_, paged.freeWhole region live boundary nonempty freed⟩,
          fun other kept => blocks other (List.mem_of_mem_erase kept)⟩

/-- Every history of calls on whole pages is page-granular. -/
theorem Pagewise.run (region : Region low high) {calls : List MemoryCall}
    (whole : ∀ call ∈ calls, call.Pagewise) (pagewise : Pagewise low high pool tenancy)
    (ran : machine.run tenancy calls = some after) : Pagewise low high pool after := by
  induction calls generalizing tenancy with
  | nil =>
    obtain rfl := Option.some.inj ran
    exact pagewise
  | cons call rest ih =>
    rw [Machine.run_cons, Option.bind_eq_some_iff] at ran
    obtain ⟨middle, stepped, ran⟩ := ran
    obtain ⟨first, whole⟩ := List.forall_mem_cons.mp whole
    exact ih whole (pagewise.step region first stepped) ran

end Tenancy

namespace Backing

/-- What the constructor releases. -/
def released : Backing → Extent
  | shared _ fileSize => ⟨0x1000, fileSize - 0x1000⟩
  | vfio iovaBase size => ⟨iovaBase, iovaBase + size⟩

variable {backing : Backing} {space : MemorySpace}

/-- An admitted constructor releases a region that begins at a page boundary. -/
theorem released_ok (admitted : backing.Admitted) (built : backing.construct = .ok space) :
    HoleTable.Region backing.released.base backing.released.stop ∧
      backing.released.base % 0x1000 = 0 ∧ 0 < backing.released.len ∧
      HoleTable.init.free backing.released.base backing.released.len = .ok space.table := by
  cases backing with
  | shared file fileSize =>
    obtain ⟨atLeast, atMost⟩ := admitted
    have freed := (MemorySpace.shared_ok (by omega) (by omega) built).1
    simp only [released, Extent.stop]
    exact ⟨⟨by omega, by omega⟩, by decide, by omega, freed⟩
  | vfio iovaBase size =>
    obtain ⟨boundary, atMost⟩ := admitted
    obtain ⟨freed, -, -, nonempty⟩ := MemorySpace.vfio_ok (by omega) built
    simp only [released, Extent.stop]
    exact ⟨⟨by omega, by omega⟩, boundary, by omega, freed⟩

/-- An admitted memory space is page-granular from the start. -/
theorem pagewise_start (admitted : backing.Admitted) (built : backing.construct = .ok space) :
    Tenancy.Pagewise backing.released.base backing.released.stop (cover [backing.released])
      ⟨space, []⟩ := by
  obtain ⟨region, boundary, nonempty, freed⟩ := released_ok admitted built
  have sound := HoleTable.Sound.start region freed
  rw [if_neg (Nat.ne_of_gt nonempty), ← cover_nil] at sound
  have aligned : Aligned 0x1000 [backing.released] := by simp [Aligned, boundary]
  exact ⟨⟨[backing.released], sound, aligned, List.Pairwise.nil, by simp, by simp⟩,
    by simp⟩

/-- An admitted memory space after any history of calls on whole pages has its free memory in
holes that begin at page boundaries. -/
theorem pagewise (admitted : backing.Admitted) (built : backing.construct = .ok space)
    {calls : List MemoryCall} (whole : ∀ call ∈ calls, call.Pagewise) {tenancy : Tenancy}
    (ran : Tenancy.machine.run ⟨space, []⟩ calls = some tenancy) :
    ∃ low high extents, HoleTable.Region low high ∧
      HoleTable.Paged low high (cover extents) tenancy.space.table extents [] ∅ := by
  have region := (released_ok admitted built).1
  obtain ⟨⟨extents, paged⟩, -⟩ := (pagewise_start admitted built).run region whole ran
  exact ⟨_, _, extents, region, paged.fresh⟩

end Backing

end McmqHost
