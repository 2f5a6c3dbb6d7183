import McmqHost.MemorySpace.Paging

/-!
# How many holes there are

The table has 512 slots, and `free` takes a new one before it looks for a hole to merge with: with no
slot unused it ends the program, whatever it was asked to free. Holes are kept apart by blocks in
use, so few blocks leave few holes. The limit that follows is exact: with one block more, a history
of calls leads to a table without an unused slot.
-/

namespace McmqHost

open Extents

namespace HoleTable

variable {table : HoleTable} {extents : List Extent}

/-- A slot is unused as long as there are fewer holes than slots. -/
theorem Holds.room (holds : table.Holds extents) :
    table.freeSlots ≠ none ↔ extents.length < nrHoles := by
  obtain ⟨holes, slots, threads, rfl⟩ := holds
  have count := threads.count
  have start := LinkedPath.path_start threads.slotPath
  rw [List.length_map]
  cases slots with
  | nil =>
    rw [List.length_nil] at count
    simp [start]
    omega
  | cons slot rest =>
    rw [List.length_cons] at count
    simp [start]
    omega

/-- With no slot unused `free` ends the program. -/
theorem free_full (holds : table.Holds extents) (full : extents.length = nrHoles) {addr len : Nat}
    (nonempty : 0 < len) : table.free addr len = .error .abort := by
  have none : table.freeSlots = none := by
    by_contra some
    have fewer := holds.room.mp some
    omega
  rw [free, if_neg (Nat.ne_of_gt nonempty), none]
  rfl

/-- Page-granular memory that has lost nothing has at most one hole for each block in use and each
hole of the start. -/
theorem Paged.length_le {low high : Nat} {initial blocks : List Extent}
    (paged : Paged low high (cover initial) table extents blocks ∅) :
    extents.length ≤ blocks.length + initial.length := by
  have whole := paged.conserved
  rw [Set.union_empty] at whole
  exact paged.sound.coalesced.length_le paged.sound.apart whole

/-- With few blocks free memory lies in few ranges. -/
theorem Paged.few {low high : Nat} {initial blocks : List Extent}
    (paged : Paged low high (cover initial) table extents blocks ∅)
    (few : blocks.length + initial.length < nrHoles) : (starts table.freeBytes).ncard < nrHoles := by
  rw [freeBytes_eq paged.sound.holds, paged.sound.coalesced.ncard_starts]
  exact Nat.lt_of_le_of_lt paged.length_le few

/-- `free` of a block in use returns exactly when free memory lies in fewer ranges than there are
slots. -/
theorem Paged.gives_iff {low high : Nat} {initial blocks : List Extent} {lost : Set Nat}
    (paged : Paged low high (cover initial) table extents blocks lost) (region : Region low high)
    {block : Extent} (used : block ∈ blocks) {len : Nat} (nonempty : 0 < len)
    (within : len ≤ block.len) :
    (∃ after, table.free block.base len = .ok after) ↔ (starts table.freeBytes).ncard < nrHoles := by
  rw [freeBytes_eq paged.sound.holds, paged.sound.coalesced.ncard_starts,
    ← paged.sound.holds.room]
  constructor
  · rintro ⟨after, freed⟩
    exact Sound.room_of_free nonempty freed
  intro room
  have live : Set.Ico block.base (block.base + len) ⊆ cover blocks := by
    intro byte inside
    have upper := inside.2
    exact ⟨block, used, inside.1, Nat.lt_of_lt_of_le upper (Nat.add_le_add_left within _)⟩
  obtain ⟨after, ran, -⟩ := paged.sound.free region nonempty live room
  exact ⟨after, ran⟩

end HoleTable

namespace Tenancy

open HoleTable

variable {backing : Backing} {space : MemorySpace} {tenancy : Tenancy}

/-- **No `free` ends the program while at most 510 blocks are live**: after every history of calls on
whole pages, each live block can be given back. -/
theorem free_returns (admitted : backing.Admitted) (built : backing.construct = .ok space)
    {calls : List MemoryCall} (whole : ∀ call ∈ calls, call.Pagewise)
    (history : machine.run ⟨space, []⟩ calls = some tenancy) (few : tenancy.live.length ≤ 510)
    {block : Extent} (live : block ∈ tenancy.live) :
    ∃ after, tenancy.space.free block.base block.len = .ok after := by
  have region := (Backing.released_ok admitted built).1
  obtain ⟨⟨extents, paged⟩, blocks⟩ :=
    (Backing.pagewise_start admitted built).run region whole history
  have nonempty := (blocks block live).2
  have fewer : tenancy.live.length + [backing.released].length < nrHoles := by
    rw [List.length_singleton, nrHoles]
    omega
  obtain ⟨table, freed⟩ := (paged.gives_iff region live nonempty (le_refl _)).mpr (paged.few fewer)
  exact ⟨{ tenancy.space with table := table }, bind_ok.mpr ⟨table, freed, rfl⟩⟩

/-- The one page of a file of two pages can be given back. -/
theorem free_returns_page : ∃ space tenancy,
    (Backing.shared (fun _ => 0) 0x2000).construct = .ok space ∧
      machine.run ⟨space, []⟩ [.allocatePages 0x1000] = some tenancy ∧
      tenancy.live = [⟨0x1000, 0x1000⟩] ∧ ∃ after, tenancy.space.free 0x1000 0x1000 = .ok after := by
  have ran : ∃ space tenancy, (Backing.shared (fun _ => 0) 0x2000).construct = .ok space ∧
      machine.run ⟨space, []⟩ [.allocatePages 0x1000] = some tenancy ∧
      tenancy.live = [⟨0x1000, 0x1000⟩] := ⟨_, _, rfl, rfl, rfl⟩
  obtain ⟨space, tenancy, built, history, live⟩ := ran
  have whole : ∀ call ∈ [MemoryCall.allocatePages 0x1000], call.Pagewise := by
    intro call listed
    rw [List.mem_singleton.mp listed]
    exact ⟨by decide, by decide⟩
  have few : tenancy.live.length ≤ 510 := by rw [live]; decide
  have used : ⟨0x1000, 0x1000⟩ ∈ tenancy.live := by rw [live]; exact List.mem_singleton_self _
  have admitted : (Backing.shared (fun _ => 0) 0x2000).Admitted := ⟨by decide, by decide⟩
  exact ⟨space, tenancy, built, history, live, free_returns admitted built whole history few used⟩

/-! ## The limit is reached -/

/-- A page of a region. -/
def pageAt (base index : Nat) : Extent := ⟨base + index * 0x1000, 0x1000⟩

/-- The holes when a number of pages were taken and some of the even ones given back. -/
def comb (base len taken back : Nat) : List Extent :=
  (List.range back).map (fun index => pageAt base (2 * index)) ++
    [⟨base + taken * 0x1000, len - taken * 0x1000⟩]

/-- The tenancy then. -/
structure Combed (base len taken back : Nat) (tenancy : Tenancy) : Prop where
  /-- Memory is page-granular. -/
  pagewise : Pagewise base (base + len) (cover [⟨base, len⟩]) tenancy
  /-- The holes. -/
  holds : tenancy.space.table.Holds (comb base len taken back)
  /-- The number of live blocks. -/
  count : tenancy.live.length + back = taken
  /-- The even pages that were not given back. -/
  listed : ∀ index, back ≤ index → 2 * index < taken → pageAt base (2 * index) ∈ tenancy.live

variable {base len taken back : Nat}

theorem coalesced_comb (below : taken * 0x1000 < len) (fewer : 2 * back ≤ taken) :
    Coalesced (comb base len taken back) := by
  refine coalesced_append.mpr ⟨⟨?_, ?_⟩, coalesced_singleton (by simp only; omega), ?_⟩
  · rw [List.pairwise_map]
    refine List.pairwise_lt_range.imp ?_
    intro first second before
    simp only [pageAt, Extent.stop]
    omega
  · intro extent listed
    obtain ⟨index, -, rfl⟩ := List.mem_map.mp listed
    simp [pageAt]
  · intro left listed right last
    obtain ⟨index, inside, rfl⟩ := List.mem_map.mp listed
    obtain rfl := List.mem_singleton.mp last
    have less := List.mem_range.mp inside
    simp only [pageAt, Extent.stop]
    omega

/-- Giving back the next even page lengthens the comb. -/
theorem free_comb {table : HoleTable} (region : Region base (base + len))
    (holds : table.Holds (comb base len taken back)) (below : taken * 0x1000 < len)
    (more : 2 * back + 2 ≤ taken) (room : back + 1 < nrHoles) :
    ∃ next, table.free (pageAt base (2 * back)).base 0x1000 = .ok next ∧
      next.Holds (comb base len taken (back + 1)) := by
  have coalesced : Coalesced (comb base len taken back) := coalesced_comb below (by omega)
  have ordered : Ordered base (base + len) (comb base len taken back) := by
    refine .of_coalesced coalesced ?_ region.addressable (by have short := region.short; omega)
    intro extent listed
    obtain tooth | last := List.mem_append.mp listed
    · obtain ⟨index, inside, rfl⟩ := List.mem_map.mp tooth
      have less := List.mem_range.mp inside
      simp only [pageAt, Extent.stop]
      omega
    · obtain rfl := List.mem_singleton.mp last
      simp only [Extent.stop]
      omega
  have apart : Disjoint (Extent.bytes (pageAt base (2 * back))) (cover (comb base len taken back)) := by
    rw [Set.disjoint_left]
    rintro byte ⟨lower, upper⟩ inside
    obtain ⟨extent, listed, first, last⟩ := mem_cover.mp inside
    simp only [pageAt, Extent.stop] at lower upper
    obtain tooth | tail := List.mem_append.mp listed
    · obtain ⟨index, inside, rfl⟩ := List.mem_map.mp tooth
      have less := List.mem_range.mp inside
      simp only [pageAt, Extent.stop] at first last
      omega
    · obtain rfl := List.mem_singleton.mp tail
      simp only at first
      omega
  have fits : (pageAt base (2 * back)).base + 0x1000 ≤ base + len := by
    simp only [pageAt]
    omega
  obtain ⟨next, freed, left⟩ := free_refines holds coalesced ordered (by decide)
    (Nat.le_add_right _ _) fits apart (holds.room.mpr (by simpa [comb] using room))
  refine ⟨next, freed, ?_⟩
  -- Both lists are coalesced and cover the same bytes.
  have same : release (pageAt base (2 * back)) (comb base len taken back) =
      comb base len taken (back + 1) := by
    apply coalesced_unique (coalesced_release (by simp [pageAt]) coalesced apart)
      (coalesced_comb below (by omega))
    rw [cover_release, comb, comb, List.range_succ, List.map_append, List.map_singleton]
    simp only [cover_append, cover_cons, cover_nil, Set.union_empty]
    rw [Set.union_left_comm, ← Set.union_assoc]
  exact same ▸ left

/-- One more page is taken. -/
theorem Combed.takePage (combed : Combed base len taken 0 tenancy)
    (region : Region base (base + len)) (boundary : base % 0x1000 = 0)
    (room : (taken + 1) * 0x1000 < len) :
    ∃ after, machine.step tenancy (.allocatePages 0x1000) = some after ∧
      Combed base len (taken + 1) 0 after := by
  obtain ⟨⟨extents, paged⟩, -⟩ := combed.pagewise
  obtain rfl := paged.sound.holds.unique combed.holds
  have scan := allocate_refines 0x1000 0x1000 (by decide) (by decide) combed.holds
    paged.sound.coalesced (paged.sound.ordered region)
  have start : (base + taken * 0x1000) % 0x1000 = 0 := by omega
  have fits : Fits 0x1000 0x1000 ⟨base + taken * 0x1000, len - taken * 0x1000⟩ := by
    simp only [Fits, padding_of_aligned start]
    omega
  have part : len - taken * 0x1000 ≠ 0x1000 := by omega
  have behind : base + taken * 0x1000 + 0x1000 = base + (taken + 1) * 0x1000 := by omega
  have left : len - taken * 0x1000 - 0x1000 = len - (taken + 1) * 0x1000 := by omega
  rw [comb, List.range_zero, List.map_nil, List.nil_append, firstFit, if_pos fits] at scan
  simp only [padding_of_aligned start, Nat.add_zero, trim, part, ↓reduceIte, left, behind,
    List.append_nil] at scan
  obtain ⟨table, ran, holds⟩ := scan
  have addressable := region.addressable
  rw [u32_of_lt (by omega)] at ran
  have stepped : machine.step tenancy (.allocatePages 0x1000) = some
      ⟨{ tenancy.space with table := table }, pageAt base taken :: tenancy.live⟩ := by
    have gave : tenancy.space.allocate 0x1000 0x1000 =
        .ok (base + taken * 0x1000, { tenancy.space with table := table }) :=
      bind_ok.mpr ⟨_, ran, rfl⟩
    show tenancy.allocateStep (roundupPage 0x1000) 0x1000 = _
    rw [roundupPage_whole (by decide), allocateStep, gave]
    rfl
  have whole : (MemoryCall.allocatePages 0x1000).Pagewise := ⟨by decide, by decide⟩
  have count := combed.count
  refine ⟨_, stepped, combed.pagewise.step region whole stepped, holds, ?_, ?_⟩
  · rw [List.length_cons]
    omega
  · intro index _ below
    by_cases last : 2 * index = taken
    · rw [last]
      exact List.mem_cons_self
    · exact List.mem_cons_of_mem _ (combed.listed index (Nat.zero_le _) (by omega))

/-- One more even page is given back. -/
theorem Combed.givePage (combed : Combed base len taken back tenancy)
    (region : Region base (base + len)) (below : taken * 0x1000 < len) (more : 2 * back + 2 ≤ taken)
    (room : back + 1 < nrHoles) :
    ∃ after, machine.step tenancy (.free (pageAt base (2 * back))) = some after ∧
      Combed base len taken (back + 1) after := by
  have live := combed.listed back (le_refl _) (by omega)
  obtain ⟨table, freed, holds⟩ := free_comb region combed.holds below more room
  have stepped : machine.step tenancy (.free (pageAt base (2 * back))) = Option.some
      ⟨{ tenancy.space with table := table }, tenancy.live.erase (pageAt base (2 * back))⟩ := by
    have gave : tenancy.space.free (pageAt base (2 * back)).base 0x1000 =
        .ok { tenancy.space with table := table } := bind_ok.mpr ⟨_, freed, rfl⟩
    show (if pageAt base (2 * back) ∈ tenancy.live then _ else _) = _
    rw [if_pos live]
    simp only [show (pageAt base (2 * back)).len = 0x1000 from rfl, gave]
  have whole : (MemoryCall.free (pageAt base (2 * back))).Pagewise := trivial
  have count := combed.count
  have length := List.length_erase_of_mem live
  have positive := List.length_pos_of_mem live
  refine ⟨_, stepped, combed.pagewise.step region whole stepped, holds, ?_, ?_⟩
  · rw [length]
    omega
  · intro index above within
    have other : pageAt base (2 * index) ≠ pageAt base (2 * back) := by
      intro equal
      have bases := congrArg Extent.base equal
      simp only [pageAt] at bases
      omega
    exact (List.mem_erase_of_ne other).mpr (combed.listed index (by omega) within)

/-- The calls that lead there. -/
def combing (base taken back : Nat) : List MemoryCall :=
  List.replicate taken (.allocatePages 0x1000) ++
    (List.range back).map fun index => .free (pageAt base (2 * index))

/-- Pages are taken from the region one behind the other. -/
theorem combed_taken (region : Region base (base + len)) (boundary : base % 0x1000 = 0)
    (start : Combed base len 0 0 tenancy) (below : taken * 0x1000 < len) :
    ∃ after, machine.run tenancy (List.replicate taken (.allocatePages 0x1000)) = some after ∧
      Combed base len taken 0 after := by
  induction taken with
  | zero => exact ⟨tenancy, rfl, start⟩
  | succ taken ih =>
    have fewer : taken * 0x1000 ≤ (taken + 1) * 0x1000 := Nat.mul_le_mul_right _ (Nat.le_succ taken)
    obtain ⟨middle, ran, combed⟩ := ih (Nat.lt_of_le_of_lt fewer below)
    obtain ⟨after, stepped, next⟩ := combed.takePage region boundary below
    refine ⟨after, ?_, next⟩
    rw [List.replicate_succ', Machine.run_concat]
    exact ⟨middle, ran, stepped⟩

/-- Even pages are given back one behind the other. -/
theorem combed_back {start : Tenancy} (region : Region base (base + len))
    (combed : Combed base len taken 0 start) (below : taken * 0x1000 < len)
    (fewer : 2 * back ≤ taken) (room : back < nrHoles) :
    ∃ after, machine.run start ((List.range back).map fun index =>
        .free (pageAt base (2 * index))) = some after ∧ Combed base len taken back after := by
  induction back with
  | zero => exact ⟨start, rfl, combed⟩
  | succ back ih =>
    obtain ⟨middle, ran, done⟩ := ih (by omega) (by omega)
    obtain ⟨after, stepped, next⟩ := done.givePage region below (by omega) room
    refine ⟨after, ?_, next⟩
    rw [List.range_succ, List.map_append, List.map_singleton, Machine.run_concat]
    exact ⟨middle, ran, stepped⟩

/-- **With 511 live blocks `free` may end the program**: in every memory space of 1023 pages or more
some history of calls on whole pages leaves 511 live blocks of which none can be given back. -/
theorem free_aborts (admitted : backing.Admitted) (built : backing.construct = .ok space)
    (large : 1023 * 0x1000 ≤ backing.released.len) :
    ∃ calls tenancy, (∀ call ∈ calls, call.Pagewise) ∧
      machine.run ⟨space, []⟩ calls = some tenancy ∧ tenancy.live.length = 511 ∧
      ∀ block ∈ tenancy.live, tenancy.space.free block.base block.len = .error .abort := by
  obtain ⟨region, boundary, nonempty, freed⟩ := Backing.released_ok admitted built
  have sound := Sound.start region freed
  rw [if_neg (Nat.ne_of_gt nonempty)] at sound
  have start : Combed backing.released.base backing.released.len 0 0 ⟨space, []⟩ := {
    pagewise := Backing.pagewise_start admitted built
    holds := by simpa [comb] using sound.holds
    count := rfl
    listed := by simp }
  obtain ⟨middle, took, combed⟩ := combed_taken region boundary start
    (show 1022 * 0x1000 < backing.released.len by omega)
  obtain ⟨last, gave, done⟩ := combed_back region combed (by omega)
    (show 2 * 511 ≤ 1022 by decide) (by decide)
  have history : machine.run ⟨space, []⟩ (combing backing.released.base 1022 511) = some last := by
    rw [combing, Machine.run_append, took, Option.bind_some, gave]
  have whole : ∀ call ∈ combing backing.released.base 1022 511, call.Pagewise := by
    intro call listed
    obtain taking | giving := List.mem_append.mp listed
    · rw [List.eq_of_mem_replicate taking]
      exact ⟨by decide, by decide⟩
    · obtain ⟨index, -, rfl⟩ := List.mem_map.mp giving
      trivial
  have count : last.live.length + 511 = 1022 := done.count
  have full : (comb backing.released.base backing.released.len 1022 511).length = nrHoles := by
    rw [comb, List.length_append, List.length_map, List.length_range, List.length_singleton, nrHoles]
  refine ⟨_, last, whole, history, by omega, ?_⟩
  intro block live
  have positive := (done.pagewise.2 block live).2
  rw [MemorySpace.free, free_full done.holds full positive]
  rfl

/-- In a file of 1024 pages the program can be ended so. -/
theorem free_aborts_file : ∃ space calls tenancy,
    (Backing.shared (fun _ => 0) 0x400000).construct = .ok space ∧
      machine.run ⟨space, []⟩ calls = some tenancy ∧ tenancy.live.length = 511 ∧
      ∀ block ∈ tenancy.live, tenancy.space.free block.base block.len = .error .abort := by
  obtain ⟨space, built⟩ : ∃ space, (Backing.shared (fun _ => 0) 0x400000).construct = .ok space :=
    ⟨_, rfl⟩
  have admitted : (Backing.shared (fun _ => 0) 0x400000).Admitted := ⟨by decide, by decide⟩
  obtain ⟨calls, tenancy, -, history, count, ends⟩ := free_aborts admitted built (by decide)
  exact ⟨space, calls, tenancy, built, history, count, ends⟩

end Tenancy

end McmqHost
