import McmqHost.Base.Machine
import McmqHost.MemorySpace.Paging

/-!
# The accounts of the allocator

The bytes of the holes and of the live blocks add up to the region as long as no block is
placed behind padding. Padding is meant to go back to the hole before it, but the test for
that compares the end of that hole with the block instead of with the padding, and never
succeeds: what is skipped once is neither free nor live again.
-/

namespace McmqHost

open Extents

namespace HoleTable

/-- The extents on the hole list; the first argument bounds the slots to visit. -/
def walk (table : HoleTable) : Nat → Option Slot → List Extent
  | 0, _ => []
  | _ + 1, none => []
  | fuel + 1, some hp => table.extent hp :: walk table fuel (table.next hp)

/-- The extents of all holes, in order. -/
def holes (table : HoleTable) : List Extent := table.walk nrHoles table.holeHead

/-- Walking a path lists it. -/
theorem walk_eq {table : HoleTable} {fuel : Nat} {head : Option Slot} {slots : List Slot}
    (path : LinkedPath.Path table.next head slots none) (enough : slots.length ≤ fuel) :
    table.walk fuel head = slots.map table.extent := by
  induction slots generalizing fuel head with
  | nil =>
    rw [LinkedPath.path_nil.mp path]
    cases fuel <;> rfl
  | cons slot rest ih =>
    obtain ⟨rfl, link⟩ := LinkedPath.path_cons.mp path
    obtain ⟨fuel, rfl⟩ := Nat.exists_eq_succ_of_ne_zero (by simp at enough; omega : fuel ≠ 0)
    rw [walk, ih link (by simpa using enough), List.map_cons]

/-- The hole list is the one that the table describes. -/
theorem holes_eq {table : HoleTable} {extents : List Extent} (holds : table.Holds extents) :
    table.holes = extents := by
  obtain ⟨slots, unused, threads, rfl⟩ := holds
  have count := threads.count
  exact walk_eq threads.holePath (by omega)

end HoleTable

/-- A hole table and the blocks that it has handed out. -/
structure Books where
  /-- The table. -/
  table : HoleTable
  /-- Blocks allocated and not yet freed, latest first. -/
  live : List Extent

/-- Calls on a hole table; blocks are freed as they were allocated. -/
inductive BookCall
  /-- `allocate(len, align)`. -/
  | allocate (len align : Nat)
  /-- `free` of a block in full. -/
  | free (block : Extent)

namespace Books

/-- Successful calls, with a length and an alignment of at least one. -/
def machine : Machine Books BookCall where
  step books
    | .allocate len align =>
      if 0 < len ∧ 0 < align then
        match books.table.allocate len align with
        | .ok (address, table) => some ⟨table, ⟨address, len⟩ :: books.live⟩
        | .error _ => none
      else none
    | .free block =>
      if block ∈ books.live then
        match books.table.free block.base block.len with
        | .ok table => some ⟨table, books.live.erase block⟩
        | .error _ => none
      else none

/-- The first hole that fits a request begins at a multiple of its alignment, and the sizes do not
overflow. -/
def Snug (books : Books) : BookCall → Prop
  | .allocate len align => len + align ≤ 2 ^ 64 ∧
    ∀ hole, books.table.holes.find? (fun hole => Fits len align hole) = some hole →
      hole.base % align = 0
  | .free _ => True

/-- The holes and the live blocks make up the region. -/
structure Balanced (base len : Nat) (books : Books) : Prop where
  /-- The table is sound. -/
  sound : ∃ extents, HoleTable.Sound base (base + len) books.table extents (cover books.live) ∧
    cover extents ∪ cover books.live = Set.Ico base (base + len) ∧
    total extents + total books.live = len
  /-- Live blocks are disjoint. -/
  exclusive : Exclusive books.live
  /-- No live block is empty. -/
  nonempty : ∀ block ∈ books.live, 0 < block.len

namespace Balanced

variable {base len : Nat} {books after : Books}

/-- A snug allocation moves bytes from the holes to the live blocks. -/
theorem allocate (balanced : Balanced base len books)
    (region : HoleTable.Region base (base + len)) {count align : Nat}
    (snug : books.Snug (.allocate count align))
    (stepped : machine.step books (.allocate count align) = some after) :
    Balanced base len after := by
  obtain ⟨extents, sound, whole, sum⟩ := balanced.sound
  obtain ⟨noWrap, aligned⟩ := snug
  rw [HoleTable.holes_eq sound.holds] at aligned
  simp only [machine] at stepped
  split at stepped
  · rename_i sized
    split at stepped
    · rename_i address table ran
      obtain rfl := Option.some.inj stepped
      obtain ⟨found, left, fit, rfl, -, -, next⟩ := sound.allocate region sized.2 noWrap ran
      obtain ⟨hole, first, placed, moved⟩ := firstFit_total fit
      obtain ⟨start, same, -, taken, remain⟩ := firstFit_taken sound.coalesced fit
      obtain rfl := Option.some.inj (same.symm.trans first)
      rw [padding_of_aligned (aligned start first), Nat.add_zero] at placed moved
      subst placed
      rw [HoleTable.Sound.u32_found region sound sized.1 fit]
      have block : Extent.bytes ⟨start.base, count⟩ = Set.Ico start.base (start.base + count) := rfl
      refine ⟨⟨left, ?_, ?_, ?_⟩, ?_, ?_⟩
      · rw [cover_cons, block, Set.union_comm]
        exact next
      · rw [cover_cons, block, remain, ← Set.union_assoc, Set.sdiff_union_of_subset taken, whole]
      · rw [total_cons]
        simp only
        omega
      · exact exclusive_cons.mpr ⟨sound.apart.mono_left taken, balanced.exclusive⟩
      · intro other listed
        obtain rfl | listed := List.mem_cons.mp listed
        · exact sized.1
        · exact balanced.nonempty other listed
    · cases stepped
  · cases stepped

/-- Freeing moves bytes from the live blocks to the holes. -/
theorem free (balanced : Balanced base len books)
    (region : HoleTable.Region base (base + len)) {block : Extent}
    (stepped : machine.step books (.free block) = some after) : Balanced base len after := by
  obtain ⟨extents, sound, whole, sum⟩ := balanced.sound
  simp only [machine] at stepped
  split at stepped
  · rename_i live
    split at stepped
    · rename_i table ran
      obtain rfl := Option.some.inj stepped
      obtain ⟨remain, exclusive⟩ := cover_erase balanced.exclusive live
      have owned : block.bytes ⊆ cover books.live :=
        fun byte inside => mem_cover.mpr ⟨block, live, inside⟩
      have next := sound.free_ok region (balanced.nonempty block live) owned ran
      refine ⟨⟨release block extents, ?_, ?_, ?_⟩, exclusive, ?_⟩
      · rw [remain]
        exact next
      · rw [remain, cover_release, Set.union_comm block.bytes, Set.union_assoc,
          Set.union_sdiff_cancel owned, whole]
      · rw [total_release]
        have kept := total_erase live
        simp only
        omega
      · exact fun other kept => balanced.nonempty other (List.mem_of_mem_erase kept)
    · cases stepped
  · cases stepped

/-- Every snug call keeps the accounts balanced. -/
theorem step (balanced : Balanced base len books)
    (region : HoleTable.Region base (base + len)) {call : BookCall} (snug : books.Snug call)
    (stepped : machine.step books call = some after) : Balanced base len after := by
  cases call with
  | allocate count align => exact balanced.allocate region snug stepped
  | free block => exact balanced.free region stepped

/-- The accounts of the table that the constructor leaves. -/
theorem start {table : HoleTable} (region : HoleTable.Region base (base + len))
    (built : HoleTable.init.free base len = .ok table) : Balanced base len ⟨table, []⟩ := by
  refine ⟨⟨_, by simpa using HoleTable.Sound.start region built, ?_, ?_⟩, .nil, by simp⟩
  · split
    · rename_i empty
      simp [empty]
    · simp [Extent.bytes, Extent.stop]
  · split
    · rename_i empty
      simp [empty]
    · simp

/-- With nothing live, the holes are those of the start. -/
theorem emptied {table : HoleTable} (balanced : Balanced base len books)
    (region : HoleTable.Region base (base + len))
    (built : HoleTable.init.free base len = .ok table) (none : books.live = []) :
    books.table.holes = table.holes := by
  obtain ⟨extents, sound, whole, -⟩ := balanced.sound
  have start := HoleTable.Sound.start region built
  rw [none, cover_nil, Set.union_empty] at whole
  rw [HoleTable.holes_eq sound.holds, HoleTable.holes_eq start.holds]
  apply coalesced_unique sound.coalesced start.coalesced
  rw [whole]
  split
  · rename_i empty
    simp [empty]
  · simp [Extent.bytes, Extent.stop]

end Balanced

/-- A region held in one hole serves a request for all of it. -/
theorem whole_succeeds {base len align : Nat} {table start : HoleTable}
    (region : HoleTable.Region base (base + len)) (built : HoleTable.init.free base len = .ok start)
    (balanced : Balanced base len ⟨table, []⟩) (nonempty : 0 < len) (positive : 0 < align)
    (noWrap : len + align ≤ 2 ^ 64) (aligned : base % align = 0) :
    ∃ after, table.allocate len align = .ok (base, after) := by
  obtain ⟨extents, sound, -⟩ := balanced.sound
  have single : extents = [⟨base, len⟩] := by
    have same := balanced.emptied region built rfl
    have begun := HoleTable.Sound.start region built
    rw [if_neg (Nat.ne_of_gt nonempty)] at begun
    rwa [HoleTable.holes_eq sound.holds, HoleTable.holes_eq begun.holds] at same
  have scan := HoleTable.allocate_refines _ _ positive noWrap sound.holds sound.coalesced
    (sound.ordered region)
  have fits : Fits len align ⟨base, len⟩ := by
    simp [Fits, padding_of_aligned aligned]
  have addressable := region.addressable
  have address : u32 base = base := u32_of_lt (by omega)
  rw [single] at scan
  simp only [firstFit, fits, ↓reduceIte, padding_of_aligned aligned, Nat.add_zero, address] at scan
  obtain ⟨after, ran, -⟩ := scan
  exact ⟨after, ran⟩

/-- **Conservation.** In every run from a released region whose allocations are snug, the holes and
the live blocks add up to the region; once nothing is live, the holes are those of the start, and a
request for the whole region succeeds. -/
theorem conserved {base len : Nat} (addressable : base + len ≤ 2 ^ 32) (short : len < 2 ^ 32)
    {table : HoleTable} (built : HoleTable.init.free base len = .ok table) {calls : List BookCall}
    {books : Books} (ran : machine.run ⟨table, []⟩ calls = some books)
    (snug : ∀ before call after, machine.Takes ⟨table, []⟩ calls before call after →
      before.Snug call) :
    total books.table.holes + total books.live = len ∧
    (books.live = [] → books.table.holes = table.holes ∧
      ∀ align, 0 < len → 0 < align → len + align ≤ 2 ^ 64 → base % align = 0 →
        ∃ after, books.table.allocate len align = .ok (base, after)) := by
  have region : HoleTable.Region base (base + len) := ⟨addressable, by omega⟩
  have balanced := Machine.run_guarded (Balanced base len) (fun before call _ => before.Snug call)
    (fun _ _ _ balanced snug stepped => balanced.step region snug stepped) (.start region built)
    snug ran
  obtain ⟨extents, sound, -, sum⟩ := balanced.sound
  refine ⟨by rwa [HoleTable.holes_eq sound.holds], ?_⟩
  intro none
  refine ⟨balanced.emptied region built none, ?_⟩
  intro align nonempty positive noWrap aligned
  obtain ⟨table, live⟩ := books
  subst none
  exact whole_succeeds region built balanced nonempty positive noWrap aligned

/-- One page is allocated in a region of two and freed again. -/
def onePage : List BookCall := [.allocate 0x1000 0x1000, .free ⟨0x1000, 0x1000⟩]

/-- After a page was allocated and freed its region can be allocated as a whole. -/
theorem conserved_page : ∃ table books, HoleTable.init.free 0x1000 0x2000 = .ok table ∧
    machine.run ⟨table, []⟩ onePage = some books ∧ books.live = [] ∧
    (total books.table.holes = 0x2000 ∧
      ∃ after, books.table.allocate 0x2000 1 = .ok (0x1000, after)) := by
  have ran : ∃ table middle books, HoleTable.init.free 0x1000 0x2000 = .ok table ∧
      machine.step ⟨table, []⟩ (.allocate 0x1000 0x1000) = some middle ∧
      machine.step middle (.free ⟨0x1000, 0x1000⟩) = some books ∧ books.live = [] ∧
      table.holes = [⟨0x1000, 0x2000⟩] := ⟨_, _, _, rfl, rfl, rfl, rfl, rfl⟩
  obtain ⟨table, middle, books, built, first, second, none, holes⟩ := ran
  have ran : machine.run ⟨table, []⟩ onePage = some books := by
    rw [onePage, Machine.run_cons, first, Option.bind_some, Machine.run_cons, second]
    rfl
  have snug : ∀ before call after, machine.Takes ⟨table, []⟩ onePage before call after →
      before.Snug call := by
    intro before call after taken
    obtain ⟨rfl, rfl, -⟩ | ⟨next, -, taken⟩ := Machine.takes_cons.mp taken
    · refine ⟨by decide, ?_⟩
      intro hole found
      have listed := List.mem_of_find?_eq_some found
      rw [show (⟨table, []⟩ : Books).table.holes = [⟨0x1000, 0x2000⟩] from holes] at listed
      rw [List.mem_singleton.mp listed]
      decide
    · obtain ⟨-, rfl, -⟩ | ⟨next, -, taken⟩ := Machine.takes_cons.mp taken
      · trivial
      · exact absurd taken Machine.not_takes_nil
  obtain ⟨sum, whole⟩ := conserved (by decide) (by decide) built ran snug
  rw [none, total_nil, Nat.add_zero] at sum
  exact ⟨table, books, built, ran, none, sum,
    (whole none).2 1 (by decide) (by decide) (by decide) (by decide)⟩

/-- A byte, and then a page behind it: the padding between them is lost when both are freed. -/
def byteAndPage : List BookCall :=
  [.allocate 1 1, .allocate 0x1000 0x1000, .free ⟨0x1000, 1⟩, .free ⟨0x2000, 0x1000⟩]

/-- With nothing live, 4095 bytes of the region are not free, and it cannot be allocated again. -/
theorem padding_lost : ∃ table books, HoleTable.init.free 0x1000 0x3000 = .ok table ∧
    machine.run ⟨table, []⟩ byteAndPage = some books ∧ books.live = [] ∧
    total books.table.holes + total books.live + 0xfff = 0x3000 ∧
    books.table.holes = [⟨0x1000, 1⟩, ⟨0x2000, 0x2000⟩] ∧
    books.table.allocate 0x3000 1 = .error .memoryNotAvailable :=
  ⟨_, _, rfl, rfl, rfl, rfl, rfl, rfl⟩

end Books

end McmqHost
