import McmqHost.MemorySpace.Paging

/-!
# Memory in use

Users of a memory space take buffers of some bytes, which occupy whole pages, and single
list pages. A list page is given back whole; a buffer may be given back with its own size,
and then the rest of its last page is lost. What is free, in use and lost always adds up to
what was free at first.
-/

namespace McmqHost

open Extents HoleTable

/-- The pages that a buffer takes. -/
def bufferPages (buffer : Extent) : Extent := ⟨buffer.base, roundupPage buffer.len⟩

/-- The bytes of those pages that are not given back with the buffer. -/
def bufferSlack (buffer : Extent) : Extent :=
  ⟨buffer.base + buffer.len, roundupPage buffer.len - buffer.len⟩

/-- One page of memory. -/
def pageExtent (page : Address) : Extent := ⟨page, 0x1000⟩

/-- A size that `allocate_pages` can round up. -/
def Rounds (size : Nat) : Prop := 0 < size ∧ size + 0x1000 ≤ 2 ^ 64

instance (size : Nat) : Decidable (Rounds size) := inferInstanceAs (Decidable (_ ∧ _))

/-- The pool consists of the holes, the pages of the buffers, the list pages and the bytes lost, all
of them page-granular. -/
structure Stocked (low high : Nat) (pool : Set Nat) (table : HoleTable) (buffers : List Extent)
    (pages : List Address) (lost : Set Nat) : Prop where
  /-- The table is page-granular. -/
  paged : ∃ extents, Paged low high pool table extents
    (buffers.map bufferPages ++ pages.map pageExtent) lost
  /-- Buffers begin at page boundaries, and their sizes can be rounded. -/
  aligned : ∀ buffer ∈ buffers, buffer.base % 0x1000 = 0 ∧ Rounds buffer.len
  /-- List pages begin at page boundaries. -/
  boundaries : ∀ page ∈ pages, page % 0x1000 = 0

namespace Stocked

variable {low high : Nat} {pool lost : Set Nat} {table after : HoleTable} {buffers : List Extent}
  {pages : List Address}

/-- The order of the buffers and of the list pages does not matter. -/
theorem perm {others : List Extent} {sheets : List Address}
    (stocked : Stocked low high pool table buffers pages lost) (same : buffers.Perm others)
    (alike : pages.Perm sheets) : Stocked low high pool table others sheets lost := by
  obtain ⟨extents, paged⟩ := stocked.paged
  exact {
    paged := ⟨extents, paged.perm ((same.map _).append (alike.map _))⟩
    aligned := fun buffer held => stocked.aligned buffer (same.mem_iff.mpr held)
    boundaries := fun page kept => stocked.boundaries page (alike.mem_iff.mpr kept) }

/-- A new buffer takes its pages from the holes. -/
theorem take (stocked : Stocked low high pool table buffers pages lost) (region : Region low high)
    {size : Nat} {address : Address} (rounds : Rounds size)
    (gave : table.allocatePages size = .ok (address, after)) :
    Stocked low high pool after (⟨address, size⟩ :: buffers) pages lost := by
  obtain ⟨extents, paged⟩ := stocked.paged
  obtain ⟨boundary, left, next⟩ := paged.allocatePages region rounds.1 rounds.2 gave
  exact {
    paged := ⟨left, next⟩
    aligned := List.forall_mem_cons.mpr ⟨⟨boundary, rounds⟩, stocked.aligned⟩
    boundaries := stocked.boundaries }

/-- A list page is taken from the holes. -/
theorem takePage (stocked : Stocked low high pool table buffers pages lost)
    (region : Region low high) {page : Address}
    (gave : table.allocatePages 0x1000 = .ok (page, after)) :
    Stocked low high pool after buffers (page :: pages) lost := by
  obtain ⟨extents, paged⟩ := stocked.paged
  obtain ⟨boundary, left, next⟩ := paged.allocatePages region (by decide) (by decide) gave
  rw [roundupPage_whole (by decide)] at next
  exact {
    paged := ⟨left, next.perm List.perm_middle.symm⟩
    aligned := stocked.aligned
    boundaries := List.forall_mem_cons.mpr ⟨boundary, stocked.boundaries⟩ }

/-- A buffer is given back with its own size. -/
theorem giveBack {buffer : Extent}
    (stocked : Stocked low high pool table (buffer :: buffers) pages lost)
    (region : Region low high) (freed : table.free buffer.base buffer.len = .ok after) :
    Stocked low high pool after buffers pages (lost ∪ (bufferSlack buffer).bytes) := by
  obtain ⟨extents, paged⟩ := stocked.paged
  obtain ⟨⟨boundary, rounds⟩, aligned⟩ := List.forall_mem_cons.mp stocked.aligned
  obtain ⟨count, rounded, atLeast, -⟩ := roundupPage_spec rounds.2
  have within : buffer.len ≤ (bufferPages buffer).len := by
    simp only [bufferPages, rounded]
    omega
  have used : bufferPages buffer ∈ (buffer :: buffers).map bufferPages ++ pages.map pageExtent :=
    List.mem_cons_self
  have next := paged.freeFront region used boundary rounds.1 within freed
  have slack : (bufferSlack buffer).bytes =
      Set.Ico ((bufferPages buffer).base + buffer.len) (bufferPages buffer).stop := by
    simp only [bufferPages] at within
    simp only [bufferSlack, bufferPages, Extent.bytes, Extent.stop]
    congr 1
    omega
  rw [List.map_cons, List.cons_append, List.erase_cons_head] at next
  exact ⟨⟨_, slack ▸ next⟩, aligned, stocked.boundaries⟩

/-- A list page is given back whole. -/
theorem giveBackPage {page : Address}
    (stocked : Stocked low high pool table buffers (page :: pages) lost)
    (region : Region low high) (freed : table.free page 0x1000 = .ok after) :
    Stocked low high pool after buffers pages lost := by
  obtain ⟨extents, paged⟩ := stocked.paged
  obtain ⟨boundary, boundaries⟩ := List.forall_mem_cons.mp stocked.boundaries
  rw [List.map_cons] at paged
  have front := paged.perm List.perm_middle
  have nonempty : 0 < (pageExtent page).len := by simp [pageExtent]
  have next := front.freeWhole region List.mem_cons_self boundary nonempty freed
  rw [List.erase_cons_head] at next
  exact ⟨⟨_, next⟩, stocked.aligned, boundaries⟩

/-- List pages in use share no byte with free memory. -/
theorem kept (stocked : Stocked low high pool table buffers pages lost) {page : Address}
    (used : page ∈ pages) : Disjoint (pageExtent page).bytes table.freeBytes := by
  obtain ⟨extents, paged⟩ := stocked.paged
  rw [freeBytes_eq paged.sound.holds]
  refine (paged.sound.apart.mono_right ?_).symm
  intro byte inside
  exact mem_cover.mpr ⟨pageExtent page,
    List.mem_append_right _ (List.mem_map_of_mem used), inside⟩

end Stocked

/-- Before each of the pages is given back, free memory and the pages given back earlier lie in fewer
ranges than the hole table has slots. -/
def Room (free : Set Nat) : List Address → Prop
  | [] => True
  | page :: rest =>
    (starts free).ncard < nrHoles ∧ Room (free ∪ (pageExtent page).bytes) rest

theorem room_append {free : Set Nat} {front back : List Address} :
    Room free (front ++ back) ↔
      Room free front ∧ Room (free ∪ cover (front.map pageExtent)) back := by
  induction front generalizing free with
  | nil => simp [Room]
  | cons page rest ih =>
    rw [List.cons_append, Room, Room, ih, List.map_cons, cover_cons, Set.union_assoc, and_assoc]

/-- Nothing of a buffer is lost exactly when it is a whole number of pages. -/
theorem bufferSlack_empty {buffer : Extent} (rounds : Rounds buffer.len) :
    (bufferSlack buffer).bytes = ∅ ↔ buffer.len % 0x1000 = 0 := by
  obtain ⟨count, rounded, atLeast, below⟩ := roundupPage_spec rounds.2
  simp only [bufferSlack, Extent.bytes, Extent.stop, rounded, Set.Ico_eq_empty_iff, not_lt]
  constructor
  · intro whole
    have same : buffer.len = count * 0x1000 := by omega
    rw [same, Nat.mul_mod_left]
  · intro whole
    omega

end McmqHost
