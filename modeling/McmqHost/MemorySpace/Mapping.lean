import McmqHost.Base.Machine
import McmqHost.MemorySpace.Ledger

/-!
# Mapped memory

A `MemorySpace` hands out addresses from `iova_base` up and translates each access into
its mapping, guarded by an assertion. The shared-memory space releases the file behind
its first page; the VFIO space releases a range as long as its end address, which is
more than it mapped unless it is based at zero.
-/

namespace McmqHost

open Extents

/-- A memory space: its mapping and its allocator. -/
structure MemorySpace where
  /-- The hole table. -/
  table : HoleTable
  /-- Bytes of the mapping, by offset from its base. -/
  map : Nat → UInt8
  /-- `map_size`. -/
  mapSize : Nat
  /-- `iova_base`. -/
  iovaBase : Nat

namespace MemorySpace

/-- `SharedMemorySpace::SharedMemorySpace` over a mapped file. -/
def shared (file : Nat → UInt8) (fileSize : Nat) : Except Fault MemorySpace := do
  let table ← HoleTable.init.free 0x1000 (u64 (fileSize + 2 ^ 64 - 0x1000))
  pure ⟨table, file, fileSize, 0⟩

/-- `VfioMemorySpace::VfioMemorySpace`; an empty mapping is refused by the system. -/
def vfio (iovaBase : Nat) (size : Nat) : Except Fault MemorySpace := do
  if size = 0 then throw .runtimeError
  let table ← HoleTable.init.free iovaBase (u64 (iovaBase + size))
  pure ⟨table, fun _ => 0, size, iovaBase⟩

/-- `MemorySpace::allocate`. -/
def allocate (space : MemorySpace) (len align : Nat) : Except Fault (Address × MemorySpace) := do
  let (address, table) ← space.table.allocate len align
  pure (address, { space with table := table })

/-- `MemorySpace::allocate_pages`. -/
def allocatePages (space : MemorySpace) (len : Nat) : Except Fault (Address × MemorySpace) :=
  space.allocate (HoleTable.roundupPage len) 0x1000

/-- `MemorySpace::free`. -/
def free (space : MemorySpace) (addr : Nat) (len : Nat) : Except Fault MemorySpace := do
  let table ← space.table.free addr len
  pure { space with table := table }

/-- The translation and the assertion at the head of `read`, `write` and `memset`. -/
def translate (space : MemorySpace) (addr : Nat) (len : Nat) : Except Fault Nat :=
  let offset := u32 (addr + 2 ^ 32 - space.iovaBase)
  if offset < space.mapSize ∧ u64 (offset + len) ≤ space.mapSize then pure offset
  else throw .assertion

/-- `MemorySpace::read`. -/
def read (space : MemorySpace) (addr : Nat) (len : Nat) : Except Fault (List UInt8) := do
  let offset ← space.translate addr len
  pure ((List.range len).map fun index => space.map (offset + index))

/-- `MemorySpace::write`. -/
def write (space : MemorySpace) (addr : Nat) (bytes : List UInt8) : Except Fault MemorySpace := do
  let offset ← space.translate addr bytes.length
  pure { space with
    map := fun index => if offset ≤ index then bytes.getD (index - offset) (space.map index)
      else space.map index }

/-- `MemorySpace::memset`. -/
def memset (space : MemorySpace) (addr : Nat) (c : UInt8) (len : Nat) :
    Except Fault MemorySpace :=
  space.write addr (List.replicate len c)

variable {space after : MemorySpace}

/-- Two states of a memory space that differ at most in the contents of memory. -/
structure SameFrame (space other : MemorySpace) : Prop where
  /-- The allocator is the same. -/
  table : space.table = other.table
  /-- The mapping begins at the same address. -/
  iovaBase : space.iovaBase = other.iovaBase
  /-- The mapping has the same size. -/
  mapSize : space.mapSize = other.mapSize

theorem SameFrame.refl (space : MemorySpace) : space.SameFrame space := ⟨rfl, rfl, rfl⟩

theorem SameFrame.trans {first second third : MemorySpace} (left : first.SameFrame second)
    (right : second.SameFrame third) : first.SameFrame third :=
  ⟨left.table.trans right.table, left.iovaBase.trans right.iovaBase,
    left.mapSize.trans right.mapSize⟩

/-- Writing changes at most the contents of memory. -/
theorem frame_write {addr : Nat} {bytes : List UInt8} (ok : space.write addr bytes = .ok after) :
    after.SameFrame space := by
  obtain ⟨offset, -, ok⟩ := bind_ok.mp ok
  obtain rfl := Except.ok.inj ok
  exact ⟨rfl, rfl, rfl⟩

/-- Bytes of the mapping from an offset on. -/
def peek (space : MemorySpace) (offset len : Nat) : List UInt8 :=
  (List.range len).map fun index => space.map (offset + index)

/-- Translation does not look at the contents of memory. -/
theorem SameFrame.translate {other : MemorySpace} (same : space.SameFrame other) (addr len : Nat) :
    space.translate addr len = other.translate addr len := by
  rw [MemorySpace.translate, MemorySpace.translate, same.iovaBase, same.mapSize]

/-- The last bytes of a range. -/
theorem drop_peek (offset len count : Nat) :
    (space.peek offset len).drop count = space.peek (offset + count) (len - count) := by
  apply List.ext_getElem
  · simp [peek]
  · intro index inside inside'
    simp [peek, Nat.add_assoc]

/-- The first bytes of a range. -/
theorem take_peek {offset len count : Nat} (short : count ≤ len) :
    (space.peek offset len).take count = space.peek offset count := by
  apply List.ext_getElem
  · simp [peek, short]
  · intro index inside inside'
    simp [peek]

/-- A part of a mapped range is mapped. -/
theorem translate_part {addr len offset first count : Nat}
    (addressable : space.iovaBase + space.mapSize ≤ 2 ^ 32) (short : len ≤ 2 ^ 32)
    (mapped : space.translate addr len = .ok offset) (inside : first + count ≤ len)
    (nonempty : 0 < count) :
    space.translate (u32 (addr + first)) count = .ok (offset + first) := by
  unfold translate at mapped ⊢
  simp only at mapped ⊢
  split at mapped
  · rename_i bounds
    obtain rfl := Except.ok.inj mapped
    have whole : u64 (u32 (addr + 2 ^ 32 - space.iovaBase) + len) =
        u32 (addr + 2 ^ 32 - space.iovaBase) + len := u64_of_lt (by omega)
    have moved : u32 (u32 (addr + first) + 2 ^ 32 - space.iovaBase) =
        u32 (addr + 2 ^ 32 - space.iovaBase) + first := by
      unfold u32 at bounds whole ⊢
      omega
    have part : u64 (u32 (addr + 2 ^ 32 - space.iovaBase) + first + count) =
        u32 (addr + 2 ^ 32 - space.iovaBase) + first + count := u64_of_lt (by omega)
    rw [moved, part, if_pos (by omega)]
    rfl
  · contradiction

/-- A mapping from address zero translates nothing. -/
theorem translate_zero {addr len : Nat} (base : space.iovaBase = 0) (size : space.mapSize ≤ 2 ^ 32)
    (inside : addr + len ≤ space.mapSize) (nonempty : 0 < len) : space.translate addr len = .ok addr := by
  have offset : u32 (addr + 2 ^ 32 - 0) = addr := by
    unfold u32
    omega
  have last : u64 (addr + len) = addr + len := u64_of_lt (by omega)
  unfold translate
  rw [base]
  simp only [offset, last]
  rw [if_pos (by omega)]
  rfl

/-- Reading returns the bytes behind the translated address. -/
theorem read_eq {addr len offset : Nat} (mapped : space.translate addr len = .ok offset) :
    space.read addr len = .ok (space.peek offset len) := by
  rw [read, mapped]
  rfl

/-- What is written is there afterwards. -/
theorem peek_written {addr offset : Nat} {bytes : List UInt8}
    (mapped : space.translate addr bytes.length = .ok offset)
    (ok : space.write addr bytes = .ok after) : after.peek offset bytes.length = bytes := by
  rw [write, mapped] at ok
  obtain rfl := Except.ok.inj ok
  apply List.ext_getElem
  · simp [peek]
  · intro index inside inside'
    simp [peek, List.getD_eq_getElem?_getD, List.getElem?_eq_getElem inside']

/-- What lies apart from the bytes written stays. -/
theorem peek_apart {addr offset start len : Nat} {bytes : List UInt8}
    (mapped : space.translate addr bytes.length = .ok offset)
    (ok : space.write addr bytes = .ok after)
    (apart : start + len ≤ offset ∨ offset + bytes.length ≤ start) :
    after.peek start len = space.peek start len := by
  rw [write, mapped] at ok
  obtain rfl := Except.ok.inj ok
  apply List.map_congr_left
  intro index inside
  have below := List.mem_range.mp inside
  simp only
  split
  · have beyond : bytes.length ≤ start + index - offset := by omega
    rw [List.getD_eq_getElem?_getD, List.getElem?_eq_none beyond, Option.getD_none]
  · rfl

/-- An allocation of the space is one of its table. -/
theorem table_allocatePages {len : Nat} {address : Address}
    (ok : space.allocatePages len = .ok (address, after)) :
    space.table.allocatePages len = .ok (address, after.table) := by
  obtain ⟨⟨found, table⟩, ran, ok⟩ := bind_ok.mp ok
  cases ok
  exact ran

/-- An allocation does not move the mapping. -/
theorem mapping_allocatePages {len : Nat} {address : Address}
    (ok : space.allocatePages len = .ok (address, after)) :
    after.iovaBase = space.iovaBase ∧ after.mapSize = space.mapSize := by
  obtain ⟨⟨found, table⟩, -, ok⟩ := bind_ok.mp ok
  cases ok
  exact ⟨rfl, rfl⟩

end MemorySpace

/-- The two concrete spaces and what they are built from. -/
inductive Backing
  /-- A shared-memory file of the given size. -/
  | shared (file : Nat → UInt8) (fileSize : Nat)
  /-- Anonymous memory of the given size behind an I/O address. -/
  | vfio (iovaBase : Nat) (size : Nat)

namespace Backing

/-- The constructor of the space. -/
def construct : Backing → Except Fault MemorySpace
  | shared file fileSize => MemorySpace.shared file fileSize
  | vfio iovaBase size => MemorySpace.vfio iovaBase size

/-- A file of two pages or more, up to 4 GiB; a page-aligned base and an end within 2 GiB. -/
def Admitted : Backing → Prop
  | shared _ fileSize => 0x2000 ≤ fileSize ∧ fileSize ≤ 2 ^ 32
  | vfio iovaBase size => iovaBase % 0x1000 = 0 ∧ iovaBase + size ≤ 2 ^ 31

/-- The range that the constructor releases is the range that it maps. -/
def ReleasesMapping : Backing → Prop
  | shared _ _ => True
  | vfio iovaBase size => iovaBase = 0 ∨ size = 0

end Backing

/-- A memory space and the blocks it has handed out. -/
structure Tenancy where
  /-- The space. -/
  space : MemorySpace
  /-- Blocks returned by `allocate` and not yet freed, latest first. -/
  live : List Extent

/-- Calls on a memory space; only live blocks are freed. -/
inductive MemoryCall
  /-- `allocate(len, align)`. -/
  | allocate (len align : Nat)
  /-- `allocate_pages(len)`. -/
  | allocatePages (len : Nat)
  /-- `free` of a block in full. -/
  | free (block : Extent)

namespace Tenancy

/-- One `allocate`; the exception leaves everything as it was. -/
def allocateStep (tenancy : Tenancy) (len align : Nat) : Option Tenancy :=
  match tenancy.space.allocate len align with
  | .ok (address, space) => some ⟨space, ⟨address, len⟩ :: tenancy.live⟩
  | .error .memoryNotAvailable => some tenancy
  | .error _ => none

/-- Any sequence of calls is a run; a call that ends the program ends the run. -/
def machine : Machine Tenancy MemoryCall where
  step tenancy
    | .allocate len align => tenancy.allocateStep len align
    | .allocatePages len => tenancy.allocateStep (HoleTable.roundupPage len) 0x1000
    | .free block =>
      if block ∈ tenancy.live then
        match tenancy.space.free block.base block.len with
        | .ok space => some ⟨space, tenancy.live.erase block⟩
        | .error _ => none
      else none

end Tenancy

/-- The arguments are values of `size_t`, and so is the sum of length and alignment. -/
def MemoryCall.Sized : MemoryCall → Prop
  | .allocate len align => len + align ≤ 2 ^ 64
  | .allocatePages len => len < 2 ^ 64
  | .free _ => True

namespace MemorySpace

/-- `read`, `write` and `memset` of `len` bytes pass their assertion. -/
def Accesses (space : MemorySpace) (addr len : Nat) : Prop :=
  (∃ bytes, space.read addr len = .ok bytes) ∧
  (∀ bytes : List UInt8, bytes.length = len → ∃ after, space.write addr bytes = .ok after) ∧
  ∀ c, ∃ after, space.memset addr c len = .ok after

/-- The block lies in the mapping, and every access inside it passes its assertion. -/
def Maps (space : MemorySpace) (block : Extent) : Prop :=
  space.iovaBase ≤ block.base ∧ block.base + block.len ≤ space.iovaBase + space.mapSize ∧
    ∀ addr len, block.base ≤ addr → addr < block.base + block.len →
      addr + len ≤ block.base + block.len → space.Accesses addr len

/-- The three accesses share one assertion. -/
theorem accesses_of_translate {space : MemorySpace} {addr len offset : Nat}
    (inside : space.translate addr len = .ok offset) : space.Accesses addr len := by
  have written : ∀ bytes : List UInt8, bytes.length = len →
      ∃ after, space.write addr bytes = .ok after := by
    rintro bytes rfl
    rw [write, inside]
    exact ⟨_, rfl⟩
  refine ⟨?_, written, ?_⟩
  · rw [read, inside]
    exact ⟨_, rfl⟩
  · intro c
    exact written _ List.length_replicate

/-- A block inside the mapping passes the assertion at every access inside it. -/
theorem maps_of_bounds {space : MemorySpace} {block : Extent}
    (lower : space.iovaBase ≤ block.base)
    (upper : block.base + block.len ≤ space.iovaBase + space.mapSize)
    (addressable : space.iovaBase + space.mapSize ≤ 2 ^ 32) : space.Maps block := by
  refine ⟨lower, upper, ?_⟩
  intro addr len above below inside
  have offset : u32 (addr + 2 ^ 32 - space.iovaBase) = addr - space.iovaBase := by
    unfold u32
    omega
  have last : u64 (addr - space.iovaBase + len) = addr - space.iovaBase + len :=
    u64_of_lt (by omega)
  apply accesses_of_translate
  simp only [translate, offset, last]
  rw [if_pos (by omega)]
  rfl

end MemorySpace

namespace Tenancy

open HoleTable

/-- The invariant of a tenancy: a sound table whose allocated bytes are those of the live blocks,
which are disjoint and lie below the end of the region. -/
structure Sound (low high : Nat) (start : MemorySpace) (tenancy : Tenancy) : Prop where
  /-- The table is sound for the live blocks. -/
  sound : ∃ extents, HoleTable.Sound low high tenancy.space.table extents (cover tenancy.live)
  /-- Live blocks are disjoint. -/
  exclusive : Exclusive tenancy.live
  /-- Live blocks end in the region. -/
  bounded : ∀ block ∈ tenancy.live, block.base + block.len ≤ high
  /-- The mapping does not move. -/
  fixed : tenancy.space.iovaBase = start.iovaBase ∧ tenancy.space.mapSize = start.mapSize

variable {low high : Nat} {start : MemorySpace} {tenancy after : Tenancy}

/-- No allocation succeeds with alignment zero. -/
theorem allocate_zero_align {table : HoleTable} {len : Nat} {result : Address × HoleTable} :
    table.allocate len 0 ≠ .ok result := by
  unfold HoleTable.allocate HoleTable.allocateIn
  cases table.holeHead <;> simp [allocateFrom]

/-- An allocation keeps the invariant. -/
theorem Sound.allocateStep (inv : Sound low high start tenancy) (region : Region low high)
    {len align : Nat} (noWrap : len + align ≤ 2 ^ 64)
    (stepped : tenancy.allocateStep len align = some after) : Sound low high start after := by
  unfold Tenancy.allocateStep at stepped
  cases ran : tenancy.space.table.allocate len align with
  | error fault =>
    simp only [MemorySpace.allocate, ran, bind, Except.bind] at stepped
    split at stepped
    · contradiction
    · obtain rfl := Option.some.inj stepped
      exact inv
    · contradiction
  | ok result =>
    obtain ⟨address, table⟩ := result
    simp only [MemorySpace.allocate, ran, bind, Except.bind, pure, Except.pure,
      Option.some.injEq] at stepped
    subst stepped
    obtain ⟨extents, sound⟩ := inv.sound
    have positive : 0 < align := Nat.pos_of_ne_zero (by rintro rfl; exact allocate_zero_align ran)
    obtain ⟨found, left, fit, rfl, ends, taken, next⟩ := sound.allocate region positive noWrap ran
    have bytes : Extent.bytes ⟨u32 found, len⟩ = Set.Ico found (found + len) := by
      by_cases empty : len = 0
      · subst empty
        simp [Extent.bytes, Extent.stop]
      · rw [HoleTable.Sound.u32_found region sound (by omega) fit]
        rfl
    refine ⟨⟨left, ?_⟩, exclusive_cons.mpr ⟨?_, inv.exclusive⟩, ?_, inv.fixed⟩
    · rw [cover_cons, bytes, Set.union_comm]
      exact next
    · rw [bytes]
      exact sound.apart.mono_left taken
    · intro block inside
      obtain rfl | inside := List.mem_cons.mp inside
      · have : u32 found ≤ found := Nat.mod_le _ _
        simp only
        omega
      · exact inv.bounded block inside

/-- Rounding to pages leaves room for the page alignment. -/
theorem roundupPage_sized (len : Nat) (fits : len < 2 ^ 64) : roundupPage len + 0x1000 ≤ 2 ^ 64 := by
  unfold roundupPage u64
  split <;> omega

/-- Freeing a live block keeps the invariant. -/
theorem Sound.freeStep (inv : Sound low high start tenancy) (region : Region low high)
    {block : Extent} (stepped : machine.step tenancy (.free block) = some after) :
    Sound low high start after := by
  simp only [machine] at stepped
  split at stepped
  case isFalse => contradiction
  case isTrue live =>
    obtain ⟨remain, exclusive⟩ := cover_erase inv.exclusive live
    have bounded : ∀ other ∈ tenancy.live.erase block, other.base + other.len ≤ high :=
      fun other kept => inv.bounded other (List.mem_of_mem_erase kept)
    cases ran : tenancy.space.table.free block.base block.len with
    | error fault => simp [MemorySpace.free, ran, bind, Except.bind] at stepped
    | ok table =>
      simp only [MemorySpace.free, ran, bind, Except.bind, pure, Except.pure,
        Option.some.injEq] at stepped
      subst stepped
      obtain ⟨extents, sound⟩ := inv.sound
      refine ⟨?_, exclusive, bounded, inv.fixed⟩
      simp only [remain]
      by_cases empty : block.len = 0
      · simp only [HoleTable.free, empty, ↓reduceIte, pure, Except.pure, Except.ok.injEq] at ran
        subst ran
        refine ⟨extents, ?_⟩
        rwa [show block.bytes = ∅ by simp [Extent.bytes, Extent.stop, empty], Set.sdiff_empty]
      · have inside : Set.Ico block.base (block.base + block.len) ⊆ cover tenancy.live :=
          fun byte here => mem_cover.mpr ⟨block, live, here⟩
        exact ⟨_, sound.free_ok region (by omega) inside ran⟩

/-- Every run of sized calls keeps the invariant. -/
theorem Sound.run (region : Region low high) {calls : List MemoryCall}
    (sized : ∀ call ∈ calls, call.Sized) (inv : Sound low high start tenancy)
    (ran : machine.run tenancy calls = some after) : Sound low high start after := by
  induction calls generalizing tenancy with
  | nil =>
    obtain rfl := Option.some.inj ran
    exact inv
  | cons call rest ih =>
    rw [Machine.run_cons, Option.bind_eq_some_iff] at ran
    obtain ⟨middle, stepped, ran⟩ := ran
    obtain ⟨fits, sized⟩ := List.forall_mem_cons.mp sized
    refine ih sized ?_ ran
    cases call with
    | allocate len align => exact inv.allocateStep region fits stepped
    | allocatePages len => exact inv.allocateStep region (roundupPage_sized len fits) stepped
    | free block => exact inv.freeStep region stepped

/-- The constructor's release starts the invariant. -/
theorem Sound.construct {space : MemorySpace} {base len : Nat} (region : Region base (base + len))
    (ok : HoleTable.init.free base len = .ok space.table) :
    Sound base (base + len) space ⟨space, []⟩ :=
  ⟨⟨_, by simpa using HoleTable.Sound.start region ok⟩, List.Pairwise.nil, by simp, rfl, rfl⟩

end Tenancy

namespace MemorySpace

variable {space : MemorySpace}

/-- What `SharedMemorySpace` builds. -/
theorem shared_ok {file : Nat → UInt8} {fileSize : Nat} (atLeast : 0x1000 ≤ fileSize)
    (fits : fileSize < 2 ^ 64) (built : shared file fileSize = .ok space) :
    HoleTable.init.free 0x1000 (fileSize - 0x1000) = .ok space.table ∧ space.iovaBase = 0 ∧
      space.mapSize = fileSize := by
  have length : u64 (fileSize + 2 ^ 64 - 0x1000) = fileSize - 0x1000 := by
    unfold u64
    omega
  rw [shared, length] at built
  cases freed : HoleTable.init.free 0x1000 (fileSize - 0x1000) with
  | error fault =>
    rw [freed] at built
    cases built
  | ok table =>
    rw [freed] at built
    obtain rfl := Except.ok.inj built
    exact ⟨rfl, rfl, rfl⟩

/-- What `VfioMemorySpace` builds. -/
theorem vfio_ok {iovaBase size : Nat} (fits : iovaBase + size < 2 ^ 64)
    (built : vfio iovaBase size = .ok space) :
    HoleTable.init.free iovaBase (iovaBase + size) = .ok space.table ∧
      space.iovaBase = iovaBase ∧ space.mapSize = size ∧ 0 < size := by
  by_cases empty : size = 0
  · rw [vfio, if_pos empty] at built
    contradiction
  rw [vfio, if_neg empty, u64_of_lt fits] at built
  cases freed : HoleTable.init.free iovaBase (iovaBase + size) with
  | error fault =>
    rw [freed] at built
    cases built
  | ok table =>
    rw [freed] at built
    obtain rfl := Except.ok.inj built
    exact ⟨rfl, rfl, rfl, Nat.pos_of_ne_zero empty⟩

end MemorySpace

namespace Backing

open Tenancy

/-- After every sequence of sized calls, every block handed out is mapped. -/
def MapsAll (backing : Backing) : Prop :=
  ∀ space, backing.construct = .ok space → ∀ calls last, (∀ call ∈ calls, call.Sized) →
    machine.run ⟨space, []⟩ calls = some last → ∀ block ∈ last.live, last.space.Maps block

/-- A shared-memory space maps what it releases. -/
theorem shared_mapsAll {file : Nat → UInt8} {fileSize : Nat}
    (admitted : Admitted (.shared file fileSize)) : MapsAll (.shared file fileSize) := by
  obtain ⟨atLeast, atMost⟩ := admitted
  intro space built calls last sized ran block live
  obtain ⟨freed, base, size⟩ := MemorySpace.shared_ok (by omega) (by omega) built
  have region : HoleTable.Region 0x1000 (0x1000 + (fileSize - 0x1000)) := ⟨by omega, by omega⟩
  have inv := (Sound.construct region freed).run region sized ran
  obtain ⟨sameBase, sameSize⟩ := inv.fixed
  have ends := inv.bounded block live
  exact MemorySpace.maps_of_bounds (by omega) (by omega) (by omega)

/-- A VFIO space based at zero maps what it releases. -/
theorem vfio_mapsAll {size : Nat} (admitted : Admitted (.vfio 0 size)) :
    MapsAll (.vfio 0 size) := by
  obtain ⟨-, atMost⟩ := admitted
  intro space built calls last sized ran block live
  obtain ⟨freed, base, length, -⟩ := MemorySpace.vfio_ok (by omega) built
  have region : HoleTable.Region 0 (0 + (0 + size)) := ⟨by omega, by omega⟩
  have inv := (Sound.construct region freed).run region sized ran
  obtain ⟨sameBase, sameSize⟩ := inv.fixed
  have ends := inv.bounded block live
  exact MemorySpace.maps_of_bounds (by omega) (by omega) (by omega)

/-- A VFIO space based elsewhere hands out all that it released, past the end of its mapping. -/
theorem vfio_escapes {iovaBase size : Nat} (admitted : Admitted (.vfio iovaBase size))
    (based : 0 < iovaBase) (mapped : 0 < size) : ¬ MapsAll (.vfio iovaBase size) := by
  obtain ⟨-, atMost⟩ := admitted
  intro all
  have region : HoleTable.Region iovaBase (iovaBase + (iovaBase + size)) := ⟨by omega, by omega⟩
  obtain ⟨table, freed, sound⟩ := HoleTable.Sound.start_ok region (by omega)
  have built : construct (.vfio iovaBase size) = .ok ⟨table, fun _ => 0, size, iovaBase⟩ := by
    rw [construct, MemorySpace.vfio, if_neg (by omega), u64_of_lt (by omega), freed]
    rfl
  have fit : Extents.firstFit (iovaBase + size) 1 [⟨iovaBase, iovaBase + size⟩] =
      some (iovaBase, []) := by
    simp [firstFit, Fits, padding, trim, Nat.mod_one]
  have scan := HoleTable.allocate_refines (iovaBase + size) 1 Nat.one_pos (by omega) sound.holds
    sound.coalesced (sound.ordered region)
  rw [fit] at scan
  obtain ⟨after, ran, -⟩ := scan
  rw [u32_of_lt (by omega)] at ran
  have stepped : machine.run ⟨⟨table, fun _ => 0, size, iovaBase⟩, []⟩
      [.allocate (iovaBase + size) 1] =
        some ⟨⟨after, fun _ => 0, size, iovaBase⟩, [⟨iovaBase, iovaBase + size⟩]⟩ := by
    rw [Machine.run_cons]
    simp only [machine, Tenancy.allocateStep, MemorySpace.allocate, ran]
    rfl
  have inside := all _ built _ _ (by simp [MemoryCall.Sized]; omega) stepped
    ⟨iovaBase, iovaBase + size⟩ (by simp)
  have upper := inside.2.1
  simp only at upper
  omega

/-- **Allocated memory is mapped** exactly when the constructor releases what it maps: in every
history of sized calls on a shared-memory space or a space based at zero, and not on a VFIO space
based elsewhere. -/
theorem mapsAll_iff {backing : Backing} (admitted : backing.Admitted) :
    backing.MapsAll ↔ backing.ReleasesMapping := by
  cases backing with
  | shared file fileSize => exact iff_of_true (shared_mapsAll admitted) trivial
  | vfio iovaBase size =>
    constructor
    · intro all
      by_contra other
      obtain ⟨based, mapped⟩ := not_or.mp other
      exact vfio_escapes admitted (Nat.pos_of_ne_zero based) (Nat.pos_of_ne_zero mapped) all
    · rintro (rfl | rfl)
      · exact vfio_mapsAll admitted
      · intro space built
        have below := admitted.2
        have fits : iovaBase + 0 < 2 ^ 64 := by omega
        have mapped := (MemorySpace.vfio_ok fits built).2.2.2
        contradiction

/-- The smallest shared-memory file maps every block. -/
theorem mapsAll_small : (Backing.shared (fun _ => 0) 0x2000).Admitted ∧
    (Backing.shared (fun _ => 0) 0x2000).MapsAll := by
  have admitted : (Backing.shared (fun _ => 0) 0x2000).Admitted := ⟨by decide, by decide⟩
  exact ⟨admitted, (mapsAll_iff admitted).mpr trivial⟩

/-- The space that the program builds, 2 MiB at 0x1000, hands out a block of 2 MiB and a page, and
reading its last page fails the assertion. -/
theorem vfio_unmapped : (Backing.vfio 0x1000 0x200000).Admitted ∧
    MemoryCall.Sized (.allocate 0x201000 1) ∧
    ∃ space last, (Backing.vfio 0x1000 0x200000).construct = .ok space ∧
      machine.run ⟨space, []⟩ [.allocate 0x201000 1] = some last ∧
      last.live = [⟨0x1000, 0x201000⟩] ∧ ¬ last.space.Maps ⟨0x1000, 0x201000⟩ ∧
      last.space.read 0x201000 0x1000 = .error .assertion := by
  refine ⟨⟨by decide, by decide⟩, by simp [MemoryCall.Sized], _, _, rfl, rfl, rfl, ?_, rfl⟩
  intro maps
  exact absurd maps.2.1 (by decide)

end Backing

end McmqHost
