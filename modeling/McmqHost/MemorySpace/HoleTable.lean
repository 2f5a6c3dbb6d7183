import McmqHost.Basic
import McmqHost.Base.LinkedPath
import McmqHost.Base.Extents

/-!
# The hole table of a memory space

`MemorySpace` keeps its free memory in a fixed table of slots. Each slot is either on
the list of holes, sorted by base, or on the list of unused slots; both lists are
threaded through the slots' links. The functions below are those of
`memory_space.cpp`, pointer for pointer: a slot pointer is an optional index, and
base and length are reduced to 32 bits wherever the source stores them.
-/

namespace McmqHost

open Extents (padding)

/-- `MemorySpace::NR_HOLES`. -/
def nrHoles : Nat := 512

/-- A pointer into the slot table that is not null. -/
abbrev Slot := Fin nrHoles

/-- `struct hole`. -/
structure Hole where
  /-- Next slot of the list this slot is on. -/
  hNext : Option Slot
  /-- First address of the hole. -/
  hBase : Address
  /-- Number of addresses in the hole. -/
  hLen : Nat
deriving DecidableEq, Repr

/-- The allocator's part of a `MemorySpace`. -/
structure HoleTable where
  /-- The slot table. -/
  hole : Slot → Hole
  /-- First hole, the lowest. -/
  holeHead : Option Slot
  /-- First unused slot. -/
  freeSlots : Option Slot

namespace HoleTable

/-- The link of a slot. -/
def next (table : HoleTable) (slot : Slot) : Option Slot := (table.hole slot).hNext

/-- The addresses a slot describes. -/
def extent (table : HoleTable) (slot : Slot) : Extent :=
  ⟨(table.hole slot).hBase, (table.hole slot).hLen⟩

/-- Assign a slot's link. -/
def setNext (table : HoleTable) (slot : Slot) (link : Option Slot) : HoleTable :=
  { table with hole := Function.update table.hole slot { table.hole slot with hNext := link } }

/-- Assign a slot's base and length. -/
def setExtent (table : HoleTable) (slot : Slot) (extent : Extent) : HoleTable :=
  { table with
    hole := Function.update table.hole slot ⟨table.next slot, extent.base, extent.len⟩ }

/-- Assign `hole_head`. -/
def setHead (table : HoleTable) (head : Option Slot) : HoleTable := { table with holeHead := head }

/-- Assign `free_slots`. -/
def setFree (table : HoleTable) (head : Option Slot) : HoleTable := { table with freeSlots := head }

/-- `MemorySpace::MemorySpace`: every slot unused, linked in index order. -/
def init : HoleTable where
  hole slot := ⟨if later : slot.val + 1 < nrHoles then some ⟨slot.val + 1, later⟩ else none, 0, 0⟩
  holeHead := none
  freeSlots := some ⟨0, by decide⟩

/-- `MemorySpace::delete_slot`. -/
def deleteSlot (table : HoleTable) (prevPtr : Option Slot) (hp : Slot) :
    Except Fault HoleTable := do
  let unlinked ←
    if table.holeHead = some hp then pure (table.setHead (table.next hp))
    else match prevPtr with
      | none => throw .nullPointer
      | some prev => pure (table.setNext prev (table.next hp))
  pure (((unlinked.setNext hp unlinked.freeSlots).setExtent hp ⟨0, 0⟩).setFree (some hp))

/-- One test of `MemorySpace::merge_hole`: whether a hole ends where its successor begins, in
32-bit arithmetic. -/
def touches (table : HoleTable) (hp nextPtr : Slot) : Bool :=
  u32 ((table.extent hp).base + (table.extent hp).len) == (table.extent nextPtr).base

/-- The body of both merges of `MemorySpace::merge_hole`. -/
def absorb (table : HoleTable) (hp nextPtr : Slot) : Except Fault HoleTable :=
  let grown := table.setExtent hp
    ⟨(table.extent hp).base, u32 ((table.extent hp).len + (table.extent nextPtr).len)⟩
  grown.deleteSlot (some hp) nextPtr

/-- The second merge of `MemorySpace::merge_hole`. -/
def mergeAgain (table : HoleTable) (hp : Slot) : Except Fault HoleTable :=
  match table.next hp with
  | none => pure table
  | some nextPtr => if table.touches hp nextPtr then table.absorb hp nextPtr else pure table

/-- `MemorySpace::merge_hole`. -/
def mergeHole (table : HoleTable) (hp : Slot) : Except Fault HoleTable :=
  match table.next hp with
  | none => pure table
  | some nextPtr =>
    if table.touches hp nextPtr then do
      let merged ← table.absorb hp nextPtr
      merged.mergeAgain hp
    else table.mergeAgain nextPtr

/-- The test of `MemorySpace::allocate` that is to hand the skipped addresses to the hole before:
it compares that hole's end with the returned address. -/
def returnPadding (table : HoleTable) (prevPtr : Option Slot) (oldBase alignment : Nat) :
    HoleTable :=
  match prevPtr with
  | none => table
  | some prev =>
    if u32 ((table.extent prev).base + (table.extent prev).len) = oldBase then
      table.setExtent prev ⟨(table.extent prev).base, u32 ((table.extent prev).len + alignment)⟩
    else table

/-- The body of the loop of `MemorySpace::allocate` once a hole is large enough. -/
def takeFrom (table : HoleTable) (prevPtr : Option Slot) (hp : Slot) (len alignment : Nat) :
    Except Fault (Address × HoleTable) := do
  let found := table.extent hp
  let need := u64 (len + alignment)
  let oldBase := u32 (found.base + alignment)
  let taken := table.setExtent hp ⟨u32 (found.base + need), found.len - need⟩
  let padded := taken.returnPadding prevPtr oldBase alignment
  let left ← if (padded.extent hp).len = 0 then padded.deleteSlot prevPtr hp else pure padded
  pure (oldBase, left)

/-- The loop of `MemorySpace::allocate` with the table that it leaves, also when it throws; the third
argument bounds the slots still to visit. -/
def allocateFrom (len align : Nat) :
    Nat → Option Slot → Option Slot → HoleTable → Except Fault Address × HoleTable
  | 0, _, _, table => (.error .endless, table)
  | _ + 1, _, none, table => (.error .memoryNotAvailable, table)
  | fuel + 1, prevPtr, some hp, table =>
    if align = 0 then (.error .divideByZero, table)
    else
      let alignment := padding (table.extent hp).base align
      if u64 (len + alignment) ≤ (table.extent hp).len then
        match table.takeFrom prevPtr hp len alignment with
        | .ok (address, after) => (.ok address, after)
        | .error fault => (.error fault, table)
      else allocateFrom len align fuel (some hp) (table.next hp) table

/-- `MemorySpace::allocate` with the table that it leaves, also when it throws. -/
def allocateIn (table : HoleTable) (len align : Nat) : Except Fault Address × HoleTable :=
  allocateFrom len align (nrHoles + 1) none table.holeHead table

/-- `MemorySpace::allocate`. -/
def allocate (table : HoleTable) (len align : Nat) : Except Fault (Address × HoleTable) :=
  match table.allocateIn len align with
  | (.ok address, after) => .ok (address, after)
  | (.error fault, _) => .error fault

/-- The `roundup` macro at the page size, in `size_t` arithmetic. -/
def roundupPage (len : Nat) : Nat :=
  if len % 0x1000 = 0 then len else u64 (u64 (len + 0x1000) + 2 ^ 64 - len % 0x1000)

/-- `MemorySpace::allocate_pages`. -/
def allocatePages (table : HoleTable) (len : Nat) : Except Fault (Address × HoleTable) :=
  table.allocate (roundupPage len) 0x1000

/-- The search loop of `MemorySpace::free`: the last hole whose base is below `addr`. -/
def lastBelow (table : HoleTable) (addr : Address) :
    Nat → Option Slot → Option Slot → Except Fault (Option Slot)
  | 0, _, _ => throw .endless
  | _ + 1, prevPtr, none => pure prevPtr
  | fuel + 1, prevPtr, some hp =>
    if (table.extent hp).base < addr then lastBelow table addr fuel (some hp) (table.next hp)
    else pure prevPtr

/-- `MemorySpace::free`. -/
def free (table : HoleTable) (addr : Address) (len : Nat) : Except Fault HoleTable :=
  if len = 0 then pure table
  else match table.freeSlots with
    | none => throw .abort
    | some newPtr =>
      let popped := (table.setExtent newPtr ⟨u32 addr, u32 len⟩).setFree (table.next newPtr)
      let first := popped.holeHead.all fun hp => u32 addr ≤ (popped.extent hp).base
      if first then
        ((popped.setNext newPtr popped.holeHead).setHead (some newPtr)).mergeHole newPtr
      else do
        let prevPtr ← popped.lastBelow (u32 addr) (nrHoles + 1) none popped.holeHead
        match prevPtr with
        | none => throw .nullPointer
        | some prev =>
          ((popped.setNext newPtr (popped.next prev)).setNext prev (some newPtr)).mergeHole prev

/-- `MemorySpace::free_pages`. -/
def freePages (table : HoleTable) (addr : Address) (len : Nat) : Except Fault HoleTable :=
  table.free addr (roundupPage len)

end HoleTable

end McmqHost
