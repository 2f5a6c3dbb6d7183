import McmqHost.Driver.Queue
import McmqHost.MemorySpace.Stock

/-!
# Physical region pages

`setup_buffer` describes a buffer to the device: up to two pages in the command itself,
more of them through list pages that it allocates and that the command keeps until it is
destroyed.
-/

namespace McmqHost

/-- `ctrl_page_size`, which `enable_controller` sets to `1 << 12`. -/
def ctrlPageSize : Nat := 0x1000

/-- What `setup_buffer` leaves in the memory space, the command and the `AsyncCommand`. -/
structure Prps where
  /-- The memory space. -/
  space : MemorySpace
  /-- `dptr.prp1`. -/
  prp1 : Nat
  /-- `dptr.prp2`. -/
  prp2 : Nat
  /-- `prp_lists`. -/
  prpLists : List Address

namespace Prps

/-- The head of the loop of `NVMeDriver::setup_buffer`: when the list page is full, its last entry
moves to a new list page, to which the full one then points. -/
def currentList (space : MemorySpace) (prpLists : List Address) (prpList i : Nat) :
    Except Fault (Address × List Address × MemorySpace) :=
  if i = ctrlPageSize >>> 3 then do
    let (next, grown) ← space.allocatePages ctrlPageSize
    let lastEntry ← grown.read (u32 (prpList + (i - 1) * 8)) 8
    let moved ← grown.write next lastEntry
    let linked ← moved.write (u32 (prpList + (i - 1) * 8)) (leBytes 8 next)
    pure (next, prpLists ++ [next], linked)
  else pure (prpList, prpLists, space)

/-- The loop of `NVMeDriver::setup_buffer`; the first argument bounds the entries still to write. -/
def fill : Nat → MemorySpace → List Address → Nat → Nat → Nat → Nat →
    Except Fault (MemorySpace × List Address)
  | 0, _, _, _, _, _, _ => throw .endless
  | fuel + 1, space, prpLists, prpList, i, buf, buflen => do
    let (current, lists, chained) ← currentList space prpLists prpList i
    let written ← chained.write (u32 (current + i * 8)) (leBytes 8 buf)
    if buflen ≤ ctrlPageSize then pure (written, lists)
    else fill fuel written lists current (i + 1) (u32 (buf + ctrlPageSize)) (buflen - ctrlPageSize)

/-- `NVMeDriver::setup_buffer`. -/
def setupBuffer (space : MemorySpace) (buf buflen : Nat) : Except Fault Prps :=
  let offset := buf % ctrlPageSize
  let firstPrpLen := ctrlPageSize - offset
  if u64 (offset + buflen) ≤ ctrlPageSize * 2 then
    pure ⟨space, buf, if firstPrpLen < buflen then u32 (buf + firstPrpLen) else 0, []⟩
  else do
    let (prpList, grown) ← space.allocatePages ctrlPageSize
    let rest := buflen - firstPrpLen
    let (filled, prpLists) ←
      fill (rest / ctrlPageSize + 1) grown [prpList] prpList 0 (u32 (buf + firstPrpLen)) rest
    pure ⟨filled, buf, prpList, prpLists⟩

/-- The loop of `~AsyncCommand` frees the list pages. -/
def freePrpLists (table : HoleTable) : List Address → Except Fault HoleTable
  | [] => pure table
  | prp :: rest => do
    let next ← table.free prp 0x1000
    freePrpLists next rest

end Prps

/-- A command gives all its list pages back. -/
theorem Stocked.giveBackPages {low high : Nat} {pool lost : Set Nat} {table after : HoleTable}
    {buffers : List Extent} {prpLists pages : List Address}
    (stocked : Stocked low high pool table buffers (prpLists ++ pages) lost)
    (region : HoleTable.Region low high) (freed : Prps.freePrpLists table prpLists = .ok after) :
    Stocked low high pool after buffers pages lost := by
  induction prpLists generalizing table with
  | nil =>
    obtain rfl := Except.ok.inj freed
    exact stocked
  | cons page rest ih =>
    obtain ⟨next, first, freed⟩ := bind_ok.mp freed
    exact ih (stocked.giveBackPage region first) freed

namespace Prps

variable {P : HoleTable → List Address → Prop}

/-- What each page allocation preserves, the loop of `setup_buffer` preserves. -/
theorem fill_rule
    (grow : ∀ table prpLists address after, P table prpLists →
      table.allocatePages ctrlPageSize = .ok (address, after) → P after (prpLists ++ [address]))
    {fuel i buf buflen : Nat} {prpList : Nat} {space : MemorySpace} {prpLists : List Address}
    {result : MemorySpace × List Address} (start : P space.table prpLists)
    (ok : fill fuel space prpLists prpList i buf buflen = .ok result) :
    P result.1.table result.2 := by
  induction fuel generalizing space prpLists prpList i buf buflen with
  | zero => contradiction
  | succ fuel ih =>
    rw [fill] at ok
    obtain ⟨⟨current, lists, chained⟩, entered, ok⟩ := bind_ok.mp ok
    have kept : P chained.table lists := by
      rw [currentList] at entered
      split at entered
      · obtain ⟨⟨address, grown⟩, gave, entered⟩ := bind_ok.mp entered
        obtain ⟨lastEntry, -, entered⟩ := bind_ok.mp entered
        obtain ⟨moved, wrote, entered⟩ := bind_ok.mp entered
        obtain ⟨linked, wroteAgain, entered⟩ := bind_ok.mp entered
        cases entered
        rw [(MemorySpace.frame_write wroteAgain).table, (MemorySpace.frame_write wrote).table]
        exact grow _ _ _ _ start (MemorySpace.table_allocatePages gave)
      · cases entered
        exact start
    obtain ⟨written, wrote, ok⟩ := bind_ok.mp ok
    rw [← (MemorySpace.frame_write wrote).table] at kept
    split at ok
    · cases ok
      exact kept
    · exact ih kept ok

/-- What each page allocation preserves, `setup_buffer` preserves. -/
theorem setupBuffer_rule
    (grow : ∀ table prpLists address after, P table prpLists →
      table.allocatePages ctrlPageSize = .ok (address, after) → P after (prpLists ++ [address]))
    {buf buflen : Nat} {space : MemorySpace} {prps : Prps} (start : P space.table [])
    (ok : setupBuffer space buf buflen = .ok prps) : P prps.space.table prps.prpLists := by
  simp only [setupBuffer] at ok
  split at ok
  · cases ok
    exact start
  · obtain ⟨⟨prpList, grown⟩, gave, ok⟩ := bind_ok.mp ok
    obtain ⟨⟨filled, prpLists⟩, ran, ok⟩ := bind_ok.mp ok
    cases ok
    have first := grow _ _ _ _ start (MemorySpace.table_allocatePages gave)
    exact fill_rule grow first ran

end Prps

end McmqHost
