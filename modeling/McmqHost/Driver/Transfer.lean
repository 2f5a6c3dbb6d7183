import McmqHost.Driver.Io
import McmqHost.Driver.PrpWalk

/-!
# What a read or write command transfers

A request counts bytes, a command counts blocks: it names the first block and the number of blocks
less one, in 16 bits. The regions come from the number of bytes of the request. The two
agree for requests of 1 to 65536 whole blocks at a block boundary; any other request is
submitted all the same.
-/

namespace McmqHost

/-- Bytes of a block, which the shifts by 12 assume. -/
def blockSize : Nat := 4096

/-- A little-endian field within the bytes of a command. -/
def fieldAt (bytes : List UInt8) (start count : Nat) : Nat :=
  leValue ((bytes.drop start).take count)

/-- `slba` as the device reads it. -/
def slbaOf (bytes : List UInt8) : Nat := fieldAt bytes 40 8

/-- `length` as the device reads it. -/
def lengthOf (bytes : List UInt8) : Nat := fieldAt bytes 48 2

/-- The number of bytes that the device transfers; `length` counts from zero. -/
def transferBytes (bytes : List UInt8) : Nat := (lengthOf bytes + 1) * blockSize

/-- A field that stands between others is read as it was written. -/
theorem fieldAt_written (before after : List UInt8) (start count value : Nat)
    (length : before.length = start) :
    fieldAt (before ++ leBytes count value ++ after) start count = value % 256 ^ count := by
  rw [fieldAt, List.append_assoc, ← length, List.drop_left, ← leValue_leBytes]
  congr 1
  apply List.take_left'
  exact length_leBytes count value

namespace RwCommand

variable {cmd : RwCommand}

theorem length_bytes : cmd.bytes.length = 64 := by
  simp [bytes]

/-- The device reads the first block that the driver wrote. -/
theorem slbaOf_bytes (fits : cmd.slba < 2 ^ 64) : slbaOf cmd.bytes = cmd.slba := by
  have written := fieldAt_written
    (leBytes 1 cmd.opcode ++ leBytes 1 0 ++ leBytes 2 cmd.commandId ++ leBytes 4 cmd.nsid ++
      leBytes 16 0 ++ leBytes 8 cmd.prp1 ++ leBytes 8 cmd.prp2)
    (leBytes 2 cmd.length ++ leBytes 14 0) 40 8 cmd.slba (by simp)
  rw [← List.append_assoc, Nat.mod_eq_of_lt (Nat.lt_of_lt_of_eq fits (by decide))] at written
  exact written

/-- The device reads the number of blocks that the driver wrote. -/
theorem lengthOf_bytes (fits : cmd.length < 2 ^ 16) : lengthOf cmd.bytes = cmd.length := by
  have written := fieldAt_written
    (leBytes 1 cmd.opcode ++ leBytes 1 0 ++ leBytes 2 cmd.commandId ++ leBytes 4 cmd.nsid ++
      leBytes 16 0 ++ leBytes 8 cmd.prp1 ++ leBytes 8 cmd.prp2 ++ leBytes 8 cmd.slba)
    (leBytes 14 0) 48 2 cmd.length (by simp)
  rw [Nat.mod_eq_of_lt (Nat.lt_of_lt_of_eq fits (by decide))] at written
  exact written

end RwCommand

namespace Driver

/-- A submission that returned: the regions of its buffer and the bytes of its command. -/
structure Submitted (doWrite : Bool) (driver : Driver) (req : IORequest) (after : Driver)
    (prps : Prps) (bytes : List UInt8) : Prop where
  /-- The regions come from the size of the request. -/
  regions : describe driver.port.space req = .ok prps
  /-- The command is the one that the driver built. -/
  command : bytes = (rwCommand doWrite req driver.commandIdCounter prps).bytes
  /-- It was written to the queue and announced. -/
  queued : ∃ port, ({ driver.port with space := prps.space } : QueuePort).submitSqCommand bytes true =
    .ok port ∧ after = driver.record port req prps

/-- A command transfers exactly the bytes of a request. -/
structure Transfers (prps : Prps) (bytes : List UInt8) (req : IORequest) : Prop where
  /-- It begins where the request does. -/
  slba : (slbaOf bytes : Int) * blockSize = req.pos
  /-- It transfers as many bytes as requested. -/
  length : (lengthOf bytes + 1) * blockSize = req.size
  /-- The regions describe as many. -/
  described : ∀ fuel addresses pages, prps.walk fuel req.size = .ok (addresses, pages) →
    transferBytes bytes = addresses.length

/-- The first block is exact for positions at a block boundary. -/
theorem slba_exact {doWrite : Bool} {req : IORequest} {id : Nat} {prps : Prps}
    (positive : 0 ≤ req.pos) (fits : req.pos < 2 ^ 63) :
    (slbaOf (rwCommand doWrite req id prps).bytes : Int) * blockSize = req.pos ↔
      req.pos % blockSize = 0 := by
  have quotient : req.pos / 2 ^ 12 % 2 ^ 64 = req.pos / 2 ^ 12 := by omega
  have bound : (rwCommand doWrite req id prps).slba < 2 ^ 64 := by
    simp only [rwCommand]
    omega
  rw [RwCommand.slbaOf_bytes bound]
  simp only [rwCommand, blockSize, quotient]
  omega

/-- The number of blocks is exact for 1 to 65536 whole blocks. -/
theorem length_exact {doWrite : Bool} {req : IORequest} {id : Nat} {prps : Prps}
    (nonempty : 0 < req.size) (fits : req.size < 2 ^ 64) :
    (lengthOf (rwCommand doWrite req id prps).bytes + 1) * blockSize = req.size ↔
      req.size % blockSize = 0 ∧ req.size ≤ 2 ^ 16 * blockSize := by
  have bound : (rwCommand doWrite req id prps).length < 2 ^ 16 := Nat.mod_lt _ (by decide)
  rw [RwCommand.lengthOf_bytes bound]
  simp only [rwCommand, blockSize, u16, u64]
  omega

/-- Some driver takes a request of up to two pages, whatever its size and position. -/
theorem submit_short (doWrite : Bool) (req : IORequest) (nonempty : 0 < req.size)
    (short : req.buf % ctrlPageSize + req.size ≤ ctrlPageSize * 2) :
    ∃ driver after, submitRwCommand doWrite driver req = .ok after := by
  let space : MemorySpace := ⟨.init, fun _ => 0, 2 ^ 32, 0⟩
  let nvmeq := NVMeQueue.blank.place 1 2 4 0x1000 0x2000
  let driver := create ⟨space, nvmeq, []⟩ 0
  have regions : ∃ prps, describe space req = .ok prps ∧ prps.space = space := by
    have sum : u64 (req.buf % ctrlPageSize + req.size) ≤ ctrlPageSize * 2 :=
      Nat.le_trans (Nat.mod_le _ _) short
    rw [describe, if_pos (Nat.ne_of_gt nonempty)]
    simp only [Prps.setupBuffer, if_pos sum]
    exact ⟨_, rfl, rfl⟩
  obtain ⟨prps, described, same⟩ := regions
  have mapped : space.translate (u32 (nvmeq.sqDmaAddr + nvmeq.sqTail <<< nvmeq.sqeShift))
      (rwCommand doWrite req 0 prps).bytes.length = .ok 0x1000 := by
    rw [RwCommand.length_bytes]
    exact MemorySpace.translate_zero rfl (le_refl _) (by decide) (by decide)
  have returns : ∃ port, QueuePort.submitSqCommand ⟨space, nvmeq, []⟩
      (rwCommand doWrite req 0 prps).bytes true = .ok port :=
    QueuePort.submitSqCommand_returns rfl mapped
  obtain ⟨port, queued⟩ := returns
  rw [← same] at queued
  exact ⟨driver, _, bind_ok.mpr ⟨prps, described, bind_ok.mpr ⟨port, queued, rfl⟩⟩⟩

/-- A submission that returns transfers exactly the request just when it is one of 1 to 65536 whole
blocks at a block boundary. -/
theorem transfers_iff {doWrite : Bool} {driver after : Driver} {req : IORequest}
    (positive : 0 ≤ req.pos) (position : req.pos < 2 ^ 63) (nonempty : 0 < req.size)
    (fits : req.size < 2 ^ 64) (ok : driver.submitRwCommand doWrite req = .ok after) :
    ∃ prps bytes, Submitted doWrite driver req after prps bytes ∧
      (Transfers prps bytes req ↔
        req.pos % blockSize = 0 ∧ req.size % blockSize = 0 ∧ req.size ≤ 2 ^ 16 * blockSize) := by
  obtain ⟨prps, port, regions, queued, same⟩ := submitRwCommand_ok ok
  refine ⟨prps, _, ⟨regions, rfl, port, queued, same⟩, ?_⟩
  have slbaExact : (slbaOf (rwCommand doWrite req driver.commandIdCounter prps).bytes : Int) *
      blockSize = req.pos ↔ req.pos % blockSize = 0 := slba_exact positive position
  rw [← slbaExact, ← length_exact nonempty fits]
  constructor
  · intro transfers
    exact ⟨transfers.slba, transfers.length⟩
  · rintro ⟨slba, length⟩
    refine ⟨slba, length, ?_⟩
    intro fuel addresses pages walked
    rw [transferBytes, length, Prps.length_walk walked]

/-- Two blocks at a block boundary are transferred. -/
theorem transfers_two :
    ∃ driver after prps bytes, Submitted true driver ⟨⟨true, 1, 4096, 8192⟩, 0, 0x4000⟩ after prps bytes ∧
      (Transfers prps bytes ⟨⟨true, 1, 4096, 8192⟩, 0, 0x4000⟩ ↔
        (4096 : Int) % blockSize = 0 ∧ 8192 % blockSize = 0 ∧ 8192 ≤ 2 ^ 16 * blockSize) := by
  obtain ⟨driver, after, ok⟩ :=
    submit_short true ⟨⟨true, 1, 4096, 8192⟩, 0, 0x4000⟩ (by decide) (by decide)
  exact ⟨driver, after, transfers_iff (by decide) (by decide) (by decide) (by decide) ok⟩

/-- A request of one sector is submitted as a command for 65536 blocks. -/
theorem sector_wraps :
    ¬ ∀ doWrite driver req after, 0 ≤ req.pos → req.pos < 2 ^ 63 → req.pos % 512 = 0 →
      512 ≤ req.size → req.size < 2 ^ 64 → req.size % 512 = 0 →
      submitRwCommand doWrite driver req = .ok after →
      ∃ prps bytes, Submitted doWrite driver req after prps bytes ∧ Transfers prps bytes req := by
  intro exactly
  obtain ⟨driver, after, ok⟩ :=
    submit_short true ⟨⟨true, 1, 0, 512⟩, 0, 0x4000⟩ (by decide) (by decide)
  obtain ⟨prps, bytes, submitted, transfers⟩ := exactly true driver _ after (by decide) (by decide)
    (by decide) (by decide) (by decide) (by decide) ok
  have length := transfers.length
  rw [submitted.command, length_exact (by decide) (by decide)] at length
  exact absurd length (by decide)

end Driver

end McmqHost
